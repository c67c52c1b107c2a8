import Telemetry.Proofs.Factory.Agreement
import Telemetry.Proofs.Factory.ClockAccounting

/-!
# What the log tells about events

Each event about a request leaves one record at the level TRACE, which names the event by its
request id and tells its URI and, if it has them, its method and status code (`Event.trace?`). What
precedes this record are the notes of the header rules.

A call about a request can end in two ways only (`Session.http_cases`). It makes an event, and then
the log has the notes and the trace (`Outcome.reported`). Or the method is not known: then the log
has one record of that, the clock is left alone, and since nothing but the method has been looked
at, all requests with this method are refused in the same way (`Session.refused`). All other calls
are silent (`Session.silent`).

So there is a trace exactly where there is an event (`Session.traces_step`), and over a whole run
the traces in the log are those of the events in the replies, in order (`Session.traces_outcomes`).
-/

namespace Telemetry

/-! ### Records of events -/

/-- The record of an event about a request; other events have none. -/
def Event.trace? : Event → Option LogRecord
  | .httpStart e => some (.builtHttpStart e.requestId e.method e.uri)
  | .httpStop e => some (.builtHttpStop e.requestId e.statusCode e.uri)
  | .httpStartStop e => some (.builtHttpStartStop e.requestId e.method e.statusCode e.uri)
  | .logMessage _ | .containerMetric _ => none

/-- What a record looks like to those who read the log. -/
structure LogRecord.Says (record : LogRecord) (level : LogLevel) (message : String)
    (fields : List (String × String)) : Prop where
  level : record.level = level
  message : record.message = message
  fields : record.fields = fields

theorem Event.level_trace {event : Event} {record : LogRecord} (h : event.trace? = some record) :
    record.level = .trace := by
  cases event <;> cases h <;> rfl

/-- The notes about headers are not traces. -/
theorem HeaderFields.level_notes {request : RequestInfo} {record : LogRecord}
    (h : record ∈ (extract request).2) : record.level = .debug := by
  have hnote := Recorder.isHeaderNote_of_mem_extract h
  -- All other records have a level of their own, but are not about headers.
  cases record with
  | malformedHeader header value reason => rfl
  | unknownMethod method => cases hnote
  | builtHttpStart requestId method uri => cases hnote
  | builtHttpStop requestId statusCode uri => cases hnote
  | builtHttpStartStop requestId method statusCode uri => cases hnote

/-- The records of events in a log. -/
def traces (log : List LogRecord) : List LogRecord :=
  log.filter (·.level = .trace)

/-- What comes of a call that makes an event about a request. -/
def Outcome.reported (request : RequestInfo) (event : Event) : Outcome where
  reply := .event event
  log := (HeaderFields.extract request).2 ++ event.trace?.toList

/-- The event of the reply, if it is one that leaves a trace. -/
def Outcome.trace? (outcome : Outcome) : Option LogRecord :=
  outcome.reply.event?.bind Event.trace?

theorem traces_reported (request : RequestInfo) (event : Event) :
    traces (Outcome.reported request event).log = event.trace?.toList := by
  -- the notes are no traces, and the record of the event is one
  have hnotes : traces (HeaderFields.extract request).2 = [] := by
    refine List.filter_eq_nil_iff.mpr fun record hmem => ?_
    rw [HeaderFields.level_notes hmem]
    decide
  have htrace : traces event.trace?.toList = event.trace?.toList := by
    refine List.filter_eq_self.mpr fun record hmem => ?_
    exact decide_eq_true (Event.level_trace (Option.mem_toList.mp hmem))
  calc traces (Outcome.reported request event).log
      = traces (HeaderFields.extract request).2 ++ traces event.trace?.toList :=
        List.filter_append ..
    _ = event.trace?.toList := by rw [hnotes, htrace, List.nil_append]

/-- The request that a call is about. -/
def Call.request? : Call → Option RequestInfo
  | .httpStart request _ _ | .httpStop request _ _ _ _ | .httpStartStop request _ _ _ _ =>
    some request
  | .logMessage .. | .containerMetric _ | .envelope _ | .configure _ => none

namespace Session

/-! ### One call -/

variable (s : Session)

/-- What comes of a call about a request whose method is not known. -/
def refused (method : String) : Session × Outcome :=
  ({ s with made := s.made ++ [none] }, ⟨.failed (.unknownMethod method), [.unknownMethod method]⟩)

section

variable {s} {request : RequestInfo} {peerType : PeerType} {requestId : CorrelationId}
  {statusCode : Int32} {contentLength : Int64}

theorem step_httpStart_of_error {fault : EventError}
    (h : Method.parse request.method = .error fault) :
    s.step (.httpStart request peerType requestId) = s.refused request.method := by
  have hrun := Making.httpStart_run ⟨s.clock, s.taken, []⟩ request peerType requestId
  rw [h] at hrun
  rw [step, answer, perform_of_error hrun]
  rfl

theorem step_httpStartStop_of_error {fault : EventError}
    (h : Method.parse request.method = .error fault) :
    s.step (.httpStartStop request statusCode contentLength peerType requestId) =
      s.refused request.method := by
  have hrun := Making.httpStartStop_run ⟨s.clock, s.taken, []⟩ request statusCode contentLength
    peerType requestId
  rw [h] at hrun
  rw [step, answer, perform_of_error hrun]
  rfl

theorem step_httpStart_of_ok {method : Method} (h : Method.parse request.method = .ok method) :
    ∃ e, (s.step (.httpStart request peerType requestId)).2 = .reported request (.httpStart e) := by
  have hrun := Making.httpStart_run ⟨s.clock, s.taken, []⟩ request peerType requestId
  rw [h] at hrun
  rw [step, answer, perform_of_ok hrun]
  exact ⟨_, rfl⟩

theorem step_httpStop :
    ∃ e, (s.step (.httpStop request statusCode contentLength peerType requestId)).2 =
      .reported request (.httpStop e) := by
  have hrun := Making.httpStop_run ⟨s.clock, s.taken, []⟩ request statusCode contentLength peerType
    requestId
  rw [step, answer, perform_of_ok hrun]
  exact ⟨_, rfl⟩

theorem step_httpStartStop_of_ok {method : Method}
    (h : Method.parse request.method = .ok method) :
    ∃ e, (s.step (.httpStartStop request statusCode contentLength peerType requestId)).2 =
      .reported request (.httpStartStop e) := by
  have hrun := Making.httpStartStop_run ⟨s.clock, s.taken, []⟩ request statusCode contentLength
    peerType requestId
  rw [h] at hrun
  rw [step, answer, perform_of_ok hrun]
  exact ⟨_, rfl⟩

end

/-- **A call about a request** is refused for its method, or makes an event and leaves its trace. -/
theorem http_cases {call : Call} {request : RequestInfo} (h : call.request? = some request) :
    s.step call = s.refused request.method ∨
      ∃ event, event.trace?.isSome ∧ (s.step call).2 = .reported request event := by
  -- The beginning and the whole exchange need a known method; the completion does not.
  cases call with
  | httpStart found peerType requestId =>
    obtain rfl : found = request := Option.some.inj h
    cases hmethod : Method.parse found.method with
    | error fault => exact .inl (step_httpStart_of_error hmethod)
    | ok method =>
      obtain ⟨e, he⟩ : ∃ e, (s.step (.httpStart found peerType requestId)).2 =
        .reported found (.httpStart e) := step_httpStart_of_ok hmethod
      exact .inr ⟨_, rfl, he⟩
  | httpStop found statusCode contentLength peerType requestId =>
    obtain rfl : found = request := Option.some.inj h
    obtain ⟨e, he⟩ : ∃ e, (s.step (.httpStop found statusCode contentLength peerType requestId)).2 =
      .reported found (.httpStop e) := step_httpStop
    exact .inr ⟨_, rfl, he⟩
  | httpStartStop found statusCode contentLength peerType requestId =>
    obtain rfl : found = request := Option.some.inj h
    cases hmethod : Method.parse found.method with
    | error fault => exact .inl (step_httpStartStop_of_error hmethod)
    | ok method =>
      obtain ⟨e, he⟩ : ∃ e,
        (s.step (.httpStartStop found statusCode contentLength peerType requestId)).2 =
          .reported found (.httpStartStop e) := step_httpStartStop_of_ok hmethod
      exact .inr ⟨_, rfl, he⟩
  | logMessage => cases h
  | containerMetric => cases h
  | envelope => cases h
  | configure => cases h

/-- **All other calls are silent,** whether or not they succeed, and make no event that would leave
a trace. -/
theorem silent {call : Call} (h : call.request? = none) :
    (s.step call).2.log = [] ∧ (s.step call).2.trace? = none := by
  cases call with
  | httpStart => cases h
  | httpStop => cases h
  | httpStartStop => cases h
  | logMessage messageType message appId sourceType =>
    have hrun := Making.logMessage_run ⟨s.clock, s.taken, []⟩ messageType message appId sourceType
    rw [step, answer, perform_of_ok hrun]
    exact ⟨rfl, rfl⟩
  | containerMetric metric => exact ⟨rfl, rfl⟩
  | configure config => exact ⟨rfl, rfl⟩
  | envelope subject =>
    cases hsubject : s.resolve subject with
    | error earlier =>
      -- no operation has run
      rw [step, answer, hsubject]
      exact ⟨rfl, rfl⟩
    | ok event =>
      have hrun := Making.envelope_run ⟨s.clock, s.taken, []⟩ s.config event
      -- whether or not there is an origin, the log is left as it was
      by_cases horigin : s.config.origin = ""
      · rw [if_pos horigin] at hrun
        rw [step, answer_envelope hsubject, perform_of_error hrun]
        exact ⟨rfl, rfl⟩
      · rw [if_neg horigin] at hrun
        rw [step, answer_envelope hsubject, perform_of_ok hrun]
        exact ⟨rfl, rfl⟩

/-- **A call leaves a trace** exactly if it makes an event about a request, and it is that of the
event. -/
theorem traces_step (call : Call) :
    traces (s.step call).2.log = (s.step call).2.trace?.toList := by
  -- A call is about a request, or it is silent.
  cases hrequest : call.request? with
  | none =>
    obtain ⟨hlog, htrace⟩ := s.silent hrequest
    rw [hlog, htrace]
    rfl
  | some request =>
    rcases s.http_cases hrequest with hrefused | ⟨event, -, hreported⟩
    · rw [hrefused]
      rfl
    · rw [hreported, traces_reported]
      rfl

/-- **The traces of a run** are those of its events, in order. -/
theorem traces_outcomes (calls : List Call) :
    traces ((s.outcomes calls).flatMap Outcome.log) =
      (s.outcomes calls).filterMap Outcome.trace? := by
  -- The session varies: the rest is run from where the first call has led.
  induction calls generalizing s with
  | nil => rfl
  | cons call rest ih =>
    have hfirst := s.traces_step call
    have hrest := ih (s.step call).1
    rw [traces] at hfirst hrest ⊢
    rw [outcomes_cons, List.flatMap_cons, List.filter_append, hfirst, hrest, List.filterMap_cons]
    cases (s.step call).2.trace? <;> rfl

/-! ### What is noted of a call about a request -/

/-- The call is refused for its method: there is one record of that, and no reading of the clock. -/
structure Refuses (call : Call) (method : String) : Prop where
  reply : (s.step call).2.reply = .failed (.unknownMethod method)
  log : ∃ record, (s.step call).2.log = [record] ∧
    record.Says .debug "rejecting unknown HTTP method" [("method", method)]
  taken : (s.step call).1.taken = s.taken

/-- The call makes an event: there are the notes about the headers of the request, and then one
trace. -/
structure Reports (call : Call) (request : RequestInfo) (event : Event) (message : String)
    (fields : List (String × String)) : Prop where
  reply : (s.step call).2.reply = .event event
  log : ∃ record, (s.step call).2.log = (HeaderFields.extract request).2 ++ [record] ∧
    record.Says .trace message fields

theorem refuses_of_step {call : Call} {method : String} (h : s.step call = s.refused method) :
    s.Refuses call method := by
  refine ⟨?_, ⟨.unknownMethod method, ?_, rfl, rfl, rfl⟩, ?_⟩ <;> rw [h] <;> rfl

theorem traces_of_step {call : Call} {request : RequestInfo} {event : Event} {record : LogRecord}
    (h : (s.step call).2 = .reported request event) (htrace : event.trace? = some record) :
    s.Reports call request event record.message record.fields := by
  refine ⟨by rw [h]; rfl, record, ?_, Event.level_trace htrace, rfl, rfl⟩
  rw [h, Outcome.reported, htrace]
  rfl

/-- A call about a request has a trace in its log if and only if it has an event in its reply. -/
theorem trace_iff_event {call : Call} {request : RequestInfo} (h : call.request? = some request) :
    (∃ record ∈ (s.step call).2.log, record.level = .trace) ↔
      ∃ event, (s.step call).2.reply = .event event := by
  rcases s.http_cases h with hrefused | ⟨event, hsome, hreported⟩
  · -- there is one record and no event, and the record is no trace
    rw [hrefused]
    simp [refused, LogRecord.level]
  · refine iff_of_true ?_ ⟨event, by rw [hreported]; rfl⟩
    obtain ⟨record, hrecord⟩ := Option.isSome_iff_exists.mp hsome
    refine ⟨record, ?_, Event.level_trace hrecord⟩
    rw [hreported, Outcome.reported, hrecord]
    simp

/-- **What is noted of a call matches what comes of it,** whatever the state of the session. If the
method is not known, the beginning and the whole exchange are refused: this is the one record, the
clock is not read, and any other request with this method is refused in the same way, so that
neither its headers nor anything else has been looked at. In every other case, and for the
completion in every case, the records are the notes about the headers and then one trace, which
tells of the event that is returned. A trace is there if and only if an event is. Lines of output,
metrics and envelopes are not noted. -/
theorem log_matches_outcome (s : Session) :
    (∀ (request : RequestInfo) (peerType : PeerType) (requestId : CorrelationId)
      (statusCode : Int32) (contentLength : Int64),
      let start := Call.httpStart request peerType requestId
      let stop := Call.httpStop request statusCode contentLength peerType requestId
      let exchange := Call.httpStartStop request statusCode contentLength peerType requestId
      (∀ fault, Method.parse request.method = .error fault →
        s.Refuses start request.method ∧ s.Refuses exchange request.method ∧
        ∀ other : RequestInfo, other.method = request.method →
          s.step (.httpStart other peerType requestId) = s.step start ∧
          s.step (.httpStartStop other statusCode contentLength peerType requestId) =
            s.step exchange) ∧
      (∀ method, Method.parse request.method = .ok method →
        (∃ e, s.Reports start request (.httpStart e) "built http start event"
          [("request_id", e.requestId.text), ("method", e.method.token), ("uri", e.uri)]) ∧
        ∃ e, s.Reports exchange request (.httpStartStop e) "built http start/stop event"
          [("request_id", e.requestId.text), ("method", e.method.token),
            ("status_code", Decimal.text e.statusCode.toInt), ("uri", e.uri)]) ∧
      (∃ e, s.Reports stop request (.httpStop e) "built http stop event"
        [("request_id", e.requestId.text), ("status_code", Decimal.text e.statusCode.toInt),
          ("uri", e.uri)]) ∧
      ∀ record ∈ (HeaderFields.extract request).2, record.level = .debug) ∧
    (∀ call, call.request?.isSome →
      ((∃ record ∈ (s.step call).2.log, record.level = .trace) ↔
        ∃ event, (s.step call).2.reply = .event event)) ∧
    (∀ call, call.request? = none → (s.step call).2.log = []) ∧
    ∀ calls, traces ((s.outcomes calls).flatMap Outcome.log) =
      (s.outcomes calls).filterMap Outcome.trace? := by
  refine ⟨?_, ?_, fun call h => (s.silent h).1, s.traces_outcomes⟩
  · intro request peerType requestId statusCode contentLength start stop exchange
    refine ⟨?_, ?_, ?_, fun record hmem => HeaderFields.level_notes hmem⟩
    · intro fault hmethod
      have hstart : s.step start = s.refused request.method := step_httpStart_of_error hmethod
      have hexchange : s.step exchange = s.refused request.method :=
        step_httpStartStop_of_error hmethod
      refine ⟨s.refuses_of_step hstart, s.refuses_of_step hexchange, fun other hother => ?_⟩
      -- the refusal depends on the method alone
      rw [← hother] at hmethod hstart hexchange
      exact ⟨(step_httpStart_of_error hmethod).trans hstart.symm,
        (step_httpStartStop_of_error hmethod).trans hexchange.symm⟩
    · intro method hmethod
      -- both make an event, and each leaves the trace of its own
      obtain ⟨e, he⟩ : ∃ e, (s.step start).2 = .reported request (.httpStart e) :=
        step_httpStart_of_ok hmethod
      obtain ⟨whole, hwhole⟩ : ∃ e, (s.step exchange).2 = .reported request (.httpStartStop e) :=
        step_httpStartStop_of_ok hmethod
      exact ⟨⟨e, s.traces_of_step he rfl⟩, whole, s.traces_of_step hwhole rfl⟩
    · obtain ⟨e, he⟩ : ∃ e, (s.step stop).2 = .reported request (.httpStop e) := step_httpStop
      exact ⟨e, s.traces_of_step he rfl⟩
  · intro call hcall
    obtain ⟨request, hrequest⟩ := Option.isSome_iff_exists.mp hcall
    exact s.trace_iff_event hrequest

/-- A request with an unknown method and a malformed header is refused with one record; one with a
known method and two malformed headers is reported with three. -/
theorem log_matches_outcome_sparse :
    let s := start (.ticking 5 1) {}
    let id : CorrelationId := ⟨1, 2⟩
    s.Refuses (.httpStart Making.brewRequest .client id) "BREW" ∧
      (∃ e, s.Reports (.httpStart HeaderFields.sparseRequest .server id) HeaderFields.sparseRequest
        (.httpStart e) "built http start event"
        [("request_id", e.requestId.text), ("method", e.method.token), ("uri", e.uri)]) ∧
      (s.step (.httpStart HeaderFields.sparseRequest .server id)).2.log.length = 3 ∧
      (s.step (.envelope (.madeBy 0))).2.log = [] := by
  intro s id
  obtain ⟨hcalls, -, hsilent, -⟩ := log_matches_outcome s
  obtain ⟨hrefused, -⟩ := hcalls Making.brewRequest .client id 200 5
  obtain ⟨-, hknown, -⟩ := hcalls HeaderFields.sparseRequest .server id 200 5
  have hbrew : Method.parse Making.brewRequest.method = .error (.unknownMethod "BREW") := by
    decide +kernel
  have hget : Method.parse HeaderFields.sparseRequest.method = .ok .get := by decide +kernel
  exact ⟨(hrefused _ hbrew).1, (hknown _ hget).1, by decide +kernel, hsilent _ rfl⟩

end Session

end Telemetry
