import Telemetry.Proofs.Factory.HeaderRules
import Telemetry.Proofs.Factory.Making

/-!
# Three reports of one request

A request is reported when it begins, when its response is complete, or in one event for the whole
exchange. What two of these events have in common, they say alike: `HttpStart.AgreesWith` and
`HttpStop.AgreesWith` list it. The operations may be carried out at any time and with any log; only
the timestamps depend on this, and they depend on the next reading of the clock alone.

The beginning and the whole exchange need a known method, and without one both are refused in the
same words. The completion of a response is reported whatever the method is.

An operation that makes an event notes what the header rules note and then the event, so its notes
about headers (`Recorder.headerNotes`) are those of the rules (`Recorder.headerNotes_of_log`).
-/

namespace Telemetry

/-! ### What is compared -/

/-- The event of the beginning says what the event of the whole exchange says. -/
structure HttpStart.AgreesWith (e : HttpStart) (whole : HttpStartStop) : Prop where
  requestId : e.requestId = whole.requestId
  peerType : e.peerType = whole.peerType
  method : e.method = whole.method
  uri : e.uri = whole.uri
  remoteAddress : e.remoteAddress = whole.remoteAddress
  userAgent : e.userAgent = whole.userAgent
  applicationId : e.applicationId = whole.applicationId
  instanceIndex : e.instanceIndex = whole.instanceIndex
  instanceId : e.instanceId = whole.instanceId

/-- The event of the completion says what the event of the whole exchange says. -/
structure HttpStop.AgreesWith (e : HttpStop) (whole : HttpStartStop) : Prop where
  uri : e.uri = whole.uri
  requestId : e.requestId = whole.requestId
  peerType : e.peerType = whole.peerType
  applicationId : e.applicationId = whole.applicationId
  statusCode : e.statusCode = whole.statusCode
  contentLength : e.contentLength = whole.contentLength

/-- The event of the whole exchange has this timestamp, at its beginning and at its end. -/
def HttpStartStop.StampedAt (whole : HttpStartStop) (time : Int64) : Prop :=
  whole.startTimestamp = time ∧ whole.stopTimestamp = time

/-- The record is about a header that was passed over. -/
def LogRecord.isHeaderNote : LogRecord → Bool
  | .malformedHeader .. => true
  | _ => false

namespace Recorder

/-- What the clock shows when it is read next. -/
def next (r : Recorder) : Int64 :=
  r.clock.reading r.taken

/-- The records about headers that an operation has added to the log. -/
def headerNotes (before after : Recorder) : List LogRecord :=
  (after.log.drop before.log.length).filter LogRecord.isHeaderNote

/-- The header rules note nothing but headers. -/
theorem isHeaderNote_of_mem_extract {request : RequestInfo} {record : LogRecord}
    (h : record ∈ (HeaderFields.extract request).2) : record.isHeaderNote = true := by
  have hnotes : (HeaderFields.extract request).2 =
      HeaderRule.all.filterMap fun rule => rule.note? request :=
    HeaderRule.notes_applyAll request HeaderRule.all {}
  rw [hnotes] at h
  -- a rule leaves a note only when it cannot read its header
  obtain ⟨rule, -, hnote⟩ := List.mem_filterMap.mp h
  obtain ⟨value, -, hvalue⟩ := Option.bind_eq_some_iff.mp hnote
  cases hread : rule.read value with
  | ok a =>
    rw [hread] at hvalue
    cases hvalue
  | error reason =>
    rw [hread] at hvalue
    cases hvalue
    rfl

/-- An operation that notes what the rules note, and then one record of another kind. -/
theorem headerNotes_of_log {before after : Recorder} {request : RequestInfo} {record : LogRecord}
    (hlog : after.log = before.log ++ (HeaderFields.extract request).2 ++ [record])
    (hrecord : record.isHeaderNote = false) :
    before.headerNotes after = (HeaderFields.extract request).2 := by
  have hadded : after.log.drop before.log.length =
      (HeaderFields.extract request).2 ++ [record] := by
    rw [hlog, List.append_assoc, List.drop_left]
  -- the last record is not about a header, the others are
  have hkept : (HeaderFields.extract request).2.filter LogRecord.isHeaderNote =
      (HeaderFields.extract request).2 :=
    List.filter_eq_self.mpr fun _ h => isHeaderNote_of_mem_extract h
  rw [headerNotes, hadded, List.filter_append, hkept, List.filter_cons_of_neg (by simp [hrecord]),
    List.filter_nil, List.append_nil]

end Recorder

namespace Making

/-! ### The operations, one by one -/

variable {request : RequestInfo} {peerType : PeerType} {requestId : CorrelationId}
  {statusCode : Int32} {contentLength : Int64}

/-- Without a known method neither the beginning nor the whole exchange is reported. -/
theorem http_of_unknown {fault : EventError} (h : Method.parse request.method = .error fault)
    (r₁ r₃ : Recorder) :
    ((httpStart request peerType requestId).run r₁).1 = .error (.unknownMethod request.method) ∧
      ((httpStartStop request statusCode contentLength peerType requestId).run r₃).1 =
        .error (.unknownMethod request.method) := by
  rw [httpStart_run, httpStartStop_run, h]
  exact ⟨rfl, rfl⟩

/-- With a known method both are reported, and agree. -/
theorem http_of_known {method : Method} (h : Method.parse request.method = .ok method)
    (r₁ r₃ : Recorder) :
    ∃ e after₁ whole after₃,
      (httpStart request peerType requestId).run r₁ = (.ok e, after₁) ∧
      (httpStartStop request statusCode contentLength peerType requestId).run r₃ =
        (.ok whole, after₃) ∧
      e.AgreesWith whole ∧ e.timestamp = r₁.next ∧
      r₁.headerNotes after₁ = (HeaderFields.extract request).2 ∧
      r₃.headerNotes after₃ = (HeaderFields.extract request).2 := by
  rw [httpStart_run, httpStartStop_run, h]
  exact ⟨_, _, _, _, rfl, rfl, ⟨rfl, rfl, rfl, rfl, rfl, rfl, rfl, rfl, rfl⟩, rfl,
    Recorder.headerNotes_of_log rfl rfl, Recorder.headerNotes_of_log rfl rfl⟩

/-- There is a report of the whole exchange only if the method is known. -/
theorem exists_method_of_ok {r₃ : Recorder} {whole : HttpStartStop}
    (h : ((httpStartStop request statusCode contentLength peerType requestId).run r₃).1 =
      .ok whole) : ∃ method, Method.parse request.method = .ok method := by
  cases hmethod : Method.parse request.method with
  | ok method => exact ⟨method, rfl⟩
  | error fault =>
    rw [httpStartStop_run, hmethod] at h
    cases h

/-- The two timestamps of the whole exchange are one reading. -/
theorem stampedAt_of_ok {r₃ : Recorder} {whole : HttpStartStop}
    (h : ((httpStartStop request statusCode contentLength peerType requestId).run r₃).1 =
      .ok whole) : whole.StampedAt r₃.next := by
  obtain ⟨method, hmethod⟩ := exists_method_of_ok h
  rw [httpStartStop_run, hmethod] at h
  cases h
  exact ⟨rfl, rfl⟩

/-- The completion is reported whatever the method is, in agreement with any report of the whole
exchange. -/
theorem httpStop_always (r₂ : Recorder) :
    ∃ e after,
      (httpStop request statusCode contentLength peerType requestId).run r₂ = (.ok e, after) ∧
      e.timestamp = r₂.next ∧ r₂.headerNotes after = (HeaderFields.extract request).2 ∧
      ∀ (r₃ : Recorder) (whole : HttpStartStop),
        ((httpStartStop request statusCode contentLength peerType requestId).run r₃).1 =
          .ok whole → e.AgreesWith whole := by
  rw [httpStop_run]
  refine ⟨_, _, rfl, rfl, Recorder.headerNotes_of_log rfl rfl, ?_⟩
  -- the report of the whole has what the completion has, since both are made from the request
  intro r₃ whole h
  obtain ⟨method, hmethod⟩ := exists_method_of_ok h
  rw [httpStartStop_run, hmethod] at h
  cases h
  exact ⟨rfl, rfl, rfl, rfl, rfl, rfl⟩

/-- The completion agrees with any report of the whole exchange, and has its timestamp if their
clocks are about to show the same. -/
theorem httpStop_agrees (r₂ r₃ : Recorder) :
    ∃ e, ((httpStop request statusCode contentLength peerType requestId).run r₂).1 = .ok e ∧
      ∀ whole, ((httpStartStop request statusCode contentLength peerType requestId).run r₃).1 =
        .ok whole → e.AgreesWith whole ∧ (r₂.next = r₃.next → whole.StampedAt e.timestamp) := by
  obtain ⟨e, after, hstop, htime, -, hagree⟩ := httpStop_always r₂
  refine ⟨e, congrArg Prod.fst hstop, fun whole hwhole => ⟨hagree r₃ whole hwhole, fun hnext => ?_⟩⟩
  rw [htime, hnext]
  exact stampedAt_of_ok hwhole

/-! ### The three together -/

/-- **The three reports agree.** For one request, and at whatever times, a beginning is reported if
and only if a whole exchange is, namely if the method is known; if not, both are refused with the
method's own text. A completion is always reported. Two reports agree on all that they have in
common, and on their timestamps if the clocks are about to show the same. What is noted about
headers does not depend on the operation. -/
theorem http_operations_agree (request : RequestInfo) (peerType : PeerType)
    (requestId : CorrelationId) (statusCode : Int32) (contentLength : Int64)
    (r₁ r₂ r₃ : Recorder) :
    let start := (httpStart request peerType requestId).run r₁
    let stop := (httpStop request statusCode contentLength peerType requestId).run r₂
    let exchange := (httpStartStop request statusCode contentLength peerType requestId).run r₃
    ((∃ e, start.1 = .ok e) ↔ ∃ whole, exchange.1 = .ok whole) ∧
    ((∃ e, start.1 = .ok e) ↔ ∃ method, Method.parse request.method = .ok method) ∧
    (∀ error, (start.1 = .error error ↔ exchange.1 = .error error) ∧
      (start.1 = .error error → error = .unknownMethod request.method)) ∧
    (∀ e whole, start.1 = .ok e → exchange.1 = .ok whole →
      e.AgreesWith whole ∧ (r₁.next = r₃.next → whole.StampedAt e.timestamp)) ∧
    (∃ e, stop.1 = .ok e ∧ ∀ whole, exchange.1 = .ok whole →
      e.AgreesWith whole ∧ (r₂.next = r₃.next → whole.StampedAt e.timestamp)) ∧
    (∀ e whole, start.1 = .ok e → exchange.1 = .ok whole →
      r₁.headerNotes start.2 = r₃.headerNotes exchange.2 ∧
      r₂.headerNotes stop.2 = r₃.headerNotes exchange.2) := by
  intro start stop exchange
  -- the completion does not depend on what becomes of the other two
  obtain ⟨e₂, after₂, hstop, -, hnotes₂, -⟩ :
      ∃ e after, stop = (.ok e, after) ∧ _ := httpStop_always r₂
  have hcompletion : ∃ e, stop.1 = .ok e ∧ ∀ whole, exchange.1 = .ok whole →
      e.AgreesWith whole ∧ (r₂.next = r₃.next → whole.StampedAt e.timestamp) :=
    httpStop_agrees r₂ r₃
  -- these stand or fall together, by the method
  cases hmethod : Method.parse request.method with
  | error fault =>
    -- both are refused with the same error, and there is no report to compare
    obtain ⟨hstart, hexchange⟩ :
        start.1 = .error (.unknownMethod request.method) ∧
          exchange.1 = .error (.unknownMethod request.method) := http_of_unknown hmethod r₁ r₃
    refine ⟨?_, ?_, ?_, ?_, hcompletion, ?_⟩
    · simp [hstart, hexchange]
    · simp [hstart]
    · intro error
      rw [hstart, hexchange, Except.error.injEq, Except.error.injEq]
      exact ⟨Iff.rfl, Eq.symm⟩
    · intro e whole h
      rw [hstart] at h
      cases h
    · intro e whole h
      rw [hstart] at h
      cases h
  | ok method =>
    -- both are reported, and any two reports are these two
    obtain ⟨e₁, after₁, whole, after₃, hstart, hexchange, hagree₁, htime₁, hnotes₁, hnotes₃⟩ :
        ∃ e after₁ whole after₃, start = (.ok e, after₁) ∧ exchange = (.ok whole, after₃) ∧ _ :=
      http_of_known hmethod r₁ r₃
    have hstamped : whole.StampedAt r₃.next := stampedAt_of_ok (congrArg Prod.fst hexchange)
    refine ⟨?_, ?_, ?_, ?_, hcompletion, ?_⟩
    · simp [hstart, hexchange]
    · simp [hstart]
    · intro error
      simp [hstart, hexchange]
    · intro e w h h'
      rw [hstart] at h
      rw [hexchange] at h'
      cases h
      cases h'
      refine ⟨hagree₁, ?_⟩
      intro hnext
      rw [htime₁, hnext]
      exact hstamped
    · -- what was noted about headers is in each case what the rules note
      intro e w h h'
      rw [hstart, hstop, hexchange, hnotes₁, hnotes₂, hnotes₃]
      exact ⟨rfl, rfl⟩

/-- A request with a method that is not known and a blank application id. -/
def brewRequest : RequestInfo :=
  .ofHeaders "BREW" "host" "/" "peer" [⟨"X-CF-ApplicationID", Ascii.bytes " "⟩]

/-- The sparse request is reported by three clocks that are about to show 7, with two notes about
its headers each time. The other request is reported by its completion alone. -/
theorem http_operations_agree_sparse :
    let r₁ : Recorder := ⟨.fixed 7, 0, []⟩
    let r₂ : Recorder := ⟨.ticking 1 3, 2, [.unknownMethod "BREW"]⟩
    let r₃ : Recorder := ⟨.ticking 7 1, 0, []⟩
    let id : CorrelationId := ⟨1, 2⟩
    let start := (httpStart HeaderFields.sparseRequest .server id).run r₁
    let stop := (httpStop HeaderFields.sparseRequest 200 5 .server id).run r₂
    let exchange := (httpStartStop HeaderFields.sparseRequest 200 5 .server id).run r₃
    r₁.next = r₃.next ∧ r₂.next = r₃.next ∧
      (∃ e e' whole, start.1 = .ok e ∧ stop.1 = .ok e' ∧ exchange.1 = .ok whole ∧
        e.AgreesWith whole ∧ e'.AgreesWith whole ∧ whole.StampedAt e.timestamp ∧
        whole.StampedAt e'.timestamp ∧ r₂.headerNotes stop.2 = r₃.headerNotes exchange.2 ∧
        (r₃.headerNotes exchange.2).length = 2) ∧
      ((httpStart brewRequest .server id).run r₁).1 = .error (.unknownMethod "BREW") ∧
      ((httpStartStop brewRequest 200 5 .server id).run r₁).1 = .error (.unknownMethod "BREW") ∧
      ∃ e, ((httpStop brewRequest 200 5 .server id).run r₁).1 = .ok e := by
  intro r₁ r₂ r₃ id start stop exchange
  have hnext₁ : r₁.next = r₃.next := by decide +kernel
  have hnext₂ : r₂.next = r₃.next := by decide +kernel
  obtain ⟨hboth, hknown, -, hstart, ⟨e', hstop, hcompletion⟩, hnotes⟩ :=
    http_operations_agree HeaderFields.sparseRequest .server id 200 5 r₁ r₂ r₃
  obtain ⟨-, -, hfailed, -, ⟨brewed, hbrewed, -⟩, -⟩ :=
    http_operations_agree brewRequest .server id 200 5 r₁ r₁ r₁
  -- `GET` is a method and `BREW` is none
  have hget : ∃ e, start.1 = .ok e := hknown.mpr ⟨.get, by decide +kernel⟩
  obtain ⟨whole, hwhole⟩ := hboth.mp hget
  obtain ⟨e, he⟩ := hget
  have hlength : (r₃.headerNotes exchange.2).length = 2 := by decide +kernel
  have hrefused : ((httpStart brewRequest .server id).run r₁).1 =
      .error (.unknownMethod "BREW") := by decide +kernel
  refine ⟨hnext₁, hnext₂, ⟨e, e', whole, he, hstop, hwhole, (hstart e whole he hwhole).1,
    (hcompletion whole hwhole).1, (hstart e whole he hwhole).2 hnext₁,
    (hcompletion whole hwhole).2 hnext₂, (hnotes e whole he hwhole).2, hlength⟩, hrefused,
    (hfailed _).1.mp hrefused, brewed, hbrewed⟩

end Making

end Telemetry
