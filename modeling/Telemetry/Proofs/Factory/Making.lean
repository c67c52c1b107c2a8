import Telemetry.Factory.Basic
import Telemetry.Proofs.Envelope.Tags

/-!
# What making an event does

Each operation of `Making` is said here once as a whole: what it returns, which reading of the clock
it takes, and what it adds to the log, all as a function of the recorder that it starts from. The
later modules use these equations and open no operation again.

Of a request an operation sees the method, the URI, the address of the peer and the headers of the
four rules. `RequestInfo.Alike` says that two requests agree on these, and the operations cannot
tell two such requests apart.
-/

namespace Telemetry

namespace Making

variable (recorder : Recorder)

theorem acceptMethod_of_ok {request : RequestInfo} {method : Method}
    (h : Method.parse request.method = .ok method) : acceptMethod request = pure method := by
  rw [acceptMethod, h]

theorem acceptMethod_of_error {request : RequestInfo} {e : EventError}
    (h : Method.parse request.method = .error e) :
    acceptMethod request = (do
      note [.unknownMethod request.method]
      throw (.unknownMethod request.method)) := by
  rw [acceptMethod, h]

/-- The event that a request has begun, or the refusal of its method, without a reading. -/
theorem httpStart_run (request : RequestInfo) (peerType : PeerType) (requestId : CorrelationId) :
    (httpStart request peerType requestId).run recorder =
      let (fields, notes) := HeaderFields.extract request
      match Method.parse request.method with
      | .ok method =>
        (.ok { timestamp := recorder.clock.reading recorder.taken, requestId, peerType, method
               uri := request.uri, remoteAddress := request.remoteAddress
               userAgent := fields.userAgent, applicationId := fields.applicationId
               instanceIndex := fields.instanceIndex, instanceId := fields.instanceId },
          { recorder with
            taken := recorder.taken + 1
            log := recorder.log ++ notes ++ [.builtHttpStart requestId method request.uri] })
      | .error _ =>
        (.error (.unknownMethod request.method),
          { recorder with log := recorder.log ++ [.unknownMethod request.method] }) := by
  -- the method is looked at before the clock
  cases hmethod : Method.parse request.method with
  | ok method =>
    rw [httpStart, acceptMethod_of_ok hmethod]
    rfl
  | error e =>
    rw [httpStart, acceptMethod_of_error hmethod]
    rfl

/-- The event that a response is complete. -/
theorem httpStop_run (request : RequestInfo) (statusCode : Int32) (contentLength : Int64)
    (peerType : PeerType) (requestId : CorrelationId) :
    (httpStop request statusCode contentLength peerType requestId).run recorder =
      let (fields, notes) := HeaderFields.extract request
      (.ok { timestamp := recorder.clock.reading recorder.taken, uri := request.uri, requestId
             peerType, statusCode, contentLength, applicationId := fields.applicationId },
        { recorder with
          taken := recorder.taken + 1
          log := recorder.log ++ notes ++ [.builtHttpStop requestId statusCode request.uri] }) :=
  rfl

/-- The event of a whole exchange, or the refusal of the method, without a reading. -/
theorem httpStartStop_run (request : RequestInfo) (statusCode : Int32) (contentLength : Int64)
    (peerType : PeerType) (requestId : CorrelationId) :
    (httpStartStop request statusCode contentLength peerType requestId).run recorder =
      let (fields, notes) := HeaderFields.extract request
      match Method.parse request.method with
      | .ok method =>
        (.ok { startTimestamp := recorder.clock.reading recorder.taken
               stopTimestamp := recorder.clock.reading recorder.taken
               requestId, peerType, method, statusCode, contentLength
               uri := request.uri, remoteAddress := request.remoteAddress
               userAgent := fields.userAgent, applicationId := fields.applicationId
               instanceIndex := fields.instanceIndex, instanceId := fields.instanceId },
          { recorder with
            taken := recorder.taken + 1
            log := recorder.log ++ notes ++
              [.builtHttpStartStop requestId method statusCode request.uri] })
      | .error _ =>
        (.error (.unknownMethod request.method),
          { recorder with log := recorder.log ++ [.unknownMethod request.method] }) := by
  -- as for the beginning: the method, then the headers, then one reading for both timestamps
  cases hmethod : Method.parse request.method with
  | ok method =>
    rw [httpStartStop, acceptMethod_of_ok hmethod]
    rfl
  | error e =>
    rw [httpStartStop, acceptMethod_of_error hmethod]
    rfl

/-- The event of a line of output. -/
theorem logMessage_run (messageType : MessageType) (message : List UInt8)
    (appId sourceType : String) :
    (logMessage messageType message appId sourceType).run recorder =
      (.ok { message, messageType, timestamp := recorder.clock.reading recorder.taken, appId
             sourceType, sourceInstance := none },
        { recorder with taken := recorder.taken + 1 }) :=
  rfl

/-- The envelope that a configuration makes of an event at a reading of the clock. -/
def enveloped (config : Config) (event : Event) (timestamp : Int64) : Envelope where
  origin := config.origin
  timestamp := timestamp
  deployment := config.deployment
  job := config.job
  index := config.index
  ip := config.ip
  tags := config.tags
  event := event

/-- What the builder comes to with the settings of a configuration. -/
theorem build_settings (config : Config) (timestamp : Int64) (event : Event) :
    (EnvelopeBuilder.empty.setAll (settings config timestamp event)).build =
      if config.origin = "" then .error (.missingField .origin)
      else .ok (enveloped config event timestamp) := by
  have hset : EnvelopeBuilder.empty.setAll (settings config timestamp event) =
      { origin := some config.origin, timestamp := some timestamp, deployment := config.deployment
        job := config.job, index := config.index, ip := config.ip
        tags := Tags.ofList config.tags.toList, event := some event } := by
    -- what the configuration lacks is not set, and stays absent in the builder
    obtain ⟨origin, deployment, job, index, ip, tags⟩ := config
    cases deployment <;> cases job <;> cases index <;> cases ip <;> rfl
  rw [hset, Tags.ofList_of_perm (.refl config.tags.toList), EnvelopeBuilder.build]
  -- of the three parts that are required only the origin can be missing, by being empty
  by_cases horigin : config.origin = ""
  · simp only [horigin, if_true]
    rfl
  · rw [if_neg horigin, Option.filter_some_pos (by simpa using horigin)]
    rfl

theorem readClock_bind {α : Type} (f : Int64 → Making α) :
    (readClock >>= f).run recorder =
      (f (recorder.clock.reading recorder.taken)).run
        { recorder with taken := recorder.taken + 1 } :=
  rfl

/-- An envelope, or the refusal of an empty origin; the reading is taken in either case. -/
theorem envelope_run (config : Config) (event : Event) :
    (envelope config event).run recorder =
      (if config.origin = "" then .error (.event (.missingField .origin))
        else .ok (enveloped config event (recorder.clock.reading recorder.taken)),
        { recorder with taken := recorder.taken + 1 }) := by
  rw [envelope, readClock_bind, build_settings]
  -- the reading is behind both; the origin decides what is built
  by_cases horigin : config.origin = ""
  · simp only [if_pos horigin]
    rfl
  · simp only [if_neg horigin]
    rfl

end Making

/-! ### Requests that cannot be told apart -/

/-- Two requests agree on all that is reported about a request. -/
structure RequestInfo.Alike (a b : RequestInfo) : Prop where
  method : a.method = b.method
  uri : a.uri = b.uri
  remoteAddress : a.remoteAddress = b.remoteAddress
  header : ∀ rule : HeaderRule, a.header rule.header = b.header rule.header

namespace RequestInfo.Alike

variable {a b : RequestInfo}

theorem extract (h : a.Alike b) : HeaderFields.extract a = HeaderFields.extract b := by
  have hall : ∀ (rules : List HeaderRule) (fields : HeaderFields),
      HeaderRule.applyAll a rules fields = HeaderRule.applyAll b rules fields := by
    -- The fields vary, because each rule is given those that the rules before it have left.
    intro rules
    induction rules with
    | nil => exact fun _ => rfl
    | cons rule rules ih =>
      intro fields
      -- a rule looks at its own header alone
      have hrule : rule.apply a fields = rule.apply b fields := by
        rw [HeaderRule.apply, HeaderRule.apply, h.header rule]
      rw [HeaderRule.applyAll, HeaderRule.applyAll, hrule]
      simp only [ih]
  exact hall HeaderRule.all {}

theorem httpStart (h : a.Alike b) (peerType : PeerType) (requestId : CorrelationId)
    (recorder : Recorder) :
    (Making.httpStart a peerType requestId).run recorder =
      (Making.httpStart b peerType requestId).run recorder := by
  rw [Making.httpStart_run, Making.httpStart_run, h.extract, h.method, h.uri, h.remoteAddress]

theorem httpStop (h : a.Alike b) (statusCode : Int32) (contentLength : Int64)
    (peerType : PeerType) (requestId : CorrelationId) (recorder : Recorder) :
    (Making.httpStop a statusCode contentLength peerType requestId).run recorder =
      (Making.httpStop b statusCode contentLength peerType requestId).run recorder := by
  rw [Making.httpStop_run, Making.httpStop_run, h.extract, h.uri]

theorem httpStartStop (h : a.Alike b) (statusCode : Int32) (contentLength : Int64)
    (peerType : PeerType) (requestId : CorrelationId) (recorder : Recorder) :
    (Making.httpStartStop a statusCode contentLength peerType requestId).run recorder =
      (Making.httpStartStop b statusCode contentLength peerType requestId).run recorder := by
  rw [Making.httpStartStop_run, Making.httpStartStop_run, h.extract, h.method, h.uri,
    h.remoteAddress]

end RequestInfo.Alike

end Telemetry
