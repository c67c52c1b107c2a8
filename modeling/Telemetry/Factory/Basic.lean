import Telemetry.Envelope.Builder
import Telemetry.Factory.Config
import Telemetry.Factory.HeaderFields

/-!
# Making events

The operations that make events and envelopes run in `Making`: they may read the clock, add to the
log, and fail. What they have done before they fail stays done.

For an event about an HTTP request the order is: the method is checked, the headers are read and
noted, the clock is read, the event is made and noted. So a request with an unknown method costs
one record and no reading of the clock. The configuration has no part in any of this; it comes in
when an event is put into an envelope.

A clock is the stream of its successive readings, in nanoseconds since the beginning of 1970. All
that matters about a clock is which reading an event was given, and that is a number in the
stream.
-/

namespace Telemetry

/-! ### Clocks -/

/-- A source of timestamps: what it shows when it is read for the first time (0), the second time
(1), and so on. -/
structure Clock where
  reading : Nat → Int64

namespace Clock

def fixed (now : Int64) : Clock where
  reading _ := now

/-- A clock that moves on by `step` whenever it is read. -/
def ticking (start step : Int64) : Clock where
  reading k := start + Int64.ofNat k * step

@[simp] theorem reading_fixed (now : Int64) (k : Nat) : (fixed now).reading k = now := rfl

@[simp] theorem reading_ticking_zero (start step : Int64) :
    (ticking start step).reading 0 = start := by
  simp [ticking]

end Clock

/-! ### Errors -/

/-- Why a factory could not do what it was asked for. -/
inductive FactoryError where
  | unknownMethod (method : String)
  | config (fault : ConfigFault)
  | event (error : EventError)
  deriving DecidableEq

namespace FactoryError

def message : FactoryError → String
  | .unknownMethod method => "unknown HTTP method: " ++ method
  | .config fault => "invalid configuration: " ++ fault.message
  | .event error => error.message

def isUnknownMethod : FactoryError → Bool
  | .unknownMethod _ => true
  | _ => false

end FactoryError

/-! ### Operations -/

/-- Where the making of events stands: the clock, how often it has been read, and the log. -/
structure Recorder where
  clock : Clock
  taken : Nat
  log : List LogRecord

/-- Operations that read the clock, write the log and may fail. -/
abbrev Making (α : Type) := ExceptT FactoryError (StateM Recorder) α

namespace Making

/-- Takes the next reading of the clock. -/
def readClock : Making Int64 := do
  let r ← get
  set { r with taken := r.taken + 1 }
  return r.clock.reading r.taken

def note (records : List LogRecord) : Making Unit :=
  modify fun r => { r with log := r.log ++ records }

/-- The method of a request, which must be known. -/
def acceptMethod (request : RequestInfo) : Making Method :=
  match Method.parse request.method with
  | .ok method => return method
  | .error _ => do
    note [.unknownMethod request.method]
    throw (.unknownMethod request.method)

/-- The fields that come from the headers of a request. -/
def readHeaders (request : RequestInfo) : Making HeaderFields := do
  let (fields, notes) := HeaderFields.extract request
  note notes
  return fields

def httpStart (request : RequestInfo) (peerType : PeerType) (requestId : CorrelationId) :
    Making HttpStart := do
  let method ← acceptMethod request
  let headers ← readHeaders request
  let timestamp ← readClock
  let event : HttpStart := {
    timestamp, requestId, peerType, method
    uri := request.uri
    remoteAddress := request.remoteAddress
    userAgent := headers.userAgent
    applicationId := headers.applicationId
    instanceIndex := headers.instanceIndex
    instanceId := headers.instanceId }
  note [.builtHttpStart requestId method event.uri]
  return event

/-- The event that a response is complete, whatever the method of its request. -/
def httpStop (request : RequestInfo) (statusCode : Int32) (contentLength : Int64)
    (peerType : PeerType) (requestId : CorrelationId) : Making HttpStop := do
  let headers ← readHeaders request
  let timestamp ← readClock
  let event : HttpStop := {
    timestamp, requestId, peerType, statusCode, contentLength
    uri := request.uri
    applicationId := headers.applicationId }
  note [.builtHttpStop requestId statusCode event.uri]
  return event

/-- The event of a whole exchange, with one reading of the clock for its two timestamps. -/
def httpStartStop (request : RequestInfo) (statusCode : Int32) (contentLength : Int64)
    (peerType : PeerType) (requestId : CorrelationId) : Making HttpStartStop := do
  let method ← acceptMethod request
  let headers ← readHeaders request
  let timestamp ← readClock
  let event : HttpStartStop := {
    startTimestamp := timestamp
    stopTimestamp := timestamp
    requestId, peerType, method, statusCode, contentLength
    uri := request.uri
    remoteAddress := request.remoteAddress
    userAgent := headers.userAgent
    applicationId := headers.applicationId
    instanceIndex := headers.instanceIndex
    instanceId := headers.instanceId }
  note [.builtHttpStartStop requestId method statusCode event.uri]
  return event

/-- The event of a line of output; its bytes are kept as they are. -/
def logMessage (messageType : MessageType) (message : List UInt8) (appId sourceType : String) :
    Making LogMessage := do
  let timestamp ← readClock
  return { message, messageType, timestamp, appId, sourceType, sourceInstance := none }

/-- The settings that make an envelope of an event. -/
def settings (config : Config) (timestamp : Int64) (event : Event) : List Setting :=
  [.origin config.origin, .timestamp timestamp, .tags config.tags.toList, .event event] ++
    config.deployment.toList.map .deployment ++ config.job.toList.map .job ++
    config.index.toList.map .index ++ config.ip.toList.map .ip

/-- An event in an envelope with the metadata of the configuration. The clock is read first, so
that an envelope that cannot be made has its reading all the same. -/
def envelope (config : Config) (event : Event) : Making Envelope := do
  let timestamp ← readClock
  match (EnvelopeBuilder.empty.setAll (settings config timestamp event)).build with
  | .ok envelope => return envelope
  | .error error => throw (.event error)

end Making

end Telemetry
