import Telemetry.Event.Vocabulary
import Telemetry.Id.Basic

/-!
# The payloads of events

Each kind of event has a structure of its own and a list of fields that describes its JSON record;
`toRow` and `ofRow` pass between the two. A timestamp counts nanoseconds since the beginning of
1970. A field of an `Option` type is left out of the record when there is nothing to say.
-/

namespace Telemetry

/-- An HTTP request has begun. -/
structure HttpStart where
  timestamp : Int64
  requestId : CorrelationId
  peerType : PeerType
  method : Method
  /-- Host and path, without scheme, credentials and query. -/
  uri : String
  remoteAddress : String
  userAgent : Option String
  applicationId : Option CorrelationId
  instanceIndex : Option Int32
  instanceId : Option String
  deriving DecidableEq

namespace HttpStart

abbrev fields : List Field :=
  [⟨"timestamp", Int64, .signed64⟩,
   ⟨"request_id", CorrelationId, CorrelationId.codec⟩,
   ⟨"peer_type", PeerType, PeerType.codec⟩,
   ⟨"method", Method, Method.codec⟩,
   ⟨"uri", String, .text⟩,
   ⟨"remote_address", String, .text⟩,
   ⟨"user_agent", Option String, .optional .text⟩,
   ⟨"application_id", Option CorrelationId, .optional CorrelationId.codec⟩,
   ⟨"instance_index", Option Int32, .optional .signed32⟩,
   ⟨"instance_id", Option String, .optional .text⟩]

def toRow (e : HttpStart) : Row fields :=
  (e.timestamp, e.requestId, e.peerType, e.method, e.uri, e.remoteAddress, e.userAgent,
    e.applicationId, e.instanceIndex, e.instanceId, ())

def ofRow : Row fields → HttpStart
  | (timestamp, requestId, peerType, method, uri, remoteAddress, userAgent, applicationId,
      instanceIndex, instanceId, ()) =>
    ⟨timestamp, requestId, peerType, method, uri, remoteAddress, userAgent, applicationId,
      instanceIndex, instanceId⟩

@[simp] theorem ofRow_toRow (e : HttpStart) : ofRow e.toRow = e := rfl

def codec : Codec HttpStart :=
  (Record.codec "HttpStart" fields).map ofRow toRow

end HttpStart

/-- An HTTP response is complete. -/
structure HttpStop where
  timestamp : Int64
  uri : String
  requestId : CorrelationId
  peerType : PeerType
  statusCode : Int32
  contentLength : Int64
  applicationId : Option CorrelationId
  deriving DecidableEq

namespace HttpStop

abbrev fields : List Field :=
  [⟨"timestamp", Int64, .signed64⟩,
   ⟨"uri", String, .text⟩,
   ⟨"request_id", CorrelationId, CorrelationId.codec⟩,
   ⟨"peer_type", PeerType, PeerType.codec⟩,
   ⟨"status_code", Int32, .signed32⟩,
   ⟨"content_length", Int64, .signed64⟩,
   ⟨"application_id", Option CorrelationId, .optional CorrelationId.codec⟩]

def toRow (e : HttpStop) : Row fields :=
  (e.timestamp, e.uri, e.requestId, e.peerType, e.statusCode, e.contentLength,
    e.applicationId, ())

def ofRow : Row fields → HttpStop
  | (timestamp, uri, requestId, peerType, statusCode, contentLength, applicationId, ()) =>
    ⟨timestamp, uri, requestId, peerType, statusCode, contentLength, applicationId⟩

@[simp] theorem ofRow_toRow (e : HttpStop) : ofRow e.toRow = e := rfl

def codec : Codec HttpStop :=
  (Record.codec "HttpStop" fields).map ofRow toRow

end HttpStop

/-- A whole exchange of an HTTP request and its response. -/
structure HttpStartStop where
  startTimestamp : Int64
  stopTimestamp : Int64
  requestId : CorrelationId
  peerType : PeerType
  method : Method
  uri : String
  remoteAddress : String
  userAgent : Option String
  statusCode : Int32
  contentLength : Int64
  applicationId : Option CorrelationId
  instanceIndex : Option Int32
  instanceId : Option String
  deriving DecidableEq

namespace HttpStartStop

abbrev fields : List Field :=
  [⟨"start_timestamp", Int64, .signed64⟩,
   ⟨"stop_timestamp", Int64, .signed64⟩,
   ⟨"request_id", CorrelationId, CorrelationId.codec⟩,
   ⟨"peer_type", PeerType, PeerType.codec⟩,
   ⟨"method", Method, Method.codec⟩,
   ⟨"uri", String, .text⟩,
   ⟨"remote_address", String, .text⟩,
   ⟨"user_agent", Option String, .optional .text⟩,
   ⟨"status_code", Int32, .signed32⟩,
   ⟨"content_length", Int64, .signed64⟩,
   ⟨"application_id", Option CorrelationId, .optional CorrelationId.codec⟩,
   ⟨"instance_index", Option Int32, .optional .signed32⟩,
   ⟨"instance_id", Option String, .optional .text⟩]

def toRow (e : HttpStartStop) : Row fields :=
  (e.startTimestamp, e.stopTimestamp, e.requestId, e.peerType, e.method, e.uri, e.remoteAddress,
    e.userAgent, e.statusCode, e.contentLength, e.applicationId, e.instanceIndex,
    e.instanceId, ())

def ofRow : Row fields → HttpStartStop
  | (startTimestamp, stopTimestamp, requestId, peerType, method, uri, remoteAddress, userAgent,
      statusCode, contentLength, applicationId, instanceIndex, instanceId, ()) =>
    ⟨startTimestamp, stopTimestamp, requestId, peerType, method, uri, remoteAddress, userAgent,
      statusCode, contentLength, applicationId, instanceIndex, instanceId⟩

@[simp] theorem ofRow_toRow (e : HttpStartStop) : ofRow e.toRow = e := rfl

def codec : Codec HttpStartStop :=
  (Record.codec "HttpStartStop" fields).map ofRow toRow

end HttpStartStop

/-- A line of an application's output. -/
structure LogMessage where
  /-- The bytes of the line, as they came. -/
  message : List UInt8
  messageType : MessageType
  timestamp : Int64
  appId : String
  sourceType : String
  sourceInstance : Option String
  deriving DecidableEq

namespace LogMessage

abbrev fields : List Field :=
  [⟨"message", List UInt8, .sequence .byte⟩,
   ⟨"message_type", MessageType, MessageType.codec⟩,
   ⟨"timestamp", Int64, .signed64⟩,
   ⟨"app_id", String, .text⟩,
   ⟨"source_type", String, .text⟩,
   ⟨"source_instance", Option String, .optional .text⟩]

def toRow (e : LogMessage) : Row fields :=
  (e.message, e.messageType, e.timestamp, e.appId, e.sourceType, e.sourceInstance, ())

def ofRow : Row fields → LogMessage
  | (message, messageType, timestamp, appId, sourceType, sourceInstance, ()) =>
    ⟨message, messageType, timestamp, appId, sourceType, sourceInstance⟩

@[simp] theorem ofRow_toRow (e : LogMessage) : ofRow e.toRow = e := rfl

def codec : Codec LogMessage :=
  (Record.codec "LogMessage" fields).map ofRow toRow

end LogMessage

/-- What an instance of an application uses at one moment. -/
structure ContainerMetric where
  applicationId : String
  instanceIndex : Int32
  cpuPercentage : Float
  memoryBytes : UInt64
  diskBytes : UInt64
  deriving DecidableEq

namespace ContainerMetric

abbrev fields : List Field :=
  [⟨"application_id", String, .text⟩,
   ⟨"instance_index", Int32, .signed32⟩,
   ⟨"cpu_percentage", Float, .real⟩,
   ⟨"memory_bytes", UInt64, .unsigned64⟩,
   ⟨"disk_bytes", UInt64, .unsigned64⟩]

def toRow (e : ContainerMetric) : Row fields :=
  (e.applicationId, e.instanceIndex, e.cpuPercentage, e.memoryBytes, e.diskBytes, ())

def ofRow : Row fields → ContainerMetric
  | (applicationId, instanceIndex, cpuPercentage, memoryBytes, diskBytes, ()) =>
    ⟨applicationId, instanceIndex, cpuPercentage, memoryBytes, diskBytes⟩

@[simp] theorem ofRow_toRow (e : ContainerMetric) : ofRow e.toRow = e := rfl

def codec : Codec ContainerMetric :=
  (Record.codec "ContainerMetric" fields).map ofRow toRow

end ContainerMetric

end Telemetry
