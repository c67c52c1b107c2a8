import Telemetry.Decimal.Signed
import Telemetry.Event.Vocabulary
import Telemetry.Id.Text

/-!
# Log records

Making an event leaves a trace: a record of each header that was passed over because its value was
malformed, a record of a method that is not known, and a record of the event that was made. A
record has a level, a message that is the same for all records of its kind, and named fields.
-/

namespace Telemetry

/-- Why the value of a header was passed over. -/
inductive HeaderFault where
  | emptyValue
  | id (error : IdError)
  | number (fault : Decimal.Signed.Fault)
  deriving DecidableEq

def HeaderFault.message : HeaderFault → String
  | .emptyValue => "empty value"
  | .id error => error.message
  | .number fault => fault.message

/-- How much a record matters. -/
inductive LogLevel where
  | debug | trace
  deriving DecidableEq

def LogLevel.name : LogLevel → String
  | .debug => "DEBUG"
  | .trace => "TRACE"

/-- What was noted while an event was made. -/
inductive LogRecord where
  /-- A header did not fill its field. -/
  | malformedHeader (header value : String) (reason : HeaderFault)
  /-- No event was made, since the method is not known. -/
  | unknownMethod (method : String)
  | builtHttpStart (requestId : CorrelationId) (method : Method) (uri : String)
  | builtHttpStop (requestId : CorrelationId) (statusCode : Int32) (uri : String)
  | builtHttpStartStop (requestId : CorrelationId) (method : Method) (statusCode : Int32)
      (uri : String)
  deriving DecidableEq

namespace LogRecord

def level : LogRecord → LogLevel
  | .malformedHeader .. | .unknownMethod .. => .debug
  | .builtHttpStart .. | .builtHttpStop .. | .builtHttpStartStop .. => .trace

def message : LogRecord → String
  | .malformedHeader .. => "ignoring malformed header"
  | .unknownMethod .. => "rejecting unknown HTTP method"
  | .builtHttpStart .. => "built http start event"
  | .builtHttpStop .. => "built http stop event"
  | .builtHttpStartStop .. => "built http start/stop event"

/-- The fields of the record, each as text. -/
def fields : LogRecord → List (String × String)
  | .malformedHeader header value reason =>
    [("header", header), ("value", value), ("reason", reason.message)]
  | .unknownMethod method => [("method", method)]
  | .builtHttpStart requestId method uri =>
    [("request_id", requestId.text), ("method", method.token), ("uri", uri)]
  | .builtHttpStop requestId statusCode uri =>
    [("request_id", requestId.text), ("status_code", Decimal.text statusCode.toInt), ("uri", uri)]
  | .builtHttpStartStop requestId method statusCode uri =>
    [("request_id", requestId.text), ("method", method.token),
     ("status_code", Decimal.text statusCode.toInt), ("uri", uri)]

end LogRecord

end Telemetry
