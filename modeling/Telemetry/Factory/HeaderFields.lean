import Telemetry.Factory.Log
import Telemetry.Http.Request

/-!
# Fields from headers

Four headers fill optional fields of an event, each by a rule of its own. A header that is missing
leaves its field empty; one whose value is malformed does so too, and is noted in the log.

Applying a rule touches its own field only and looks at its own header only. So the rules may be
applied in any order as far as the fields are concerned; the order of `HeaderRule.all` is that of
the notes.
-/

namespace Telemetry

/-- The optional fields of an event that come from headers. -/
structure HeaderFields where
  applicationId : Option CorrelationId := none
  instanceIndex : Option Int32 := none
  instanceId : Option String := none
  userAgent : Option String := none
  deriving DecidableEq

/-- The rules by which headers fill fields. -/
inductive HeaderRule where
  | applicationId | instanceIndex | instanceId | userAgent
  deriving DecidableEq

namespace HeaderRule

/-- The name of the header that the rule reads. -/
def header : HeaderRule → String
  | .applicationId => "X-CF-ApplicationID"
  | .instanceIndex => "X-CF-InstanceIndex"
  | .instanceId => "X-CF-InstanceID"
  | .userAgent => "User-Agent"

/-- Every rule, in the order in which they are applied. -/
def all : List HeaderRule :=
  [.applicationId, .instanceIndex, .instanceId, .userAgent]

theorem mem_all (rule : HeaderRule) : rule ∈ all := by cases rule <;> decide

/-- Reads the id of an application, in any of the forms of an id. -/
def readApplicationId (value : String) : Except HeaderFault CorrelationId :=
  match CorrelationId.parse value with
  | .ok id => .ok id
  | .error .empty => .error .emptyValue
  | .error error => .error (.id error)

/-- Reads the index of an instance: a number of 32 bits with nothing around it. -/
def readInstanceIndex (value : String) : Except HeaderFault Int32 :=
  (Decimal.Signed.read value.toList).mapError .number

/-- Reads the id of an instance: any text but the empty one. -/
def readInstanceId (value : String) : Except HeaderFault String :=
  if value.isEmpty then .error .emptyValue else .ok value

/-- Fills the field of the rule from the value of its header. -/
def fill (rule : HeaderRule) (value : String) (fields : HeaderFields) :
    Except HeaderFault HeaderFields :=
  match rule with
  | .applicationId =>
    (readApplicationId value).map fun id => { fields with applicationId := some id }
  | .instanceIndex =>
    (readInstanceIndex value).map fun index => { fields with instanceIndex := some index }
  | .instanceId =>
    (readInstanceId value).map fun id => { fields with instanceId := some id }
  | .userAgent => .ok { fields with userAgent := some value }

/-- Applies the rule to a request: the fields afterwards, and what is noted. -/
def apply (rule : HeaderRule) (request : RequestInfo) (fields : HeaderFields) :
    HeaderFields × List LogRecord :=
  match request.header rule.header with
  | none => (fields, [])
  | some value =>
    match rule.fill value fields with
    | .ok filled => (filled, [])
    | .error reason => (fields, [.malformedHeader rule.header value reason])

def applyAll (request : RequestInfo) :
    List HeaderRule → HeaderFields → HeaderFields × List LogRecord
  | [], fields => (fields, [])
  | rule :: rest, fields =>
    let (fields, notes) := rule.apply request fields
    let (fields, more) := applyAll request rest fields
    (fields, notes ++ more)

end HeaderRule

/-- **The fields of a request** that come from its headers, and what is noted about these. -/
def HeaderFields.extract (request : RequestInfo) : HeaderFields × List LogRecord :=
  HeaderRule.applyAll request HeaderRule.all {}

end Telemetry
