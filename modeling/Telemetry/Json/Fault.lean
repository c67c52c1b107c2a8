import Telemetry.Json.Basic
import Telemetry.Text.Printable

/-!
# What can be wrong with a JSON text

A text can end too early, be malformed, or be well formed and not say what was asked for. A fault
of the last kind is a `Misfit`, and says in words what stood there and what was wanted. Of the
other two no more is kept than the kind. No fault keeps the line and the column at which it was met.
-/

namespace Telemetry

/-- The integer types that a number can be read as. -/
inductive Width where
  | u8 | u64 | i32 | i64
  deriving DecidableEq

def Width.name : Width → String
  | .u8 => "u8"
  | .u64 => "u64"
  | .i32 => "i32"
  | .i64 => "i64"

def Width.least : Width → Int
  | .u8 | .u64 => 0
  | .i32 => -2147483648
  | .i64 => -9223372036854775808

def Width.greatest : Width → Int
  | .u8 => 255
  | .u64 => 18446744073709551615
  | .i32 => 2147483647
  | .i64 => 9223372036854775807

def Width.holds (w : Width) (n : Int) : Bool :=
  w.least ≤ n && n ≤ w.greatest

/-- What stood at a place of a text. -/
inductive Found where
  | null
  | bool (b : Bool)
  | number (n : Number)
  | text (s : String)
  | sequence
  | map
  deriving DecidableEq

def Found.describe : Found → String
  | .null => "null"
  | .bool true => "boolean `true`"
  | .bool false => "boolean `false`"
  | .number (.int n) => "integer `" ++ Decimal.text n ++ "`"
  | .number (.real x) => "floating point `" ++ String.ofList (Number.realText x) ++ "`"
  | .text s => "string " ++ Text.Quoted.quoted s
  | .sequence => "sequence"
  | .map => "map"

/-- What was wanted at a place of a text. -/
inductive Wanted where
  | integer (w : Width)
  | real
  | text
  | sequence
  | map
  /-- A record of the given name. -/
  | record (name : String)
  /-- A pair of a tag and what it announces, of the given name. -/
  | tagged (name : String)
  /-- The null behind the name of a variant. -/
  | unit
  /-- The name of a variant. -/
  | variant
  /-- A variant in either of its forms. -/
  | textOrMap
  deriving DecidableEq

def Wanted.describe : Wanted → String
  | .integer w => w.name
  | .real => "f64"
  | .text => "a string"
  | .sequence => "a sequence"
  | .map => "a map"
  | .record name => "struct " ++ name
  | .tagged name => "adjacently tagged enum " ++ name
  | .unit => "unit"
  | .variant => "variant identifier"
  | .textOrMap => "string or map"

/-- How a well-formed text fails to say what was asked for. -/
inductive Misfit where
  /-- A member that must be there is not. -/
  | missing (field : String)
  /-- A member is there twice. -/
  | duplicate (field : String)
  /-- A name is none of those known. -/
  | unknownVariant (name : String) (known : List String)
  /-- A value of another kind than the one wanted. -/
  | wrongKind (found : Found) (wanted : Wanted)
  /-- An integer that its type does not hold. -/
  | outOfRange (n : Int) (w : Width)
  /-- An object that should have one member and has none or several. -/
  | notOneMember
  /-- A record written as an array with too few elements. -/
  | shortRecord (found : Nat) (name : String) (size : Nat)
  /-- A tagged pair written as an array with too few elements. -/
  | shortPair (found : Nat) (name : String)
  /-- A record written as an array with too many elements. -/
  | longRecord (found size : Nat)
  deriving DecidableEq

namespace Misfit

/-- A name between backticks. -/
def ticked (name : String) : String :=
  "`" ++ name ++ "`"

/-- The names of which one was wanted. -/
def oneOf : List String → String
  | [a] => ticked a
  | [a, b] => ticked a ++ " or " ++ ticked b
  | names => "one of " ++ ", ".intercalate (names.map ticked)

/-- A number of elements of a sequence. -/
def elements : Nat → String
  | 1 => "1 element in sequence"
  | n => toString n ++ " elements in sequence"

def message : Misfit → String
  | .missing field => "missing field " ++ ticked field
  | .duplicate field => "duplicate field " ++ ticked field
  | .unknownVariant name known =>
    "unknown variant " ++ ticked name ++ ", expected " ++ oneOf known
  | .wrongKind found wanted =>
    "invalid type: " ++ found.describe ++ ", expected " ++ wanted.describe
  | .outOfRange n w =>
    "invalid value: integer " ++ ticked (Decimal.text n) ++ ", expected " ++ w.name
  | .notOneMember => "invalid value: map, expected map with a single key"
  | .shortRecord found name size =>
    "invalid length " ++ toString found ++ ", expected struct " ++ name ++ " with " ++
      toString size ++ " elements"
  | .shortPair found name =>
    "invalid length " ++ toString found ++ ", expected adjacently tagged enum " ++ name
  | .longRecord found size =>
    "invalid length " ++ toString found ++ ", expected " ++ elements size

end Misfit

/-- What is wrong with a text. -/
inductive Fault where
  /-- The text ends too early. -/
  | truncated
  /-- The text is not JSON, or has more than one value, or a number beyond all doubles. -/
  | malformed
  /-- The text does not say what was asked for. -/
  | misfit (m : Misfit)
  deriving DecidableEq

namespace Fault

/-- The kind of the fault, in one word. -/
def category : Fault → String
  | .truncated => "eof"
  | .malformed => "syntax"
  | .misfit _ => "data"

/-- The fault in words. A misfit is put in full, up to its position in the text, and `isMisfit`
tells when that is so. The other two are only named: these words are not those of a diagnosis that
says which character was met in place of which. -/
def message : Fault → String
  | .truncated => "unexpected end of text"
  | .malformed => "malformed text"
  | .misfit m => m.message

/-- The fault is a misfit, and `message` has its words. -/
def isMisfit : Fault → Bool
  | .misfit _ => true
  | _ => false

end Fault

end Telemetry
