import Telemetry.Json.Raw

/-!
# Codecs

A `Codec` pairs the JSON value that is written for a thing with the way to read it back. Whether a
value may be left out of the record that it belongs to is part of its codec: `absent` is what a
reader takes in place of a member that is not there, and `omits` says which values a writer leaves
out.

A value is read in one of two modes. `direct` follows the text from left to right and meets its
faults on the way. `held` reads a value that was put aside before: the text has been checked, and
the forms of a variant are told apart a little differently. On the text that a codec writes the
two agree.
-/

namespace Telemetry

/-- Whether a value is read straight from the text, or was put aside before. -/
inductive Mode where
  | direct
  | held
  deriving DecidableEq

/-- A way to write things as JSON and to read them back. -/
structure Codec (α : Type) where
  /-- Reads a thing from a value of a text. -/
  read : Mode → Raw → Except Fault α
  /-- The JSON value of a thing. -/
  write : α → Json
  /-- What a reader takes for a member that is missing, unless it must be there. -/
  absent : Option α := none
  /-- The things that a writer leaves out of a record. -/
  omits : α → Bool := fun _ => false

namespace Codec

/-- **Reads a text**, which must hold one value and nothing behind it. -/
def ofText (c : Codec α) (text : List UInt8) : Except Fault α := do
  let (raw, rest) := Raw.ofTokens (Token.ofText text)
  let a ← c.read .direct raw
  -- only then is what follows the value looked at
  if rest.isEmpty then return a else throw .malformed

/-- **The text of a thing.** -/
def toText (c : Codec α) (a : α) : List UInt8 :=
  (c.write a).render

/-- The codec of a type that has the same things under another description. -/
def map (c : Codec α) (forth : α → β) (back : β → α) : Codec β where
  read mode raw := (c.read mode raw).map forth
  write b := c.write (back b)
  absent := c.absent.map forth
  omits b := c.omits (back b)

/-! ### Numbers -/

/-- Reads an integer that the type `w` holds. -/
def readInteger (w : Width) : Raw → Except Fault Int
  | .number (.ok (.int n)) =>
    if w.holds n then .ok n else .error (.misfit (.outOfRange n w))
  | raw => .error (raw.mismatch (.integer w))

/-- Integers of the type `w`. -/
def integer (w : Width) (ofInt : Int → α) (toInt : α → Int) : Codec α where
  read _ raw := (readInteger w raw).map ofInt
  write a := .number (.int (toInt a))

def byte : Codec UInt8 :=
  integer .u8 UInt8.ofInt fun b => b.toNat

def unsigned64 : Codec UInt64 :=
  integer .u64 UInt64.ofInt fun n => n.toNat

def signed32 : Codec Int32 :=
  integer .i32 Int32.ofInt Int32.toInt

def signed64 : Codec Int64 :=
  integer .i64 Int64.ofInt Int64.toInt

/-- Reads a double; an integer is taken for the double next to it. -/
def readReal : Raw → Except Fault Float
  | .number (.ok (.int n)) => .ok (Float.ofInt n)
  | .number (.ok (.real x)) => .ok x
  | raw => .error (raw.mismatch .real)

def real : Codec Float where
  read _ raw := readReal raw
  write x := .number (.real x)

/-! ### Texts, sequences, options -/

def readText : Raw → Except Fault String
  | .text (.ok s) => .ok s
  | raw => .error (raw.mismatch .text)

def text : Codec String where
  read _ raw := readText raw
  write s := .text s

/-- Reads the items of a sequence one by one. -/
def readItems (c : Codec α) (mode : Mode) : List Raw → Except Fault (List α)
  | [] => .ok []
  | item :: rest => do
    let a ← c.read mode item
    let more ← readItems c mode rest
    return a :: more

/-- Sequences of things of one kind. -/
def sequence (c : Codec α) : Codec (List α) where
  read mode
    | .array items ending => do
      let as ← readItems c mode items
      ending.used
      return as
    | raw => .error (raw.mismatch .sequence)
  write as := .array (as.map c.write)

/-- A thing or nothing. Nothing is left out when a record is written; when it is read, a member
that is missing and one that is null both mean nothing. -/
def optional (c : Codec α) : Codec (Option α) where
  read mode
    | .null => .ok none
    | raw => (c.read mode raw).map some
  write
    | none => .null
    | some a => c.write a
  absent := some none
  omits := Option.isNone

/-! ### Variants -/

/-- The thing of a name, among things that are known by name. -/
def ofName (known : List α) (name : α → String) (s : String) : Except Fault α :=
  match known.find? fun a => name a == s with
  | some a => .ok a
  | none => .error (.misfit (.unknownVariant s (known.map name)))

/-- Reads the null that may stand behind the name of a variant. -/
def readUnit : Mode → Raw → Except Fault Unit
  | _, .null => .ok ()
  -- once put aside, an object without members says as little as null
  | .held, .object [] _ => .ok ()
  | _, raw => .error (raw.mismatch .unit)

/-- Reads the name of a variant, and nothing but a name. -/
def readName (known : List α) (name : α → String) : Raw → Except Fault α
  | .text (.ok s) => ofName known name s
  | raw => .error (raw.mismatch .variant)

/-- Reads a variant from the text: its name, or an object with its name for the only key and null
behind it. -/
def readVariantDirect (known : List α) (name : α → String) : Raw → Except Fault α
  | .text s => do ofName known name (← s)
  | .object [] ending => do
    ending.used
    throw .malformed
  | .object ((key, item) :: rest) ending => do
    let a ← ofName known name (← key)
    readUnit .direct item
    -- a second member is refused at its comma
    if rest.isEmpty then
      ending.complete
      return a
    else throw .malformed
  | .torn (.other _) => .error .malformed
  | .torn place => .error place.tear.used
  | _ => .error .malformed

/-- Reads a variant that was put aside. -/
def readVariantHeld (known : List α) (name : α → String) : Raw → Except Fault α
  | .text (.ok s) => ofName known name s
  | .object [(key, item)] _ => do
    let a ← ofName known name (← key)
    readUnit .held item
    return a
  | .object _ _ => .error (.misfit .notOneMember)
  | raw => .error (raw.mismatch .textOrMap)

/-- Things that are written as their names. -/
def variant (known : List α) (name : α → String) : Codec α where
  read
    | .direct, raw => readVariantDirect known name raw
    | .held, raw => readVariantHeld known name raw
  write a := .text (name a)

end Codec

end Telemetry
