import Telemetry.Json.Codec

/-!
# Records

A record is an object whose members have declared names. It is described by a list of `Field`s, a
name and a codec each, and its value is a `Row`: one value for each field.

A record is written as an object, its fields in the order of declaration, less those that are
omitted. It is read from an object whose members come in any order, with members of other names
skipped, or from an array with exactly one element for each field. What has been read of an object
so far is a row of `Slots`, each of them filled once at most: a second member of one name is
refused when its key is met. At the end of the object the first empty slot whose field must be
there is reported.
-/

namespace Telemetry

/-- A named part of a record. -/
structure Field where
  name : String
  Value : Type
  codec : Codec Value

/-- One value for each field. -/
@[reducible] def Row : List Field → Type
  | [] => Unit
  | f :: fs => f.Value × Row fs

/-- For each field a value, if it has been read. -/
@[reducible] def Slots : List Field → Type
  | [] => Unit
  | f :: fs => Option f.Value × Slots fs

namespace Record

/-- Nothing has been read. -/
def vacant : (fields : List Field) → Slots fields
  | [] => ()
  | _ :: fs => (none, vacant fs)

/-- Reads a member into the slot of its name; `none` if no field has this name. -/
def accept? (mode : Mode) (name : String) (item : Raw) :
    (fields : List Field) → Slots fields → Option (Except Fault (Slots fields))
  | [], _ => none
  | f :: fs, (slot, slots) =>
    if f.name = name then
      match slot with
      -- the second value is not looked at
      | some _ => some (.error (.misfit (.duplicate name)))
      | none => some ((f.codec.read mode item).map fun a => (some a, slots))
    else (accept? mode name item fs slots).map fun r => r.map fun more => (slot, more)

/-- The value of a slot at the end of the object. -/
def settle (f : Field) : Option f.Value → Except Fault f.Value
  | some a => .ok a
  | none =>
    match f.codec.absent with
    | some a => .ok a
    | none => .error (.misfit (.missing f.name))

/-- The row of the slots at the end of the object. -/
def finish : (fields : List Field) → Slots fields → Except Fault (Row fields)
  | [], () => .ok ()
  | f :: fs, (slot, slots) => do
    let a ← settle f slot
    let row ← finish fs slots
    return (a, row)

/-- Reads the members of an object into slots. -/
def readMembers (mode : Mode) (fields : List Field) :
    Slots fields → List Raw.Member → Except Fault (Slots fields)
  | slots, [] => .ok slots
  | slots, (key, item) :: rest => do
    let name ← key
    match accept? mode name item fields slots with
    | some read =>
      let slots ← read
      readMembers mode fields slots rest
    | none =>
      -- no field has this name
      item.skip
      readMembers mode fields slots rest

/-- What is wrong with an array that has fewer elements than the record `name` has fields, and
ends after `found` of them. -/
def short (name : String) (size found : Nat) : Ending → Fault
  | .closed => .misfit (.shortRecord found name size)
  | .broken tear | .dangling tear => tear.used

/-- What is wrong behind the last of the elements that a record wants. -/
def surplus (mode : Mode) (size : Nat) (rest : List Raw) (ending : Ending) : Except Fault Unit :=
  match mode, rest with
  | _, [] => ending.complete
  | .direct, _ :: _ => .error .malformed
  | .held, _ :: _ => .error (.misfit (.longRecord (size + rest.length) size))

/-- Reads the elements of an array as the fields from the one numbered `index` on. -/
def readElements (mode : Mode) (name : String) (size : Nat) (ending : Ending) :
    (fields : List Field) → (index : Nat) → List Raw → Except Fault (Row fields)
  | [], _, rest => surplus mode size rest ending
  | _ :: _, index, [] => .error (short name size index ending)
  | f :: fs, index, item :: rest => do
    let a ← f.codec.read mode item
    let row ← readElements mode name size ending fs (index + 1) rest
    return (a, row)

def read (name : String) (fields : List Field) (mode : Mode) : Raw → Except Fault (Row fields)
  | .object members ending => do
    let slots ← readMembers mode fields (vacant fields) members
    ending.used
    finish fields slots
  | .array items ending => readElements mode name fields.length ending fields 0 items
  | raw => .error (raw.mismatch (.record name))

/-- The members of a record. -/
def write : (fields : List Field) → Row fields → List (String × Json)
  | [], () => []
  | f :: fs, (a, row) =>
    if f.codec.omits a then write fs row else (f.name, f.codec.write a) :: write fs row

/-- Records with the given fields. -/
def codec (name : String) (fields : List Field) : Codec (Row fields) where
  read mode raw := read name fields mode raw
  write row := .object (write fields row)

end Record

end Telemetry
