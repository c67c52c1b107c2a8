import Telemetry.Json.Token

/-!
# A value as it stands in a text

`Raw.ofTokens` gathers tokens into a tree. Like the cutting of the text into tokens it is total: a
tree holds all that could be read, and at the place where reading broke off it says why. What a
reader makes of a text can then be said by recursion on the tree, from left to right: it stops at
the first fault that it meets, be it one of the text or one of what the text says.

Two walks look for faults of the text alone. `skip` passes over a value that nobody asked for;
`buffer` passes over one that is put aside to be read later, which is as strict as reading it and
also bounds how deep it may be nested.
-/

namespace Telemetry

/-- A place where a value was due and none could be read. -/
inductive Torn where
  /-- The text ends there. -/
  | ended
  /-- A text begins there of which the closing quote cannot be reached. -/
  | text (tear : Tear)
  /-- Something else stands there. -/
  | other (tear : Tear)
  deriving DecidableEq

/-- What is wrong at the place. -/
def Torn.tear : Torn → Tear
  | .ended => .truncated
  | .text tear => tear
  | .other tear => tear

/-- How an array or an object ends. -/
inductive Ending where
  /-- By its bracket. -/
  | closed
  /-- By a fault where a comma or the bracket was due, or the first key. -/
  | broken (tear : Tear)
  /-- By a fault behind a comma. -/
  | dangling (tear : Tear)
  deriving DecidableEq

namespace Ending

/-- What a reader that uses the array or object meets at its end. -/
def used : Ending → Except Fault Unit
  | .closed => .ok ()
  | .broken tear | .dangling tear => .error tear.used

/-- What a reader that skips the array or object meets at its end. -/
def skipped : Ending → Except Fault Unit
  | .closed => .ok ()
  | .broken tear | .dangling tear => .error tear.skipped

/-- What a reader meets that wants no further item and expects the bracket: a comma is malformed,
whatever comes behind it. -/
def complete : Ending → Except Fault Unit
  | .closed => .ok ()
  | .broken tear => .error tear.used
  | .dangling _ => .error .malformed

@[simp] theorem used_closed : used .closed = .ok () := rfl

@[simp] theorem skipped_closed : skipped .closed = .ok () := rfl

@[simp] theorem complete_closed : complete .closed = .ok () := rfl

end Ending

/-- A value as it stands in a text. -/
inductive Raw where
  | null
  | bool (b : Bool)
  | number (n : Except Fault Number)
  | text (s : Except Fault String)
  | array (items : List Raw) (ending : Ending)
  | object (members : List (Except Fault String × Raw)) (ending : Ending)
  | torn (place : Torn)

/-- A member of an object as it stands in a text. -/
abbrev Raw.Member := Except Fault String × Raw

namespace Raw

/-- A value that is malformed. -/
def malformed : Raw := .torn (.other .malformed)

/-! ### From tokens to the tree -/

mutual

/-- Reads a value; `fuel` bounds the number of calls. -/
def value : (fuel : Nat) → List Token → Raw × List Token
  -- not reached from `ofTokens`
  | 0, tokens => (malformed, tokens)
  | _ + 1, [] => (.torn .ended, [])
  | fuel + 1, token :: rest =>
    match token with
    | .null => (.null, rest)
    | .bool b => (.bool b, rest)
    | .number n => (.number n, rest)
    | .text s => (.text s, rest)
    | .tornText tear => (.torn (.text tear), rest)
    | .torn tear => (.torn (.other tear), rest)
    | .openArray =>
      match rest with
      | [] => (.array [] (.broken .truncated), [])
      | .closeArray :: rest => (.array [] .closed, rest)
      | _ =>
        let (items, ending, rest) := items fuel rest
        (.array items ending, rest)
    | .openObject =>
      match rest with
      | [] => (.object [] (.broken .truncated), [])
      | .closeObject :: rest => (.object [] .closed, rest)
      | .tornText tear :: rest => (.object [] (.broken tear), rest)
      | .text key :: rest =>
        let (members, ending, rest) := members fuel key rest
        (.object members ending, rest)
      -- a key is a text and nothing else, so what stands in its place is not read
      | _ => (.object [] (.broken .malformed), rest)
    | .closeArray | .closeObject | .comma | .colon => (malformed, rest)

/-- Reads the items of an array, of which one is due. -/
def items : (fuel : Nat) → List Token → List Raw × Ending × List Token
  | 0, tokens => ([], .broken .malformed, tokens)
  | fuel + 1, tokens =>
    let (item, rest) := value fuel tokens
    match rest with
    | [] => ([item], .broken .truncated, [])
    | .closeArray :: rest => ([item], .closed, rest)
    | .comma :: [] => ([item], .dangling .truncated, [])
    -- a comma announces a further item, so the bracket behind it is a fault of its own
    | .comma :: .closeArray :: rest => ([item], .dangling .malformed, rest)
    | .comma :: rest =>
      let (more, ending, rest) := items fuel rest
      (item :: more, ending, rest)
    | _ :: rest => ([item], .broken .malformed, rest)

/-- Reads the members of an object, of which the first key has been read. -/
def members : (fuel : Nat) → Except Fault String → List Token →
    List Member × Ending × List Token
  | 0, _, tokens => ([], .broken .malformed, tokens)
  | _ + 1, key, [] => ([(key, .torn .ended)], .broken .truncated, [])
  | fuel + 1, key, .colon :: rest =>
    let (item, rest) := value fuel rest
    match rest with
    | [] => ([(key, item)], .broken .truncated, [])
    | .closeObject :: rest => ([(key, item)], .closed, rest)
    | .comma :: [] => ([(key, item)], .dangling .truncated, [])
    | .comma :: .tornText tear :: rest => ([(key, item)], .dangling tear, rest)
    | .comma :: .text next :: rest =>
      let (more, ending, rest) := members fuel next rest
      ((key, item) :: more, ending, rest)
    | .comma :: rest => ([(key, item)], .dangling .malformed, rest)
    | _ :: rest => ([(key, item)], .broken .malformed, rest)
  | _ + 1, key, _ :: rest => ([(key, malformed)], .broken .malformed, rest)

end

/-- **The first value of a text and the tokens behind it.** Two calls are made for a token at
most. -/
def ofTokens (tokens : List Token) : Raw × List Token :=
  value (2 * tokens.length + 2) tokens

/-! ### Faults of the text alone -/

mutual

/-- Passes over a value that nobody asked for. -/
def skip : Raw → Except Fault Unit
  | .null | .bool _ | .number _ | .text _ => .ok ()
  | .array items ending => do
    skipItems items
    ending.skipped
  | .object members ending => do
    skipMembers members
    ending.skipped
  | .torn place => .error place.tear.skipped

/-- Passes over items of an array. -/
def skipItems : List Raw → Except Fault Unit
  | [] => .ok ()
  | item :: rest => do
    skip item
    skipItems rest

/-- Passes over members of an object. -/
def skipMembers : List (Except Fault String × Raw) → Except Fault Unit
  | [] => .ok ()
  | (_, item) :: rest => do
    skip item
    skipMembers rest

end

mutual

/-- Passes over a value that is put aside, in which arrays and objects may be nested up to `room`
deep. -/
def buffer : (room : Nat) → Raw → Except Fault Unit
  | _, .null | _, .bool _ => .ok ()
  -- unlike a skipped value, one put aside must have a meaning
  | _, .number n => n.map fun _ => ()
  | _, .text s => s.map fun _ => ()
  | room, .array items ending =>
    if room = 0 then .error .malformed
    else do
      bufferItems (room - 1) items
      ending.used
  | room, .object members ending =>
    if room = 0 then .error .malformed
    else do
      bufferMembers (room - 1) members
      ending.used
  | _, .torn place => .error place.tear.used

/-- Passes over items that are put aside. -/
def bufferItems : (room : Nat) → List Raw → Except Fault Unit
  | _, [] => .ok ()
  | room, item :: rest => do
    buffer room item
    bufferItems room rest

/-- Passes over members that are put aside. -/
def bufferMembers : (room : Nat) → List (Except Fault String × Raw) → Except Fault Unit
  | _, [] => .ok ()
  | room, (key, item) :: rest => do
    let _ ← key
    buffer room item
    bufferMembers room rest

end

/-- How deep the members of the outermost object of a text may be nested. -/
def roomInside : Nat := 126

/-- The refusal of a value of the wrong kind. A word, number or text is read to its end first. -/
def mismatch (wanted : Wanted) : Raw → Fault
  | .null => .misfit (.wrongKind .null wanted)
  | .bool b => .misfit (.wrongKind (.bool b) wanted)
  | .number (.ok n) => .misfit (.wrongKind (.number n) wanted)
  | .number (.error f) => f
  | .text (.ok s) => .misfit (.wrongKind (.text s) wanted)
  | .text (.error f) => f
  | .array _ _ => .misfit (.wrongKind .sequence wanted)
  | .object _ _ => .misfit (.wrongKind .map wanted)
  | .torn place => place.tear.used

/-! ### The tree of a value -/

/-- A number as it stands in its own text, where a double that is not finite is null. -/
def ofNumber : Number → Raw
  | .int n => .number (.ok (.int n))
  | .real x => if (Decimal.binary? x).isSome then .number (.ok (.real x)) else .null

mutual

/-- The value as it stands in its own text. -/
def ofJson : Json → Raw
  | .null => .null
  | .bool b => .bool b
  | .number n => ofNumber n
  | .text s => .text (.ok s)
  | .array items => .array (ofItems items) .closed
  | .object members => .object (ofMembers members) .closed

/-- The items of an array as they stand in a text. -/
def ofItems : List Json → List Raw
  | [] => []
  | item :: rest => ofJson item :: ofItems rest

/-- The members of an object as they stand in a text. -/
def ofMembers : List (String × Json) → List (Except Fault String × Raw)
  | [] => []
  | (key, item) :: rest => (.ok key, ofJson item) :: ofMembers rest

end

end Raw

end Telemetry
