import Telemetry.Id.Basic
import Telemetry.Text.Blank
import Telemetry.Text.Hex
import Telemetry.Text.Utf8

/-!
# The text of a correlation id

An id is written as a UUID: its thirty-two hexadecimal digits in groups of 8, 4, 4, 4 and 12 with
hyphens between. `hyphenated` puts the hyphens in and `plain?` takes them out again.

Four forms are read, each with digits of either case and after white space is trimmed: the bare
digits, the hyphenated form, the hyphenated form in braces, and the hyphenated form after
`urn:uuid:`. A form is recognised by the number of its bytes. A text that has none of them is
refused with a diagnosis (`UuidFault`): its length, its first strange character, its number of
groups, or the first group of the wrong length. A text of the length of a hyphenated form is
diagnosed by its inner part alone, since what surrounds it was in order.
-/

namespace Telemetry

/-- Why a text is not a UUID. -/
inductive UuidFault where
  /-- No form has this many bytes. -/
  | length (found : Nat)
  /-- A character that is neither a digit nor a hyphen, at a byte offset. -/
  | character (found : Char) (offset : Nat)
  /-- Not five groups. -/
  | groupCount (found : Nat)
  /-- A group, counted from zero, of the wrong length. -/
  | groupLength (group expected found : Nat)
  deriving DecidableEq

def UuidFault.message : UuidFault → String
  | .length found => "invalid length: found " ++ toString found
  | .character found offset =>
    "invalid character: found `" ++ found.toString ++ "` at " ++ toString offset
  | .groupCount found => "invalid group count: expected 5, found " ++ toString found
  | .groupLength group expected found =>
    "invalid group length in group " ++ toString group ++ ": expected " ++ toString expected ++
      ", found " ++ toString found

/-- Why no id could be made. -/
inductive IdError where
  /-- There is no text, or only white space. -/
  | empty
  /-- A byte string that is not sixteen bytes long. -/
  | length (actual : Nat)
  /-- A text that is not a UUID. -/
  | uuid (fault : UuidFault)
  deriving DecidableEq

namespace IdError

def message : IdError → String
  | .empty => "ID cannot be empty"
  | .length actual =>
    "invalid ID length: expected " ++ toString CorrelationId.size ++ " bytes, got " ++
      toString actual
  | .uuid fault => "invalid UUID: " ++ fault.message

def isEmpty : IdError → Bool
  | .empty => true
  | _ => false

end IdError

namespace Uuid

/-- The digits with hyphens after the 8th, 12th, 16th and 20th. -/
def hyphenated (digits : List Char) : List Char :=
  digits.take 8 ++ '-' :: ((digits.drop 8).take 4 ++ '-' :: ((digits.drop 12).take 4 ++
    '-' :: ((digits.drop 16).take 4 ++ '-' :: digits.drop 20)))

/-- The digits of a hyphenated text: thirty-six characters with hyphens at 8, 13, 18 and 23. -/
def plain? (text : List Char) : Option (List Char) :=
  if text.length = 36 ∧ [8, 13, 18, 23].all (fun i => text[i]? == some '-') then
    some (text.take 8 ++ (text.drop 9).take 4 ++ (text.drop 14).take 4 ++
      (text.drop 19).take 4 ++ text.drop 24)
  else none

/-- The sixteen bytes that thirty-two digits spell. -/
def ofDigits? (digits : List Char) : Option (Vector UInt8 CorrelationId.size) :=
  (Hex.bytes? digits).bind CorrelationId.exactly?

/-- The sixteen bytes of a hyphenated text. -/
def ofHyphenated? (text : List Char) : Option (Vector UInt8 CorrelationId.size) :=
  (plain? text).bind ofDigits?

/-- The opening of the name form. -/
def urn : List Char :=
  "urn:uuid:".toList

/-- What follows `urn:uuid:`, in any case. -/
def afterUrn? (text : List Char) : Option (List Char) :=
  if (text.take 9).map Char.toLower = urn then some (text.drop 9) else none

/-- What stands between braces. -/
def betweenBraces? (text : List Char) : Option (List Char) :=
  if text.head? = some '{' ∧ text.getLast? = some '}' ∧ 2 ≤ text.length then
    some (text.tail.dropLast)
  else none

/-! ### Diagnosis -/

/-- The offsets of the hyphens among digits, or the first other character with its offset. -/
def hyphens (offset : Nat) : List Char → Except (Char × Nat) (List Nat)
  | [] => .ok []
  | c :: rest =>
    if c = '-' then (hyphens (offset + 1) rest).map (offset :: ·)
    else if Hex.isDigit c then hyphens (offset + 1) rest
    else .error (c, offset)

/-- Where each of the first four groups begins in a hyphenated text, and how long it is. -/
def groups : List (Nat × Nat) :=
  [(0, 8), (9, 4), (14, 4), (19, 4)]

/-- The first of the groups, numbered on from `number`, whose hyphen is out of place. -/
def wrongGroup? (number : Nat) : List (Nat × Nat) → List Nat → Option UuidFault
  | (start, length) :: rest, hyphen :: more =>
    if hyphen = start + length then wrongGroup? (number + 1) rest more
    else some (.groupLength number length (hyphen - start))
  | _, _ => none

/-- Why a text of `total` bytes is not a UUID, of which `part` is to hold digits and hyphens
after `before` other bytes. Without a hyphen it is a text of the wrong length, unless its form
called for hyphens. -/
def diagnosePart (total before : Nat) (part : List Char) (needsHyphens : Bool) : UuidFault :=
  match hyphens 0 part with
  | .error (c, offset) => .character c (before + offset)
  | .ok found =>
    -- digits alone are a form of their own, of another length
    if found.isEmpty && !needsHyphens then .length total
    else if found.length ≠ 4 then .groupCount (found.length + 1)
    else (wrongGroup? 0 groups found).getD (.groupLength 4 12 (total - 24))

/-- Why a text that was read as a hyphenated form is none. -/
def diagnoseHyphenated (text : List Char) : UuidFault :=
  diagnosePart (Utf8.length text) 0 text true

/-- Why a text is no UUID at all. -/
def diagnose (text : List Char) : UuidFault :=
  let total := Utf8.length text
  if total = 0 ∨ 45 < total then .length total
  else
    match betweenBraces? text, afterUrn? text with
    | some part, _ => diagnosePart total 1 part true
    | none, some part => diagnosePart total 9 part true
    | none, none => diagnosePart total 0 text false

/-! ### Reading -/

/-- The value of a hyphenated text, or its diagnosis. -/
def readHyphenated (text : List Char) : Except UuidFault (Vector UInt8 CorrelationId.size) :=
  match ofHyphenated? text with
  | some bytes => .ok bytes
  | none => .error (diagnoseHyphenated text)

/-- **The bytes of a UUID text.** The number of its bytes says which form it must have. -/
def read (text : List Char) : Except UuidFault (Vector UInt8 CorrelationId.size) :=
  match Utf8.length text, betweenBraces? text, afterUrn? text with
  | 36, _, _ => readHyphenated text
  | 38, some part, _ => readHyphenated part
  | 45, _, some part => readHyphenated part
  -- the bare digits, or no form at all
  | _, _, _ =>
    match ofDigits? text with
    | some bytes => .ok bytes
    | none => .error (diagnose text)

end Uuid

namespace CorrelationId

/-- The id of a byte string, which must be sixteen bytes long. -/
def ofSlice (bytes : List UInt8) : Except IdError CorrelationId :=
  match exactly? bytes with
  | some bytes => .ok (ofBytes bytes)
  | none => .error (.length bytes.length)

def digits (id : CorrelationId) : List Char :=
  Hex.ofBytes id.byteList

/-- The hyphenated text of the id, in lower case. -/
def text (id : CorrelationId) : String :=
  String.ofList (Uuid.hyphenated id.digits)

instance : ToString CorrelationId := ⟨text⟩

/-- The id that a text names, white space at its ends aside. -/
def parse (text : String) : Except IdError CorrelationId :=
  let cs := Text.trim text.toList
  if cs.isEmpty then .error .empty
  else
    match Uuid.read cs with
    | .ok bytes => .ok (ofBytes bytes)
    | .error fault => .error (.uuid fault)

/-- An id where a value is read from its text, as `parse` reads it. -/
def ofString (text : String) : Except IdError CorrelationId :=
  parse text

end CorrelationId

end Telemetry
