import Telemetry.Json.Numeral

/-!
# The tokens of a JSON text

`Token.ofText` cuts a text into tokens. It is total: a text that JSON does not allow is cut up to
the first place where it cannot be read on, and the last token says what is wrong there.

Two readers share the tokens. One uses a value, the other only skips over it, and the second is
the less strict: a text it skips may hold bytes that are not UTF-8 and halves of surrogate pairs,
and a number it skips may lie beyond all doubles. So the value of a token is an `Except`, and a
token after which nothing can be read has a `Tear` that answers for either reader.
-/

namespace Telemetry

/-- A token of a JSON text. -/
inductive Token where
  | openArray
  | closeArray
  | openObject
  | closeObject
  | comma
  | colon
  | null
  | bool (b : Bool)
  | number (n : Except Fault Number)
  | text (s : Except Fault String)
  /-- A text of which the closing quote cannot be reached. -/
  | tornText (tear : Tear)
  /-- Anything else that cannot be read to its end. -/
  | torn (tear : Tear)

/-! ### Texts between quotes -/

namespace Token

/-- What a text consists of: bytes, and code units of UTF-16 that are given by number. -/
inductive Piece where
  | byte (b : UInt8)
  | unit (n : Nat)
  deriving DecidableEq

/-- How the reading of a text ended: at its closing quote, with the rest behind it, or at a
fault. -/
inductive Stop where
  | quote (rest : List UInt8)
  | fault (f : Fault)
  deriving DecidableEq

/-- The byte that a letter behind a backslash stands for. -/
def escape? (b : UInt8) : Option UInt8 :=
  if b = '"'.toUInt8 ∨ b = '\\'.toUInt8 ∨ b = '/'.toUInt8 then some b
  else if b = 'b'.toUInt8 then some 0x08
  else if b = 'f'.toUInt8 then some 0x0C
  else if b = 'n'.toUInt8 then some 0x0A
  else if b = 'r'.toUInt8 then some 0x0D
  else if b = 't'.toUInt8 then some 0x09
  else none

/-- The value of a byte as a hexadecimal digit. -/
def hexValue? (b : UInt8) : Option Nat :=
  Hex.value? (Char.ofNat b.toNat)

/-- Where the reading of a text stands. -/
inductive TextState where
  /-- Between characters. -/
  | plain
  /-- Behind a backslash. -/
  | escaped
  /-- Among the digits of a code unit: how many come after the next one, and the value so far. -/
  | digits (more value : Nat)
  deriving DecidableEq

/-- Reads a text up to its closing quote. The four digits of a code unit must all be there before
the first of them is looked at. -/
def textPieces : TextState → List UInt8 → List Piece × Stop
  | _, [] => ([], .fault .truncated)
  | .plain, b :: rest =>
    if b = '"'.toUInt8 then ([], .quote rest)
    else if b < 0x20 then ([], .fault .malformed)
    else if b = '\\'.toUInt8 then textPieces .escaped rest
    else
      -- the bytes of a character beyond ASCII are checked when the text is spelled
      let (pieces, stop) := textPieces .plain rest
      (.byte b :: pieces, stop)
  | .escaped, b :: rest =>
    if b = 'u'.toUInt8 then
      if rest[3]?.isSome then textPieces (.digits 3 0) rest else ([], .fault .truncated)
    else
      match escape? b with
      | none => ([], .fault .malformed)
      | some c =>
        let (pieces, stop) := textPieces .plain rest
        (.byte c :: pieces, stop)
  | .digits more value, b :: rest =>
    match hexValue? b, more with
    | none, _ => ([], .fault .malformed)
    | some d, more + 1 => textPieces (.digits more (value * 16 + d)) rest
    | some d, 0 =>
      let (pieces, stop) := textPieces .plain rest
      (.unit (value * 16 + d) :: pieces, stop)

/-- The code unit is the first half of a surrogate pair. -/
def isLeading (n : Nat) : Bool :=
  0xD800 ≤ n && n ≤ 0xDBFF

/-- The code unit is the second half of a surrogate pair. -/
def isTrailing (n : Nat) : Bool :=
  0xDC00 ≤ n && n ≤ 0xDFFF

/-- The code point of a surrogate pair. -/
def joined (leading trailing : Nat) : Nat :=
  0x10000 + (leading - 0xD800) * 0x400 + (trailing - 0xDC00)

/-- The bytes that pieces stand for, read on behind the first half of a surrogate pair or not. A
half without the other is malformed, unless the pieces end behind a first half: then `atEnd` is
what is wrong. -/
def assemble (atEnd : Fault) : Option Nat → List Piece → Except Fault (List UInt8)
  | none, [] => .ok []
  | some _, [] => .error atEnd
  | none, .byte b :: rest => (assemble atEnd none rest).map (b :: ·)
  | some _, .byte _ :: _ => .error .malformed
  | none, .unit n :: rest =>
    -- a second half must have its first half before it
    if isTrailing n then .error .malformed
    else if isLeading n then assemble atEnd (some n) rest
    else (assemble atEnd none rest).map (String.utf8EncodeChar (Char.ofNat n) ++ ·)
  | some leading, .unit n :: rest =>
    if isTrailing n then
      (assemble atEnd none rest).map
        (String.utf8EncodeChar (Char.ofNat (joined leading n)) ++ ·)
    else .error .malformed

/-- The text that pieces up to a closing quote spell. -/
def spelled (pieces : List Piece) : Except Fault String :=
  match assemble .malformed none pieces with
  | .error f => .error f
  | .ok bytes =>
    match Utf8.string? bytes with
    | some s => .ok s
    | none => .error .malformed

/-- What is wrong for a reader that uses a text whose pieces end at the fault `f`. -/
def tornFault (pieces : List Piece) (f : Fault) : Fault :=
  match assemble f none pieces with
  | .error g => g
  | .ok _ => f

/-- Cuts off a text, of which the opening quote has been read. -/
def cutText (bytes : List UInt8) : Token × List UInt8 :=
  match textPieces .plain bytes with
  | (pieces, .quote rest) => (.text (spelled pieces), rest)
  -- what was read of the text may hold an earlier fault, but only for a reader that uses it
  | (pieces, .fault f) => (.tornText ⟨tornFault pieces f, f⟩, [])

/-! ### Tokens -/

/-- The byte may stand between tokens. -/
def isSpace (b : UInt8) : Bool :=
  b = 0x20 || b = 0x09 || b = 0x0A || b = 0x0D

/-- Cuts off the rest of a word, which makes up the token `t`. -/
def cutWord (t : Token) : List UInt8 → List UInt8 → Token × List UInt8
  | [], bytes => (t, bytes)
  | _ :: _, [] => (.torn .truncated, [])
  | w :: word, b :: bytes => if w = b then cutWord t word bytes else (.torn .malformed, [])

/-- Cuts off a number, of which a minus sign has been read or not. -/
def cutNumber (negative : Bool) (bytes : List UInt8) : Token × List UInt8 :=
  match Numeral.scan negative bytes with
  | .ok (numeral, rest) => (.number numeral.value, rest)
  | .error tear => (.torn tear, [])

/-- Cuts off the token that begins with the byte `b`. -/
def cut (b : UInt8) (rest : List UInt8) : Token × List UInt8 :=
  if b = '['.toUInt8 then (.openArray, rest)
  else if b = ']'.toUInt8 then (.closeArray, rest)
  else if b = '\x7b'.toUInt8 then (.openObject, rest)
  else if b = '\x7d'.toUInt8 then (.closeObject, rest)
  else if b = ','.toUInt8 then (.comma, rest)
  else if b = ':'.toUInt8 then (.colon, rest)
  else if b = '"'.toUInt8 then cutText rest
  else if b = '-'.toUInt8 then cutNumber true rest
  else if Ascii.isDigit b then cutNumber false (b :: rest)
  else if b = 'n'.toUInt8 then cutWord .null (Ascii.bytes "ull") rest
  else if b = 't'.toUInt8 then cutWord (.bool true) (Ascii.bytes "rue") rest
  else if b = 'f'.toUInt8 then cutWord (.bool false) (Ascii.bytes "alse") rest
  else (.torn .malformed, [])

/-- Cuts off the first token, if there is one, and the white space before it. -/
def next? (bytes : List UInt8) : Option (Token × List UInt8) :=
  match bytes.dropWhile isSpace with
  | [] => none
  | b :: rest => some (cut b rest)

/-- The first tokens of a text, up to a number. -/
def upTo : Nat → List UInt8 → List Token
  | 0, _ => []
  | count + 1, bytes =>
    match next? bytes with
    | none => []
    | some (t, rest) => t :: upTo count rest

/-- **The tokens of a text**, of which there are no more than bytes. -/
def ofText (bytes : List UInt8) : List Token :=
  upTo bytes.length bytes

end Token

end Telemetry
