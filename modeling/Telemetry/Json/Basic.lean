import Telemetry.Decimal.Shortest
import Telemetry.Text.Ascii
import Telemetry.Text.Hex
import Telemetry.Text.Utf8

/-!
# JSON values and their texts

`Json` is the tree that is written. An object is a list of members, in the order in which they
are written; numbers are integers, kept exactly, or doubles.

`Json.render` writes a value without white space, as UTF-8.

* In a text, the quote, the backslash and the controls below U+0020 are escaped (by a letter where
  JSON has one, else by number), and every other character stands for itself.
* A double is written with the fewest digits that read back. From 10^(-5) up to 10^16 it is
  written in full, always with a point; outside that range with an exponent that bears its sign,
  as in `1e+16` and `1.5e-7`. Zero is `0.0` or `-0.0`. What is not finite is written as `null`,
  for JSON has no number for it.
-/

namespace Telemetry

/-- A JSON number: an integer of any size, or a double. -/
inductive Number where
  | int (n : Int)
  | real (x : Float)
  deriving DecidableEq

/-- A JSON value. -/
inductive Json where
  | null
  | bool (b : Bool)
  | number (n : Number)
  | text (s : String)
  | array (items : List Json)
  | object (members : List (String × Json))

/-! ### Numbers -/

namespace Number

/-- Digits with a point after the first `whole` of them, filled up with zeros on either side. -/
def positional (digits : List Char) (whole : Int) : List Char :=
  if whole ≤ 0 then '0' :: '.' :: (List.replicate (-whole).toNat '0' ++ digits)
  else
    let before := digits.take whole.toNat
    let after := digits.drop whole.toNat
    before ++ List.replicate (whole.toNat - before.length) '0' ++
      '.' :: (if after.isEmpty then ['0'] else after)

/-- Digits with a point after the first, unless it is the only one, and an exponent of ten. -/
def exponential (digits : List Char) (exponent : Int) : List Char :=
  digits.take 1 ++ (if digits.length ≤ 1 then [] else '.' :: digits.drop 1) ++
    'e' :: (if 0 ≤ exponent then ['+'] else []) ++ Decimal.ofInt exponent

/-- The least exponent of ten that is written in full. -/
def leastPositional : Int := -5

/-- The greatest exponent of ten that is written in full. -/
def greatestPositional : Int := 15

/-- A positive decimal number. -/
def magnitudeText (s : Decimal.Scientific) : List Char :=
  let digits := Decimal.digits s.digits
  let exponent := s.exponent + digits.length - 1
  if leastPositional ≤ exponent ∧ exponent ≤ greatestPositional then
    positional digits (exponent + 1)
  else exponential digits exponent

def realText (x : Float) : List Char :=
  match Decimal.binary? x with
  | none => "null".toList
  | some b =>
    let magnitude :=
      if b.significand = 0 then ['0', '.', '0'] else magnitudeText (Decimal.shortest b)
    if Decimal.isNegative x then '-' :: magnitude else magnitude

example : realText (-0.0) = "-0.0".toList := by decide +kernel
example : realText 0.1 = "0.1".toList := by decide +kernel
example : realText 5e-324 = "5e-324".toList := by decide +kernel
example : magnitudeText ⟨1, -5⟩ = "0.00001".toList := by decide
example : magnitudeText ⟨15, -7⟩ = "1.5e-6".toList := by decide
example : magnitudeText ⟨1, 15⟩ = "1000000000000000.0".toList := by decide
example : magnitudeText ⟨1, 16⟩ = "1e+16".toList := by decide

def text : Number → List Char
  | .int n => Decimal.ofInt n
  | .real x => realText x

end Number

/-! ### Texts and values -/

namespace Json

/-- How a byte of a text is written between the quotes. -/
def escaped (b : UInt8) : List UInt8 :=
  if b = '"'.toUInt8 ∨ b = '\\'.toUInt8 then ['\\'.toUInt8, b]
  else if b = 0x08 then ['\\'.toUInt8, 'b'.toUInt8]
  else if b = 0x09 then ['\\'.toUInt8, 't'.toUInt8]
  else if b = 0x0A then ['\\'.toUInt8, 'n'.toUInt8]
  else if b = 0x0C then ['\\'.toUInt8, 'f'.toUInt8]
  else if b = 0x0D then ['\\'.toUInt8, 'r'.toUInt8]
  else if b < 0x20 then Ascii.bytes "\\u00" ++ (Hex.ofByte b).map Char.toUInt8
  else [b]

/-- The bytes of a text, escaped and between quotes. -/
def quoted (s : String) : List UInt8 :=
  '"'.toUInt8 :: ((Utf8.ofString s).flatMap escaped ++ ['"'.toUInt8])

mutual

def render : Json → List UInt8
  | .null => Ascii.bytes "null"
  | .bool true => Ascii.bytes "true"
  | .bool false => Ascii.bytes "false"
  | .number n => n.text.map Char.toUInt8
  | .text s => quoted s
  | .array [] => Ascii.bytes "[]"
  | .array (item :: rest) => '['.toUInt8 :: (render item ++ renderItems rest)
  | .object [] => '\x7b'.toUInt8 :: ['\x7d'.toUInt8]
  | .object ((key, value) :: rest) =>
    '\x7b'.toUInt8 :: (quoted key ++ ':'.toUInt8 :: (render value ++ renderMembers rest))

/-- The items after the first, each behind a comma, and the end of the array. -/
def renderItems : List Json → List UInt8
  | [] => [']'.toUInt8]
  | item :: rest => ','.toUInt8 :: (render item ++ renderItems rest)

/-- The members after the first, each behind a comma, and the end of the object. -/
def renderMembers : List (String × Json) → List UInt8
  | [] => ['\x7d'.toUInt8]
  | (key, value) :: rest =>
    ','.toUInt8 :: (quoted key ++ ':'.toUInt8 :: (render value ++ renderMembers rest))

end

end Json

end Telemetry
