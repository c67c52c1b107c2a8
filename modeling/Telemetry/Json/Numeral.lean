import Telemetry.Json.Fault

/-!
# Numerals

A numeral is what JSON allows as a number: a sign, digits, a fraction, an exponent. `Numeral.scan`
cuts one off the front of a text and `Numeral.value` is the number that it means.

A numeral without fraction and exponent is an integer, kept exactly, as long as it fits 64 bits
(without a sign up to 2^64 - 1, with one from -1 down to -2^63; `-0` is a double, since it has a
sign to keep). Every other numeral is a double, found in one rounding step: the digits are taken
into a significand of 64 bits for as long as they fit, and this is multiplied or divided by a
power of ten. A numeral beyond all doubles means nothing.
-/

namespace Telemetry

/-- A lexeme that is cut short: what is wrong with it when its value is used, and what when it is
skipped over. -/
structure Tear where
  used : Fault
  skipped : Fault
  deriving DecidableEq

namespace Tear

/-- The text is malformed, whether the value is used or not. -/
def malformed : Tear := ⟨.malformed, .malformed⟩

/-- The text ends too early, whether the value is used or not. -/
def truncated : Tear := ⟨.truncated, .truncated⟩

/-- What is wrong where a digit of a number was due and `bytes` follow. A skipped number is only
checked for its form, so an end of the text counts as malformed there. -/
def noDigit (bytes : List UInt8) : Tear :=
  if bytes.isEmpty then ⟨.truncated, .malformed⟩ else malformed

end Tear

/-- The parts of a JSON number. -/
structure Numeral where
  negative : Bool
  /-- The digits before the point. -/
  whole : List Nat
  /-- The digits behind the point, if there is one. -/
  fraction : Option (List Nat)
  /-- The sign (true below zero) and the digits of the exponent, if there is one. -/
  exponent : Option (Bool × List Nat)
  deriving DecidableEq

namespace Numeral

/-! ### Cutting a numeral off a text -/

/-- The digits at the front of a text, and the rest of it. -/
def takeDigits (bytes : List UInt8) : List Nat × List UInt8 :=
  ((bytes.takeWhile Ascii.isDigit).map fun b => (b - '0'.toUInt8).toNat,
    bytes.dropWhile Ascii.isDigit)

/-- The digits before the point: a zero that no digit follows, or digits that begin otherwise. -/
def scanWhole (bytes : List UInt8) : Except Tear (List Nat × List UInt8) :=
  match takeDigits bytes with
  | ([], rest) => .error (.noDigit rest)
  -- no leading zero, so `01` is malformed although `0` alone would end here
  | (0 :: _ :: _, _) => .error .malformed
  | (digits, rest) => .ok (digits, rest)

/-- At least one digit. -/
def scanDigits (bytes : List UInt8) : Except Tear (List Nat × List UInt8) :=
  match takeDigits bytes with
  | ([], rest) => .error (.noDigit rest)
  | (digits, rest) => .ok (digits, rest)

/-- A point and the digits behind it, if a point comes next. -/
def scanFraction : List UInt8 → Except Tear (Option (List Nat) × List UInt8)
  | [] => .ok (none, [])
  | b :: rest =>
    if b = '.'.toUInt8 then (scanDigits rest).map fun (digits, rest) => (some digits, rest)
    else .ok (none, b :: rest)

/-- The sign of an exponent, true below zero. -/
def scanSign : List UInt8 → Bool × List UInt8
  | [] => (false, [])
  | b :: rest =>
    if b = '-'.toUInt8 then (true, rest)
    else if b = '+'.toUInt8 then (false, rest)
    else (false, b :: rest)

/-- An exponent, if its letter comes next. -/
def scanExponent : List UInt8 → Except Tear (Option (Bool × List Nat) × List UInt8)
  | [] => .ok (none, [])
  | b :: rest =>
    if b = 'e'.toUInt8 ∨ b = 'E'.toUInt8 then
      let (negative, rest) := scanSign rest
      (scanDigits rest).map fun (digits, rest) => (some (negative, digits), rest)
    else .ok (none, b :: rest)

/-- The numeral at the front of a text, of which a minus sign has been read or not, and the rest
of the text. -/
def scan (negative : Bool) (bytes : List UInt8) : Except Tear (Numeral × List UInt8) := do
  let (whole, bytes) ← scanWhole bytes
  let (fraction, bytes) ← scanFraction bytes
  let (exponent, bytes) ← scanExponent bytes
  return (⟨negative, whole, fraction, exponent⟩, bytes)

/-! ### The number that a numeral means -/

/-- The number of words of 64 bits, 2^64. -/
def words : Nat := 18446744073709551616

/-- The magnitude of the least signed integer of 64 bits, 2^63. -/
def greatestBelowZero : Nat := 9223372036854775808

/-- Takes digits into the significand `acc` for as long as it stays below 2^64; also says how many
digits were taken. -/
def absorb (acc : Nat) : List Nat → Nat × Nat
  | [] => (acc, 0)
  | d :: rest =>
    if acc * 10 + d < words then
      let (significand, taken) := absorb (acc * 10 + d) rest
      (significand, taken + 1)
    else (acc, 0)

/-- The number that digits spell. -/
def ofDigits (digits : List Nat) : Nat :=
  digits.foldl (fun acc d => acc * 10 + d) 0

/-- The double next to a power of ten. -/
def powerOfTen (k : Nat) : Float :=
  Float.ofScientific 1 false k

/-- The greatest exponent of a power of ten among the doubles. -/
def greatestPower : Nat := 308

/-- A double divided by `10^k`, in steps of `10^308` until nothing is left of it. A significand of
64 bits has gone to zero before the rounds run out. -/
def divided (f : Float) (k : Nat) : Nat → Float
  | 0 => f
  | rounds + 1 =>
    if k ≤ greatestPower then f / powerOfTen k
    else if f == 0 then f
    else divided (f / powerOfTen greatestPower) (k - greatestPower) rounds

/-- A double multiplied by `10^k`; `none` beyond all doubles. -/
def multiplied? (f : Float) (k : Nat) : Option Float :=
  if k ≤ greatestPower then
    let product := f * powerOfTen k
    if product.isInf then none else some product
  else if f == 0 then some f
  else none

/-- The double `significand · 10^exponent`; `none` beyond all doubles. -/
def scaled? (significand : Nat) : Int → Option Float
  | .ofNat k => multiplied? (UInt64.ofNat significand).toFloat k
  | .negSucc k => some (divided (UInt64.ofNat significand).toFloat (k + 1) 4)

/-- The significand and the exponent of ten of the numeral, without its sign. -/
def parts (n : Numeral) : Nat × Int :=
  let (whole, taken) := absorb 0 n.whole
  let fraction := n.fraction.getD []
  let (significand, places) := absorb whole fraction
  let exponent : Int :=
    match n.exponent with
    | none => 0
    | some (true, digits) => -(ofDigits digits : Int)
    | some (false, digits) => ofDigits digits
  -- a digit before the point that did not fit counts as a zero; one behind it does not count
  (significand, ((n.whole.length - taken : Nat) : Int) - places + exponent)

/-- The integer that the numeral is, if it is one of 64 bits. -/
def int? (n : Numeral) : Option Int :=
  if n.fraction.isSome || n.exponent.isSome then none
  else
    let magnitude := ofDigits n.whole
    if n.negative then
      -- `-0` is no integer: it has a sign to keep
      if 0 < magnitude ∧ magnitude ≤ greatestBelowZero then some (-(magnitude : Int)) else none
    else if magnitude < words then some magnitude
    else none

/-- The double that the numeral means; `none` beyond all doubles. -/
def real? (n : Numeral) : Option Float :=
  let (significand, exponent) := n.parts
  (scaled? significand exponent).map fun f => if n.negative then -f else f

/-- **The number that the numeral means.** -/
def value (n : Numeral) : Except Fault Number :=
  match n.int? with
  | some i => .ok (.int i)
  | none =>
    match n.real? with
    | some x => .ok (.real x)
    | none => .error .malformed

end Numeral

end Telemetry
