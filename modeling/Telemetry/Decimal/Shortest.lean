import Telemetry.Decimal.Signed

/-!
# The shortest decimal of a double

A finite double stands for an exact number m · 2^q, and for every real number that rounds to it: an
interval around m · 2^q that reaches half way to either neighbour, its ends included exactly when
m is even. `shortest` is a decimal in that interval with the fewest digits, and among those the
nearest to m · 2^q (the one whose last digit is even, of two equally near).

Everything is computed exactly. A decimal with a given last place is in the interval only if one of
the two such decimals next to m · 2^q is, so for one digit, two, and so on to seventeen these two
are tried, and the first place with a hit wins. Seventeen digits always suffice.
-/

namespace Telemetry.Decimal

/-- The number `digits · 10^exponent`. -/
structure Scientific where
  digits : Nat
  exponent : Int
  deriving DecidableEq

/-- A positive fraction of natural numbers. -/
structure Ratio where
  num : Nat
  den : Nat

namespace Ratio

/-- The fraction `n · 2^e`. -/
def binary (n : Nat) : Int → Ratio
  | .ofNat e => ⟨n <<< e, 1⟩
  | .negSucc e => ⟨n, 1 <<< (e + 1)⟩

/-- The fraction divided by `10^e`. -/
def divTen (r : Ratio) : Int → Ratio
  | .ofNat e => ⟨r.num, r.den * Nat.pow 10 e⟩
  | .negSucc e => ⟨r.num * Nat.pow 10 (e + 1), r.den⟩

/-- The greatest `k` with `10^k` at most the fraction, which must lie above `10^(-400)`. -/
def log10 (r : Ratio) : Int :=
  ((digits (r.num * Nat.pow 10 400 / r.den)).length : Int) - 401

def le (r : Ratio) (n : Nat) : Bool :=
  r.num ≤ n * r.den

def lt (r : Ratio) (n : Nat) : Bool :=
  r.num < n * r.den

end Ratio

/-- A double without its sign: `significand · 2^exponent`. -/
structure Binary where
  significand : Nat
  exponent : Int
  deriving DecidableEq

namespace Binary

/-- The leading bit of a full significand, 2^52. -/
def leadingBit : Nat := 4503599627370496

/-- The double lies at the lower end of a power of two, so that its lower neighbour is nearer than
its upper one. -/
def atPower (b : Binary) : Bool :=
  b.significand == leadingBit && b.exponent != -1074

/-- The point half way to the lower neighbour. -/
def low (b : Binary) : Ratio :=
  if b.atPower then .binary (4 * b.significand - 1) (b.exponent - 2)
  else .binary (4 * b.significand - 2) (b.exponent - 2)

/-- The point half way to the upper neighbour. -/
def high (b : Binary) : Ratio :=
  .binary (4 * b.significand + 2) (b.exponent - 2)

def ratio (b : Binary) : Ratio :=
  .binary (4 * b.significand) (b.exponent - 2)

/-- The decimal `n · 10^place` rounds to the double. -/
def admits (b : Binary) (n : Nat) (place : Int) : Bool :=
  let low := b.low.divTen place
  let high := b.high.divTen place
  -- a number half way between two doubles rounds to the one with the even significand
  if b.significand % 2 = 0 then low.le n && !(high.lt n)
  else low.lt n && !(high.le n)

/-- The nearer of the two decimals next to the double with the last place `place`, if it rounds to
the double; else the other one, if that does. -/
def atPlace? (b : Binary) (place : Int) : Option Scientific :=
  let r := b.ratio.divTen place
  let below := r.num / r.den
  let rest := r.num % r.den
  -- of two equally near, the one whose last digit is even
  let nearest :=
    if 2 * rest < r.den then below
    else if 2 * rest = r.den then below + below % 2
    else below + 1
  let other := 2 * below + 1 - nearest
  if b.admits nearest place then some ⟨nearest, place⟩
  else if b.admits other place then some ⟨other, place⟩
  else none

/-- The first place from `place` downwards, of `count` places, with a hit. -/
def search (b : Binary) (place : Int) : Nat → Scientific
  -- not reached with seventeen places, which tell all doubles apart
  | 0 => ⟨b.ratio.num / b.ratio.den, 0⟩
  | count + 1 => (b.atPlace? place).getD (b.search (place - 1) count)

end Binary

namespace Scientific

/-- The same number with at most `count` zeros at the end of its digits taken off. -/
def trimZeros (s : Scientific) : Nat → Scientific
  | 0 => s
  | count + 1 =>
    if s.digits % 10 = 0 then trimZeros ⟨s.digits / 10, s.exponent + 1⟩ count else s

end Scientific

/-- **The shortest decimal that rounds to a positive double.** -/
def shortest (b : Binary) : Scientific :=
  (b.search b.ratio.log10 17).trimZeros 17

/-- The sign of a double, true below zero. -/
def isNegative (x : Float) : Bool :=
  x.toBits.toNat.testBit 63

/-- The magnitude of a double; `none` for an infinity or for what is not a number. -/
def binary? (x : Float) : Option Binary :=
  let bits := x.toBits.toNat
  let fraction : Nat := bits % Binary.leadingBit
  let exponent : Nat := bits / Binary.leadingBit % 2048
  if exponent = 2047 then none
  -- a subnormal has no leading bit
  else if exponent = 0 then some ⟨fraction, -1074⟩
  else some ⟨Binary.leadingBit + fraction, Int.ofNat exponent - 1075⟩

end Telemetry.Decimal
