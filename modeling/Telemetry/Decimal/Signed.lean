/-!
# Signed decimal numbers of 32 bits

A number is at most one sign followed by decimal digits, any count of them, with nothing before,
between or after. The digits are read from the left against the limit of their sign: 2147483647,
or 2147483648 after a minus. Whichever comes first, a character that is no digit or a digit that
takes the number past its limit, decides how a text is refused; a character that is both counts
as no digit.

`digits` and `ofInt` write numbers.
-/

namespace Telemetry.Decimal

def digits (n : Nat) : List Char :=
  Nat.toDigits 10 n

/-- The decimal text of an integer, with a minus sign if it is negative. -/
def ofInt : Int → List Char
  | .ofNat n => digits n
  | .negSucc n => '-' :: digits (n + 1)

def text (n : Int) : String :=
  String.ofList (ofInt n)

def digit? (c : Char) : Option Nat :=
  if '0' ≤ c ∧ c ≤ '9' then some (c.toNat - '0'.toNat) else none

namespace Signed

/-- Why a text is not a number of 32 bits. -/
inductive Fault where
  | empty
  | invalidDigit
  | tooLarge
  | tooSmall
  deriving DecidableEq

def Fault.message : Fault → String
  | .empty => "cannot parse integer from empty string"
  | .invalidDigit => "invalid digit found in string"
  | .tooLarge => "number too large to fit in target type"
  | .tooSmall => "number too small to fit in target type"

/-- Reads digits onto the number `acc`, which must not pass `limit`. -/
def accumulate (limit : Nat) (beyond : Fault) (acc : Nat) : List Char → Except Fault Nat
  | [] => .ok acc
  | c :: rest =>
    match digit? c with
    | none => .error .invalidDigit
    | some d =>
      if acc * 10 + d ≤ limit then accumulate limit beyond (acc * 10 + d) rest
      else .error beyond

/-- The magnitude of digits, of which there must be one at least. -/
def magnitude (limit : Nat) (beyond : Fault) (cs : List Char) : Except Fault Nat :=
  if cs.isEmpty then .error .invalidDigit else accumulate limit beyond 0 cs

/-- Reads digits, above zero or below it. -/
def readDigits (negative : Bool) (cs : List Char) : Except Fault Int32 :=
  if negative then (magnitude 2147483648 .tooSmall cs).map fun n => Int32.ofInt (-(n : Int))
  else (magnitude 2147483647 .tooLarge cs).map fun n => Int32.ofInt n

/-- **The number that a text spells.** -/
def read : List Char → Except Fault Int32
  | [] => .error .empty
  | c :: rest =>
    if c = '-' then readDigits true rest
    else if c = '+' then readDigits false rest
    else readDigits false (c :: rest)

end Signed

end Telemetry.Decimal
