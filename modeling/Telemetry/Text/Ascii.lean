/-!
# ASCII bytes and letters

Wire formats are read byte by byte, and every byte with a meaning of its own is an ASCII
character. This module holds the classes of such bytes, the fold of the twenty-six letters that
makes a name case-insensitive, and the spelling of an ASCII text as bytes.

Only ASCII is folded: a letter outside it, even one whose Unicode lower case is an ASCII letter
(the Kelvin sign, say), stays as it is.
-/

namespace Telemetry.Ascii

/-- The bytes of a text of ASCII characters, one byte for each. -/
def bytes (text : String) : List UInt8 :=
  text.toList.map Char.toUInt8

def isDigit (b : UInt8) : Bool :=
  '0'.toUInt8 ≤ b && b ≤ '9'.toUInt8

def isUpper (b : UInt8) : Bool :=
  'A'.toUInt8 ≤ b && b ≤ 'Z'.toUInt8

def isLower (b : UInt8) : Bool :=
  'a'.toUInt8 ≤ b && b ≤ 'z'.toUInt8

def isAlphanumeric (b : UInt8) : Bool :=
  isDigit b || isUpper b || isLower b

/-- A text with its capital ASCII letters made small and all else kept. -/
def lowered (text : String) : String :=
  String.ofList (text.toList.map Char.toLower)

/-- A text with its small ASCII letters made capital and all else kept. -/
def raised (text : String) : String :=
  String.ofList (text.toList.map Char.toUpper)

/-- Two texts are equal up to the case of ASCII letters. -/
def sameName (a b : String) : Bool :=
  lowered a == lowered b

@[simp] theorem toList_lowered (text : String) :
    (lowered text).toList = text.toList.map Char.toLower := by
  simp [lowered]

@[simp] theorem toList_raised (text : String) :
    (raised text).toList = text.toList.map Char.toUpper := by
  simp [raised]

theorem sameName_comm (a b : String) : sameName a b = sameName b a := by
  simp [sameName, Bool.beq_comm]

/-- Names that are the same are the same as the same names. -/
theorem sameName_congr {a b : String} (h : sameName a b = true) (c : String) :
    sameName a c = sameName b c := by
  have hlowered : lowered a = lowered b := beq_iff_eq.mp h
  rw [sameName, sameName, hlowered]

/-- A character of ASCII is the byte of its number. -/
theorem toNat_toUInt8 {c : Char} (h : c.toNat < 0x80) : c.toUInt8.toNat = c.toNat := by
  rw [Char.toUInt8, UInt32.toNat_toUInt8]
  exact Nat.mod_eq_of_lt (Nat.lt_of_lt_of_le h (by decide))

theorem toUInt8_injective {c d : Char} (hc : c.toNat < 0x80) (hd : d.toNat < 0x80)
    (h : c.toUInt8 = d.toUInt8) : c = d := by
  have hnat : c.toNat = d.toNat := by rw [← toNat_toUInt8 hc, ← toNat_toUInt8 hd, h]
  rw [← Char.ofNat_toNat c, ← Char.ofNat_toNat d, hnat]

/-- Beyond ASCII nothing is folded. -/
theorem toLower_of_beyond {c : Char} (h : 0x80 ≤ c.toNat) : c.toLower = c := by
  refine dif_neg fun hupper => Nat.not_lt.mpr h ?_
  exact Nat.lt_of_le_of_lt (UInt32.le_iff_toNat_le.mp hupper.2) (by decide)

/-- What is ASCII in lower case is ASCII. -/
theorem lt_of_toLower_lt {c : Char} (h : c.toLower.toNat < 0x80) : c.toNat < 0x80 := by
  refine Nat.lt_of_not_le fun hbeyond => ?_
  rw [toLower_of_beyond hbeyond] at h
  exact Nat.not_le.mpr h hbeyond

end Telemetry.Ascii
