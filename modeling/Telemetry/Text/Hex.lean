import Telemetry.Text.Ascii

/-!
# Hexadecimal digits

The sixteen digits, written in lower case and read in either. A byte is written as two of them,
the upper half first; `bytes?` reads pairs back.
-/

namespace Telemetry.Hex

/-- The value of a hexadecimal digit of either case. -/
def value? (c : Char) : Option Nat :=
  let n := c.toNat
  if 0x30 ≤ n ∧ n ≤ 0x39 then some (n - 0x30)
  else if 0x61 ≤ n ∧ n ≤ 0x66 then some (n - 0x61 + 10)
  else if 0x41 ≤ n ∧ n ≤ 0x46 then some (n - 0x41 + 10)
  else none

def isDigit (c : Char) : Bool :=
  (value? c).isSome

/-- The lower-case digit of a value below sixteen. -/
def digit (n : Nat) : Char :=
  if n < 10 then Char.ofNat (0x30 + n) else Char.ofNat (0x61 + (n - 10))

def ofByte (b : UInt8) : List Char :=
  [digit (b.toNat / 16), digit (b.toNat % 16)]

def ofBytes (bytes : List UInt8) : List Char :=
  bytes.flatMap ofByte

/-- The bytes that pairs of digits spell; `none` for another character or an odd number. -/
def bytes? : List Char → Option (List UInt8)
  | [] => some []
  | [_] => none
  | a :: b :: rest =>
    match value? a, value? b, bytes? rest with
    | some x, some y, some bytes => some (UInt8.ofNat (16 * x + y) :: bytes)
    | _, _, _ => none

theorem value?_digit {n : Nat} (h : n < 16) : value? (digit n) = some n := by
  revert n
  decide

@[simp] theorem ofBytes_nil : ofBytes [] = [] := rfl

@[simp] theorem ofBytes_cons (b : UInt8) (rest : List UInt8) :
    ofBytes (b :: rest) = ofByte b ++ ofBytes rest := rfl

/-- Two digits are written for each byte. -/
theorem length_ofBytes (bytes : List UInt8) : (ofBytes bytes).length = 2 * bytes.length := by
  induction bytes with
  | nil => rfl
  | cons b rest ih => simp [ofByte, ih]; omega

/-- **Reading gives back what was written.** -/
theorem bytes?_ofBytes (bytes : List UInt8) : bytes? (ofBytes bytes) = some bytes := by
  induction bytes with
  | nil => rfl
  | cons b rest ih =>
    have hb := b.toNat_lt
    have hdiv : b.toNat / 16 < 16 := by omega
    have hmod : b.toNat % 16 < 16 := by omega
    simp only [ofBytes_cons, ofByte, List.cons_append, List.nil_append, bytes?,
      value?_digit hdiv, value?_digit hmod, ih]
    have : 16 * (b.toNat / 16) + b.toNat % 16 = b.toNat := by omega
    simp [this]

/-! ### What is read -/

/-- **A digit is read in either case**: it has the value of the digit that it is in lower case. -/
theorem value?_eq_some_iff {c : Char} {n : Nat} :
    value? c = some n ↔ n < 16 ∧ c.toLower = digit n := by
  by_cases hascii : c.toNat < 0x80
  · have hall : ∀ k < 0x80, ∀ n < 16,
        value? (Char.ofNat k) = some n ↔ (Char.ofNat k).toLower = digit n := by decide +kernel
    have hvalue : ∀ k < 0x80, ∀ n, value? (Char.ofNat k) = some n → n < 16 := by
      intro k _ n hn
      unfold value? at hn
      grind
    have hc := hvalue c.toNat hascii n
    have hiff := hall c.toNat hascii n
    rw [Char.ofNat_toNat] at hc hiff
    exact ⟨fun h => ⟨hc h, (hiff (hc h)).mp h⟩, fun h => (hiff h.1).mpr h.2⟩
  · -- no other character is a digit, and none becomes one in lower case
    have hnone : value? c = none := by
      unfold value?
      grind
    have hlower : c.toLower = c := Ascii.toLower_of_beyond (Nat.not_lt.mp hascii)
    have hdigit : ∀ n < 16, (digit n).toNat < 0x80 := by decide
    rw [hnone, hlower]
    constructor
    · intro h
      cases h
    · rintro ⟨hn, rfl⟩
      exact absurd (hdigit n hn) hascii

/-- All digits lie between `0` and `f`. -/
theorem bounds_of_value? {c : Char} {n : Nat} (h : value? c = some n) :
    0x30 ≤ c.toNat ∧ c.toNat ≤ 0x66 := by
  unfold value? at h
  grind

/-- Only digits are written. -/
theorem exists_of_mem_ofBytes {bytes : List UInt8} {c : Char} (h : c ∈ ofBytes bytes) :
    ∃ n < 16, c = digit n := by
  obtain ⟨b, -, hc⟩ := List.mem_flatMap.mp h
  have hb := b.toNat_lt
  rw [ofByte, List.mem_cons, List.mem_singleton] at hc
  rcases hc with rfl | rfl
  · exact ⟨b.toNat / 16, by omega, rfl⟩
  · exact ⟨b.toNat % 16, by omega, rfl⟩

theorem bytes?_of_map_toLower {text : List Char} {bytes : List UInt8}
    (h : text.map Char.toLower = ofBytes bytes) : bytes? text = some bytes := by
  induction bytes generalizing text with
  | nil =>
    rw [List.map_eq_nil_iff.mp h]
    rfl
  | cons b bytes ih =>
    obtain ⟨first, text, rfl, hfirst, h⟩ := List.map_eq_cons_iff.mp h
    obtain ⟨second, text, rfl, hsecond, h⟩ := List.map_eq_cons_iff.mp h
    have hb := b.toNat_lt
    have hhigh := value?_eq_some_iff.mpr ⟨show b.toNat / 16 < 16 by omega, hfirst⟩
    have hlow := value?_eq_some_iff.mpr ⟨show b.toNat % 16 < 16 by omega, hsecond⟩
    simp only [bytes?, hhigh, hlow, ih h]
    rw [show 16 * (b.toNat / 16) + b.toNat % 16 = b.toNat by omega, UInt8.ofNat_toNat]

theorem map_toLower_of_bytes? {text : List Char} {bytes : List UInt8}
    (h : bytes? text = some bytes) : text.map Char.toLower = ofBytes bytes := by
  fun_induction bytes? text generalizing bytes with
  | case1 =>
    cases h
    rfl
  | case2 => cases h
  | case3 first second rest x y more hrest hy hx ih =>
    cases h
    obtain ⟨hxlt, hfirst⟩ := value?_eq_some_iff.mp hx
    obtain ⟨hylt, hsecond⟩ := value?_eq_some_iff.mp hy
    have hbyte : (UInt8.ofNat (16 * x + y)).toNat = 16 * x + y :=
      UInt8.toNat_ofNat_of_lt' (show 16 * x + y < 256 by omega)
    have hhigh : (16 * x + y) / 16 = x := by omega
    have hlow : (16 * x + y) % 16 = y := by omega
    rw [ofBytes_cons, ofByte, hbyte, hhigh, hlow, ← hfirst, ← hsecond, ← ih hrest]
    rfl
  | case4 => cases h

/-- **Reading digits** succeeds exactly if they are written digits in either case. -/
theorem bytes?_eq_some_iff {text : List Char} {bytes : List UInt8} :
    bytes? text = some bytes ↔ text.map Char.toLower = ofBytes bytes :=
  ⟨map_toLower_of_bytes?, bytes?_of_map_toLower⟩

end Telemetry.Hex
