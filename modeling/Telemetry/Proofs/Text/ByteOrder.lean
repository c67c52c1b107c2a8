import Telemetry.Text.Utf8
import Mathlib.Data.List.Lex

/-!
# Comparing texts by their bytes

UTF-8 keeps the order of code points: of two characters the one with the greater code has the
greater bytes, compared from the left. If it takes more bytes than the other, this shows in the
first of them; if it takes as many, the bytes are the digits of the two codes to the base 64, the
highest first (`Utf8.lex_utf8EncodeChar`). So it does not matter what comes behind the first
characters that differ, and texts compare as their bytes do (`Utf8.ofString_lt`).
-/

namespace Telemetry.Utf8

/-! ### Continuation bytes -/

/-- Byte strings are compared by their first bytes, and behind equal ones by the others. -/
theorem lex_ofNat_cons {m n : Nat} {a b : List UInt8} (hn : n < 256)
    (h : m < n ∨ m = n ∧ List.Lex (· < ·) a b) :
    List.Lex (· < ·) (UInt8.ofNat m :: a) (UInt8.ofNat n :: b) := by
  rcases h with h | ⟨rfl, h⟩
  · refine .rel ?_
    rw [UInt8.lt_iff_toNat_lt, UInt8.toNat_ofNat_of_lt' (Nat.lt_trans h hn),
      UInt8.toNat_ofNat_of_lt' hn]
    exact h
  · exact .cons h

variable {v w : Nat} (h : v < w) (a b : List UInt8)

include h

/-- Codes that differ in their last digit alone. -/
theorem lex_lastDigit (hdiv : v / 64 = w / 64) :
    List.Lex (· < ·) (UInt8.ofNat (v % 64 + 128) :: a) (UInt8.ofNat (w % 64 + 128) :: b) :=
  lex_ofNat_cons (by omega) (.inl (by omega))

/-- Codes that differ in their last two digits. -/
theorem lex_lastTwoDigits (hdiv : v / 4096 = w / 4096) :
    List.Lex (· < ·) (UInt8.ofNat (v / 64 % 64 + 128) :: UInt8.ofNat (v % 64 + 128) :: a)
      (UInt8.ofNat (w / 64 % 64 + 128) :: UInt8.ofNat (w % 64 + 128) :: b) := by
  refine lex_ofNat_cons (by omega) ?_
  -- the first of the two digits differs, or it is left to the second
  by_cases hdigit : v / 64 = w / 64
  · exact .inr ⟨by rw [hdigit], lex_lastDigit h a b hdigit⟩
  · exact .inl (by omega)

/-- Codes that differ in their last three digits. -/
theorem lex_lastThreeDigits (hdiv : v / 262144 = w / 262144) :
    List.Lex (· < ·)
      (UInt8.ofNat (v / 4096 % 64 + 128) :: UInt8.ofNat (v / 64 % 64 + 128) ::
        UInt8.ofNat (v % 64 + 128) :: a)
      (UInt8.ofNat (w / 4096 % 64 + 128) :: UInt8.ofNat (w / 64 % 64 + 128) ::
        UInt8.ofNat (w % 64 + 128) :: b) := by
  refine lex_ofNat_cons (by omega) ?_
  -- the same with one digit more in front
  by_cases hdigit : v / 4096 = w / 4096
  · exact .inr ⟨by rw [hdigit], lex_lastTwoDigits h a b hdigit⟩
  · exact .inl (by omega)

omit h

/-! ### Characters and texts -/

/-- **The greater character has the greater bytes,** whatever comes behind them. -/
theorem lex_utf8EncodeChar {c d : Char} (h : c < d) :
    List.Lex (· < ·) (String.utf8EncodeChar c ++ a) (String.utf8EncodeChar d ++ b) := by
  have hlt : c.val.toNat < d.val.toNat := UInt32.lt_iff_toNat_lt.mp h
  have hbound : d.val.toNat < 0x110000 := by
    have hvalid : d.val.toNat < 0xD800 ∨ (0xDFFF < d.val.toNat ∧ d.val.toNat < 0x110000) := d.valid
    omega
  unfold String.utf8EncodeChar
  -- a character takes one byte, two, three or four; fewer bytes have a smaller first byte
  by_cases hc₁ : c.val.toNat ≤ 127
  · simp only [hc₁, if_true, List.cons_append]
    -- one byte: it is the code itself, or less than the first of several
    split
    · exact lex_ofNat_cons (by omega) (.inl hlt)
    · split
      · exact lex_ofNat_cons (by omega) (.inl (by omega))
      · split <;> exact lex_ofNat_cons (by omega) (.inl (by omega))
  -- the greater character has no fewer bytes than the lesser one
  have hd₁ : ¬ d.val.toNat ≤ 127 := by omega
  by_cases hc₂ : c.val.toNat ≤ 2047
  · simp only [hc₁, hc₂, hd₁, if_true, if_false, List.cons_append]
    split
    · -- two bytes each: equal first bytes leave the order to the last digit
      refine lex_ofNat_cons (by omega) ?_
      by_cases hdigit : c.val.toNat / 64 = d.val.toNat / 64
      · exact .inr ⟨by rw [hdigit], lex_lastDigit hlt _ _ hdigit⟩
      · exact .inl (by omega)
    · split <;> exact lex_ofNat_cons (by omega) (.inl (by omega))
  have hd₂ : ¬ d.val.toNat ≤ 2047 := by omega
  by_cases hc₃ : c.val.toNat ≤ 65535
  · simp only [hc₁, hc₂, hc₃, hd₁, hd₂, if_true, if_false, List.cons_append]
    split
    · -- three bytes each, and two digits
      refine lex_ofNat_cons (by omega) ?_
      by_cases hdigit : c.val.toNat / 4096 = d.val.toNat / 4096
      · exact .inr ⟨by rw [hdigit], lex_lastTwoDigits hlt _ _ hdigit⟩
      · exact .inl (by omega)
    · exact lex_ofNat_cons (by omega) (.inl (by omega))
  have hd₃ : ¬ d.val.toNat ≤ 65535 := by omega
  simp only [hc₁, hc₂, hc₃, hd₁, hd₂, hd₃, if_false, List.cons_append]
  -- four bytes each, and three digits
  refine lex_ofNat_cons (by omega) ?_
  by_cases hdigit : c.val.toNat / 262144 = d.val.toNat / 262144
  · exact .inr ⟨by rw [hdigit], lex_lastThreeDigits hlt _ _ hdigit⟩
  · exact .inl (by omega)

theorem lex_encode {s t : List Char} (h : List.Lex (· < ·) s t) :
    List.Lex (· < ·) (encode s) (encode t) := by
  -- by induction on the order of the texts: the characters that they share first have the same
  -- bytes
  induction h with
  | @nil d t =>
    rw [encode_nil, encode_cons]
    -- no character is written without bytes
    cases hbytes : String.utf8EncodeChar d with
    | nil => exact absurd hbytes (String.utf8EncodeChar_ne_nil)
    | cons byte bytes => exact .nil
  | cons h ih =>
    rw [encode_cons, encode_cons]
    exact ih.append_left _ _
  | rel h =>
    rw [encode_cons, encode_cons]
    exact lex_utf8EncodeChar _ _ h

/-- **The lesser text has the lesser bytes.** -/
theorem ofString_lt {s t : String} (h : s < t) : ofString s < ofString t :=
  lex_encode h

end Telemetry.Utf8
