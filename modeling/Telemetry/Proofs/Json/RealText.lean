import Telemetry.Proofs.Json.Numeral

/-!
# Every finite double is written as a numeral

Whether a double is read back from its text is a matter of rounding; that its text is a numeral is
not. There are two forms, in full and with an exponent, and in either the reader finds a whole part,
a fraction or none, and an exponent or none, one behind the other (`Numeral.scan_positional`,
`Numeral.scan_exponential`). Only the whole part has a form that could fail, for it must not begin
with a zero and go on. So the digits of a double that is written in full must not be zero, and they
are not, since zero does not round to a positive double (`Decimal.digits_shortest`).
-/

namespace Telemetry

/-! ### The digits of a double -/

namespace Decimal

theorem Ratio.num_binary_pos {n : Nat} (h : 0 < n) (e : Int) : 0 < (Ratio.binary n e).num := by
  cases e with
  | ofNat e =>
    show 0 < n <<< e
    rw [Nat.shiftLeft_eq]
    exact Nat.mul_pos h (Nat.pow_pos (by decide))
  | negSucc e => exact h

theorem Ratio.num_divTen_pos {r : Ratio} (h : 0 < r.num) (e : Int) : 0 < (r.divTen e).num := by
  cases e with
  | ofNat e => exact h
  | negSucc e => exact Nat.mul_pos h (Nat.pow_pos (by decide))

namespace Binary

theorem num_low_pos {b : Binary} (h : b.significand ≠ 0) : 0 < b.low.num := by
  unfold low
  split <;> exact Ratio.num_binary_pos (by omega) _

/-- **Zero rounds to no positive double.** -/
theorem admits_zero {b : Binary} (h : b.significand ≠ 0) (place : Int) :
    b.admits 0 place = false := by
  have hpos : 0 < (b.low.divTen place).num := Ratio.num_divTen_pos (num_low_pos h) place
  have hle : (b.low.divTen place).le 0 = false := by
    rw [Ratio.le, Nat.zero_mul, decide_eq_false_iff_not]
    omega
  have hlt : (b.low.divTen place).lt 0 = false := by
    rw [Ratio.lt, Nat.zero_mul, decide_eq_false_iff_not]
    omega
  -- zero lies below the least that rounds to the double, whether that bound counts or not
  simp only [admits, hle, hlt, Bool.false_and, ite_self]

theorem digits_atPlace? {b : Binary} (h : b.significand ≠ 0) {place : Int} {s : Scientific}
    (hs : b.atPlace? place = some s) : s.digits ≠ 0 := by
  have hpos : ∀ {n}, b.admits n place = true → n ≠ 0 := by
    rintro n hn rfl
    rw [admits_zero h] at hn
    exact Bool.noConfusion hn
  unfold atPlace? at hs
  simp only at hs
  generalize (if 2 * _ < _ then _ else _ : Nat) = nearest at hs
  -- the nearest digits are tried and then their neighbour; what is taken is admitted
  split at hs
  · next hadmits =>
    rw [← Option.some.inj hs]
    exact hpos hadmits
  · split at hs
    · next hadmits =>
      rw [← Option.some.inj hs]
      exact hpos hadmits
    · exact absurd hs (by simp)

/-- A search finds digits that are not zero, or ends in what it has for want of a hit. -/
theorem digits_search {b : Binary} (h : b.significand ≠ 0) (place : Int) (count : Nat) :
    (b.search place count).digits ≠ 0 ∨ (b.search place count).exponent = 0 := by
  -- place by place; the first hit is admitted, so it is not zero
  induction count generalizing place with
  | zero => exact .inr rfl
  | succ count ih =>
    rw [search]
    cases hs : b.atPlace? place with
    | none => exact ih (place - 1)
    | some s => exact .inl (digits_atPlace? h hs)

end Binary

theorem Scientific.digits_trimZeros {s : Scientific} (h : s.digits ≠ 0) (count : Nat) :
    (s.trimZeros count).digits ≠ 0 := by
  induction count generalizing s with
  | zero => exact h
  | succ count ih =>
    rw [trimZeros]
    -- a last zero is taken off only if there is one, and other digits are left
    split
    · exact ih (by simp only; omega)
    · exact h

theorem Scientific.trimZeros_zero (exponent : Int) (count : Nat) :
    (⟨0, exponent⟩ : Scientific).trimZeros count = ⟨0, exponent + count⟩ := by
  induction count generalizing exponent with
  | zero => rw [trimZeros, Int.natCast_zero, Int.add_zero]
  | succ count ih =>
    -- a zero stays zero, and each step takes it one place up
    have hstep : (⟨0, exponent⟩ : Scientific).trimZeros (count + 1) =
        (⟨0, exponent + 1⟩ : Scientific).trimZeros count := by
      rw [trimZeros, if_pos (Nat.zero_mod 10), Nat.zero_div]
    rw [hstep, ih, Int.natCast_succ, Int.add_assoc, Int.add_comm 1]

/-- The digits of a double are not zero, or it is written with an exponent. -/
theorem digits_shortest {b : Binary} (h : b.significand ≠ 0) :
    (shortest b).digits ≠ 0 ∨ (shortest b).exponent = 17 := by
  rw [shortest]
  generalize hs : b.search b.ratio.log10 17 = s
  have hsearch := Binary.digits_search h b.ratio.log10 17
  rw [hs] at hsearch
  by_cases hzero : s.digits = 0
  · -- all of the zero is taken off, place by place
    have hexponent : s.exponent = 0 := hsearch.resolve_left (not_not_intro hzero)
    obtain ⟨digits, exponent⟩ := s
    subst hzero hexponent
    exact .inr (congrArg Scientific.exponent (Scientific.trimZeros_zero 0 17))
  · exact .inl (Scientific.digits_trimZeros hzero 17)

end Decimal

/-! ### Scanning the two forms -/

namespace Numeral

theorem halts_cons {b : UInt8} (h : Ascii.isDigit b = false) (rest : List UInt8) :
    Halts (b :: rest) := by
  intro c hc
  rwa [← Option.some.inj hc]

theorem scanDigits_map {cs : List Char} {rest : List UInt8} (h : ∀ c ∈ cs, c.isDigit = true)
    (hne : cs ≠ []) (hhalts : Halts rest) :
    scanDigits (cs.map Char.toUInt8 ++ rest) = .ok (digitValues cs, rest) := by
  refine scanDigits_eq_ok.2 ⟨?_, ?_⟩
  · rw [takeDigits_append hhalts, takeDigits_map h]
    rfl
  · rw [digitValues, Ne, List.map_eq_nil_iff]
    exact hne

variable {whole fraction exponent : List Char}

/-- A whole part, a point and digits are a numeral. -/
theorem scan_positional (negative : Bool) (hwhole : IsWhole whole)
    (hfraction : ∀ c ∈ fraction, c.isDigit = true) (hne : fraction ≠ []) :
    ∃ n, scan negative ((whole ++ '.' :: fraction).map Char.toUInt8) = .ok (n, []) := by
  have hdigits := scanDigits_map hfraction hne ends_nil.halts
  rw [List.append_nil] at hdigits
  -- the digits behind the point go to the end, so there is no exponent
  refine ⟨⟨negative, digitValues whole, some (digitValues fraction), none⟩, ?_⟩
  rw [List.map_append, List.map_cons]
  exact scan_eq_ok.2 ⟨rfl, _, [], scanWhole_map hwhole (halts_cons (by decide) _),
    scanFraction_eq_ok.2 (.inr ⟨_, _, rfl, rfl, hdigits⟩), rfl⟩

/-- The letter of an exponent, a sign and digits are an exponent. -/
theorem scanExponent_map {sign : Char} (hsign : sign = '+' ∨ sign = '-')
    (hexponent : ∀ c ∈ exponent, c.isDigit = true) (hne : exponent ≠ []) :
    ∃ e, scanExponent (('e' :: sign :: exponent).map Char.toUInt8) = .ok (e, []) := by
  have hdigits := scanDigits_map hexponent hne ends_nil.halts
  rw [List.append_nil] at hdigits
  -- the sign is there, so it is taken off before the digits
  have hskip : (scanSign ((sign :: exponent).map Char.toUInt8)).2 =
      exponent.map Char.toUInt8 := by
    rcases hsign with rfl | rfl <;> rfl
  rw [← hskip] at hdigits
  exact ⟨_, scanExponent_eq_ok.2 (.inr ⟨_, _, _, .inl rfl, rfl, rfl, hdigits⟩)⟩

/-- A whole part and an exponent are a numeral, also with a point and digits between them. -/
theorem scan_exponential (negative : Bool) (hwhole : IsWhole whole)
    (hfraction : ∀ c ∈ fraction, c.isDigit = true) {sign : Char} (hsign : sign = '+' ∨ sign = '-')
    (hexponent : ∀ c ∈ exponent, c.isDigit = true) (hne : exponent ≠ []) :
    ∃ n, scan negative ((whole ++ (if fraction = [] then [] else '.' :: fraction) ++
      'e' :: sign :: exponent).map Char.toUInt8) = .ok (n, []) := by
  obtain ⟨e, he⟩ := scanExponent_map hsign hexponent hne
  rw [List.map_append, List.map_append, List.append_assoc]
  -- one digit alone has no point, and the letter follows at once
  by_cases hnone : fraction = []
  · rw [if_pos hnone, List.map_nil, List.nil_append]
    have hpoint : scanFraction (('e' :: sign :: exponent).map Char.toUInt8) =
        .ok (none, ('e' :: sign :: exponent).map Char.toUInt8) := rfl
    exact ⟨⟨negative, digitValues whole, none, e⟩, scan_eq_ok.2 ⟨rfl, _, _,
      scanWhole_map hwhole (halts_cons (by decide) _), hpoint, he⟩⟩
  · rw [if_neg hnone, List.map_cons, List.cons_append]
    have hdigits := scanDigits_map hfraction hnone
      (halts_cons (by decide) ((sign :: exponent).map Char.toUInt8) : Halts ('e'.toUInt8 :: _))
    exact ⟨⟨negative, digitValues whole, some (digitValues fraction), e⟩, scan_eq_ok.2 ⟨rfl, _, _,
      scanWhole_map hwhole (halts_cons (by decide) _),
      scanFraction_eq_ok.2 (.inr ⟨_, _, rfl, rfl, hdigits⟩), he⟩⟩

end Numeral

namespace Number

open Numeral (IsWhole isWhole_digits)

/-- The characters are a numeral without a sign. -/
structure IsUnsigned (cs : List Char) : Prop where
  head : ∃ c rest, cs = c :: rest ∧ c.isDigit = true
  scan : ∀ negative, ∃ n, Numeral.scan negative (cs.map Char.toUInt8) = .ok (n, [])

theorem isWhole_zero : IsWhole ['0'] :=
  isWhole_digits 0

theorem head_append {whole : List Char} (h : IsWhole whole) (more : List Char) :
    ∃ c rest, whole ++ more = c :: rest ∧ c.isDigit = true := by
  obtain ⟨c, cs, rfl⟩ := List.exists_cons_of_ne_nil h.ne_nil
  exact ⟨c, cs ++ more, rfl, h.digits c List.mem_cons_self⟩

theorem isUnsigned_positional {ds : List Char} (h : IsWhole ds) (hzero : ds.head? ≠ some '0')
    (whole : Int) : IsUnsigned (positional ds whole) := by
  have hzeros : ∀ {n : Nat}, ∀ c ∈ List.replicate n '0', c.isDigit = true := by
    intro n c hc
    rw [(List.mem_replicate.1 hc).2]
    rfl
  -- in either case the text is a whole part, a point and digits
  have hform : ∀ {before after : List Char}, IsWhole before →
      (∀ c ∈ after, c.isDigit = true) → after ≠ [] → IsUnsigned (before ++ '.' :: after) :=
    fun hbefore hafter hne =>
      ⟨head_append hbefore _, fun negative => Numeral.scan_positional negative hbefore hafter hne⟩
  unfold positional
  split
  · -- the number is less than one: a zero, the point, more zeros and the digits
    refine hform isWhole_zero ?_ ?_
    · intro c hc
      rcases List.mem_append.1 hc with hc | hc
      · exact hzeros c hc
      · exact h.digits c hc
    · exact List.append_ne_nil_of_right_ne_nil _ h.ne_nil
  · next hpos =>
    obtain ⟨d, ds, rfl⟩ := List.exists_cons_of_ne_nil h.ne_nil
    obtain ⟨n, hn⟩ : ∃ n, whole.toNat = n + 1 := ⟨whole.toNat - 1, by omega⟩
    rw [hn]
    -- digits stand in front of the point, filled up with zeros if there are too few of them
    refine hform ⟨?_, by simp, fun hhead => ?_⟩ ?_ ?_
    · intro c hc
      rcases List.mem_append.1 hc with hc | hc
      · exact h.digits c (List.mem_of_mem_take hc)
      · exact hzeros c hc
    · exact absurd hhead hzero
    · intro c hc
      -- behind the point are the digits that remain, or one zero if none do
      split at hc
      · rw [List.mem_singleton.1 hc]
        rfl
      · exact h.digits c (List.mem_of_mem_drop hc)
    · split
      · exact List.cons_ne_nil _ _
      · next hne => simpa using hne

theorem isUnsigned_exponential {ds : List Char} (h : ∀ c ∈ ds, c.isDigit = true) (hne : ds ≠ [])
    (exponent : Int) : IsUnsigned (exponential ds exponent) := by
  obtain ⟨d, ds, rfl⟩ := List.exists_cons_of_ne_nil hne
  rw [List.forall_mem_cons] at h
  -- the first digit alone is the whole part, so it may be zero
  have hwhole : IsWhole [d] :=
    ⟨List.forall_mem_singleton.2 h.1, List.cons_ne_nil _ _, fun _ => rfl⟩
  -- the exponent bears its sign
  obtain ⟨sign, n, hsign, htext⟩ : ∃ sign n, (sign = '+' ∨ sign = '-') ∧
      'e' :: (if 0 ≤ exponent then ['+'] else []) ++ Decimal.ofInt exponent =
        'e' :: sign :: Decimal.digits n := by
    cases exponent with
    | ofNat n => exact ⟨'+', n, .inl rfl, rfl⟩
    | negSucc n => exact ⟨'-', n + 1, .inr rfl, rfl⟩
  have hfraction : (if (d :: ds).length ≤ 1 then [] else '.' :: (d :: ds).drop 1) =
      if ds = [] then [] else '.' :: ds := by
    cases ds <;> rfl
  have hform : exponential (d :: ds) exponent =
      [d] ++ (if ds = [] then [] else '.' :: ds) ++ 'e' :: sign :: Decimal.digits n := by
    rw [exponential, hfraction, List.append_assoc, htext]
    rfl
  rw [hform]
  refine ⟨?_, fun negative => ?_⟩
  · rw [List.append_assoc]
    exact head_append hwhole _
  · exact Numeral.scan_exponential negative hwhole h.2 hsign (isWhole_digits n).digits
      (isWhole_digits n).ne_nil

/-- **The magnitude of a double is a numeral.** -/
theorem isUnsigned_magnitude (b : Decimal.Binary) :
    IsUnsigned (if b.significand = 0 then ['0', '.', '0']
      else magnitudeText (Decimal.shortest b)) := by
  split
  · exact ⟨⟨'0', _, rfl, rfl⟩, fun negative => Numeral.scan_positional negative isWhole_zero
      isWhole_zero.digits isWhole_zero.ne_nil⟩
  · next hpos =>
    have hdigits := isWhole_digits (Decimal.shortest b).digits
    unfold magnitudeText
    simp only
    split
    · next hrange =>
      -- in full the first digit must not be zero, which is where rounding comes in
      refine isUnsigned_positional hdigits (Numeral.head?_digits_ne_zero ?_) _
      rcases Decimal.digits_shortest hpos with hne | hexponent
      · exact Nat.pos_of_ne_zero hne
      · -- too great to be written in full
        have hlength := List.length_pos_iff.2 hdigits.ne_nil
        have hgreatest : greatestPositional = 15 := rfl
        omega
    · exact isUnsigned_exponential hdigits.digits hdigits.ne_nil _

end Number

/-! ### Cutting -/

namespace Token

/-- In front of anything that ends a numeral, the bytes are cut off as a number, or as one beyond
all doubles. -/
def CutsNumeral (bytes : List UInt8) : Prop :=
  ∃ b tail value, bytes = b :: tail ∧ isSpace b = false ∧
    ∀ rest, Numeral.Ends rest → cut b (tail ++ rest) = (.number value, rest)

theorem cutsNumeral_of_isUnsigned {cs : List Char} (h : Number.IsUnsigned cs) :
    CutsNumeral (cs.map Char.toUInt8) ∧ CutsNumeral (('-' :: cs).map Char.toUInt8) := by
  constructor
  · -- without a sign the first digit tells that a number begins
    obtain ⟨c, rest, rfl, hc⟩ := h.head
    obtain ⟨n, hscan⟩ := h.scan false
    obtain ⟨hdigit, -⟩ := Numeral.isDigit_toUInt8 hc
    refine ⟨c.toUInt8, rest.map Char.toUInt8, n.value, rfl, isSpace_digit hdigit, ?_⟩
    intro more hends
    rw [List.map_cons] at hscan
    rw [cut_digit hdigit, ← List.cons_append, cutNumber, Numeral.scan_append hends hscan]
  · -- with a sign it is the sign that tells
    obtain ⟨n, hscan⟩ := h.scan true
    refine ⟨'-'.toUInt8, cs.map Char.toUInt8, n.value, rfl, by decide, ?_⟩
    intro more hends
    rw [cut_minus, cutNumber, Numeral.scan_append hends hscan]

/-- **What is written for a number is cut off as a number,** if not always as the same. -/
theorem cutsNumeral_text {n : Number} (h : ∀ x, n = .real x → x.isFinite = true) :
    CutsNumeral (n.text.map Char.toUInt8) := by
  cases n with
  | int n =>
    have hdigits : ∀ n : Nat, Number.IsUnsigned (Decimal.digits n) := by
      intro n
      refine ⟨?_, fun negative => ?_⟩
      · have hhead := Number.head_append (Numeral.isWhole_digits n) []
        rwa [List.append_nil] at hhead
      · obtain ⟨whole, -, hscan⟩ := Numeral.scan_digits negative n
        exact ⟨_, hscan⟩
    cases n with
    | ofNat n => exact (cutsNumeral_of_isUnsigned (hdigits n)).1
    | negSucc n => exact (cutsNumeral_of_isUnsigned (hdigits (n + 1))).2
  -- a finite double is a magnitude with a sign or without
  | real x =>
    have hfinite := h x rfl
    rw [← Decimal.isSome_binary?] at hfinite
    obtain ⟨b, hb⟩ := Option.isSome_iff_exists.1 hfinite
    have hcuts := cutsNumeral_of_isUnsigned (Number.isUnsigned_magnitude b)
    rw [Number.text, Number.realText, hb]
    simp only
    split
    · exact hcuts.2
    · exact hcuts.1

end Token

end Telemetry
