import Telemetry.Json.Codec

/-!
# The texts of numbers

The writer puts a number down in full; the reader takes in as many bytes as can belong to a
numeral. What is written is therefore read back only in front of something that cannot prolong it:
`Numeral.Ends rest` says that `rest` does not begin with a digit, a point or the letter of an
exponent. White space, a comma, a bracket and the end of the text are all of this kind.

* `Token.cut_int` — the decimal text of an integer of 64 bits is read as that integer, and as no
  integer at all if it has more (`Token.cut_ofInt`).
* `Token.cut_real` — the text of a double is read as that double, provided that it is when it
  stands alone. The proviso is `Number.Stable`. That it holds of every finite double is a matter of
  rounding, and not claimed here; what is proved is that it carries over from a lone number to a
  number anywhere in a text.

For a double nothing is assumed about the digits that are chosen for it. `Numeral.scan_append` says
that a scan which reaches the end of a text takes the same course when more text follows; so the
reading of the lone number is all there is to know.
-/

namespace Telemetry

namespace Numeral

/-- The text does not go on with anything that could belong to a numeral. -/
def Ends (rest : List UInt8) : Prop :=
  ∀ b, rest.head? = some b →
    Ascii.isDigit b = false ∧ b ≠ '.'.toUInt8 ∧ b ≠ 'e'.toUInt8 ∧ b ≠ 'E'.toUInt8

theorem ends_nil : Ends [] := by
  intro b h
  exact absurd h (by simp)

/-- The text does not go on with a digit. -/
def Halts (rest : List UInt8) : Prop :=
  ∀ b, rest.head? = some b → Ascii.isDigit b = false

theorem Ends.halts {rest : List UInt8} (h : Ends rest) : Halts rest :=
  fun b hb => (h b hb).1

theorem Halts.notDigit {rest : List UInt8} (h : Halts rest) :
    rest.takeWhile Ascii.isDigit = [] ∧ rest.dropWhile Ascii.isDigit = rest := by
  cases rest with
  | nil => exact ⟨rfl, rfl⟩
  | cons b rest =>
    rw [List.takeWhile_cons, List.dropWhile_cons, h b rfl]
    exact ⟨rfl, rfl⟩

/-- What does not begin with a byte of a numeral does not begin with it in front of `rest`. -/
theorem Ends.head?_append_ne {bytes rest : List UInt8} (hends : Ends rest) {b : UInt8}
    (hb : b = '.'.toUInt8 ∨ b = 'e'.toUInt8 ∨ b = 'E'.toUInt8) (h : bytes.head? ≠ some b) :
    (bytes ++ rest).head? ≠ some b := by
  cases bytes with
  | cons c bytes => exact h
  | nil =>
    intro hhead
    obtain ⟨-, hpoint, hsmall, hlarge⟩ := hends b hhead
    rcases hb with rfl | rfl | rfl
    · exact hpoint rfl
    · exact hsmall rfl
    · exact hlarge rfl

/-! ### What a scan finds -/

theorem scanWhole_eq_ok {bytes tail : List UInt8} {digits : List Nat} :
    scanWhole bytes = .ok (digits, tail) ↔
      takeDigits bytes = (digits, tail) ∧ digits ≠ [] ∧
        (digits.head? = some 0 → digits.length = 1) := by
  unfold scanWhole
  generalize takeDigits bytes = cut
  obtain ⟨ds, rest⟩ := cut
  -- no digit, a zero with more behind it, or digits as they should be
  match ds with
  | [] =>
    refine ⟨fun h => absurd h (by simp), ?_⟩
    rintro ⟨h, hne, -⟩
    exact absurd (Prod.mk.inj h).1.symm hne
  | 0 :: _ :: _ =>
    refine ⟨fun h => absurd h (by simp), ?_⟩
    rintro ⟨h, -, hzero⟩
    obtain ⟨rfl, rfl⟩ := Prod.mk.inj h
    exact absurd (hzero rfl) (by simp)
  | [0] | [_ + 1] | (_ + 1) :: _ :: _ =>
    constructor
    · intro h
      cases h
      simp
    · rintro ⟨h, -, -⟩
      exact congrArg Except.ok h

theorem scanDigits_eq_ok {bytes tail : List UInt8} {digits : List Nat} :
    scanDigits bytes = .ok (digits, tail) ↔ takeDigits bytes = (digits, tail) ∧ digits ≠ [] := by
  unfold scanDigits
  generalize takeDigits bytes = cut
  obtain ⟨ds, rest⟩ := cut
  cases ds with
  | nil =>
    refine ⟨fun h => absurd h (by simp), ?_⟩
    rintro ⟨h, hne⟩
    exact absurd (Prod.mk.inj h).1.symm hne
  | cons d ds =>
    constructor
    · intro h
      cases h
      simp
    · rintro ⟨h, -⟩
      exact congrArg Except.ok h

theorem scanFraction_eq_ok {bytes tail : List UInt8} {fraction : Option (List Nat)} :
    scanFraction bytes = .ok (fraction, tail) ↔
      (fraction = none ∧ tail = bytes ∧ bytes.head? ≠ some '.'.toUInt8) ∨
        ∃ digits more, fraction = some digits ∧ bytes = '.'.toUInt8 :: more ∧
          scanDigits more = .ok (digits, tail) := by
  constructor
  · intro h
    cases bytes with
    | nil =>
      cases h
      exact .inl ⟨rfl, rfl, by simp⟩
    | cons b bytes =>
      rw [scanFraction] at h
      -- after a point there must be digits
      by_cases hb : b = '.'.toUInt8
      · rw [if_pos hb] at h
        cases hdigits : scanDigits bytes with
        | error tear => rw [hdigits] at h; cases h
        | ok cut =>
          rw [hdigits] at h
          cases h
          exact .inr ⟨cut.1, bytes, rfl, by rw [hb], hdigits⟩
      · rw [if_neg hb] at h
        cases h
        exact .inl ⟨rfl, rfl, fun hhead => hb (Option.some.inj hhead)⟩
  · rintro (⟨rfl, rfl, hhead⟩ | ⟨digits, more, rfl, rfl, hdigits⟩)
    · -- nothing there, or something that is no point
      cases tail with
      | nil => rfl
      | cons b bytes =>
        rw [scanFraction, if_neg]
        rintro rfl
        exact hhead rfl
    · rw [scanFraction, if_pos rfl, hdigits]
      rfl

theorem scanExponent_eq_ok {bytes tail : List UInt8} {exponent : Option (Bool × List Nat)} :
    scanExponent bytes = .ok (exponent, tail) ↔
      (exponent = none ∧ tail = bytes ∧ bytes.head? ≠ some 'e'.toUInt8 ∧
        bytes.head? ≠ some 'E'.toUInt8) ∨
        ∃ b more digits, (b = 'e'.toUInt8 ∨ b = 'E'.toUInt8) ∧ bytes = b :: more ∧
          exponent = some ((scanSign more).1, digits) ∧
          scanDigits (scanSign more).2 = .ok (digits, tail) := by
  constructor
  · intro h
    cases bytes with
    | nil =>
      cases h
      exact .inl ⟨rfl, rfl, by simp, by simp⟩
    | cons b bytes =>
      rw [scanExponent] at h
      -- after the letter there may be a sign, and there must be digits
      by_cases hb : b = 'e'.toUInt8 ∨ b = 'E'.toUInt8
      · rw [if_pos hb] at h
        cases hdigits : scanDigits (scanSign bytes).2 with
        | error tear => simp only [hdigits] at h; cases h
        | ok cut =>
          simp only [hdigits] at h
          cases h
          exact .inr ⟨b, bytes, cut.1, hb, rfl, rfl, hdigits⟩
      · rw [if_neg hb] at h
        cases h
        exact .inl ⟨rfl, rfl, fun hhead => hb (.inl (Option.some.inj hhead)),
          fun hhead => hb (.inr (Option.some.inj hhead))⟩
  · rintro (⟨rfl, rfl, hsmall, hlarge⟩ | ⟨b, more, digits, hb, rfl, rfl, hdigits⟩)
    · cases tail with
      | nil => rfl
      | cons b bytes =>
        rw [scanExponent, if_neg]
        rintro (rfl | rfl)
        · exact hsmall rfl
        · exact hlarge rfl
    · rw [scanExponent, if_pos hb]
      simp only [hdigits]
      rfl

/-- A scan finds the three parts one behind the other. -/
theorem scan_eq_ok {negative : Bool} {bytes tail : List UInt8} {n : Numeral} :
    scan negative bytes = .ok (n, tail) ↔
      n.negative = negative ∧ ∃ bytes₁ bytes₂, scanWhole bytes = .ok (n.whole, bytes₁) ∧
        scanFraction bytes₁ = .ok (n.fraction, bytes₂) ∧
        scanExponent bytes₂ = .ok (n.exponent, tail) := by
  constructor
  · intro h
    unfold scan at h
    -- each part begins where the one before it has ended, and the first tear ends the scan
    cases hwhole : scanWhole bytes with
    | error tear => rw [hwhole] at h; cases h
    | ok cut =>
      obtain ⟨whole, bytes₁⟩ := cut
      simp only [hwhole, bind, Except.bind] at h
      cases hfraction : scanFraction bytes₁ with
      | error tear => rw [hfraction] at h; cases h
      | ok cut =>
        obtain ⟨fraction, bytes₂⟩ := cut
        simp only [hfraction] at h
        cases hexponent : scanExponent bytes₂ with
        | error tear => rw [hexponent] at h; cases h
        | ok cut =>
          simp only [hexponent] at h
          cases h
          exact ⟨rfl, bytes₁, bytes₂, rfl, hfraction, hexponent⟩
  · rintro ⟨rfl, bytes₁, bytes₂, hwhole, hfraction, hexponent⟩
    simp only [scan, hwhole, hfraction, hexponent, bind, Except.bind]
    rfl

/-! ### Scanning in front of more text -/

/-- A sign is looked for in the first byte alone. -/
theorem scanSign_append (c : UInt8) (bytes rest : List UInt8) :
    scanSign (c :: bytes ++ rest) =
      ((scanSign (c :: bytes)).1, (scanSign (c :: bytes)).2 ++ rest) := by
  rw [List.cons_append, scanSign, scanSign]
  split
  · rfl
  · split <;> rfl

theorem takeDigits_append {bytes rest : List UInt8} (hhalts : Halts rest) :
    takeDigits (bytes ++ rest) = ((takeDigits bytes).1, (takeDigits bytes).2 ++ rest) := by
  unfold takeDigits
  -- by induction on the bytes: the digits end before `rest` begins, or where it does
  induction bytes with
  | nil =>
    obtain ⟨htake, hdrop⟩ := hhalts.notDigit
    rw [List.nil_append, htake, hdrop]
    rfl
  | cons b bytes ih =>
    rw [Prod.mk.injEq] at ih ⊢
    rw [List.cons_append, List.takeWhile_cons, List.dropWhile_cons, List.takeWhile_cons,
      List.dropWhile_cons]
    cases Ascii.isDigit b with
    | true =>
      simp only [if_true, List.map_cons]
      exact ⟨congrArg _ ih.1, ih.2⟩
    | false => exact ⟨rfl, rfl⟩

section Append

variable {bytes rest tail : List UInt8} (hends : Ends rest)

include hends

theorem scanWhole_append {digits : List Nat} (h : scanWhole bytes = .ok (digits, tail)) :
    scanWhole (bytes ++ rest) = .ok (digits, tail ++ rest) := by
  obtain ⟨htake, hform⟩ := scanWhole_eq_ok.1 h
  refine scanWhole_eq_ok.2 ⟨?_, hform⟩
  rw [takeDigits_append hends.halts, htake]

theorem scanDigits_append {digits : List Nat} (h : scanDigits bytes = .ok (digits, tail)) :
    scanDigits (bytes ++ rest) = .ok (digits, tail ++ rest) := by
  obtain ⟨htake, hne⟩ := scanDigits_eq_ok.1 h
  refine scanDigits_eq_ok.2 ⟨?_, hne⟩
  rw [takeDigits_append hends.halts, htake]

theorem scanFraction_append {fraction : Option (List Nat)}
    (h : scanFraction bytes = .ok (fraction, tail)) :
    scanFraction (bytes ++ rest) = .ok (fraction, tail ++ rest) := by
  rcases scanFraction_eq_ok.1 h with ⟨rfl, rfl, hhead⟩ | ⟨digits, more, rfl, rfl, hdigits⟩
  · exact scanFraction_eq_ok.2 (.inl ⟨rfl, rfl, hends.head?_append_ne (.inl rfl) hhead⟩)
  · exact scanFraction_eq_ok.2 (.inr ⟨digits, more ++ rest, rfl, rfl,
      scanDigits_append hends hdigits⟩)

theorem scanExponent_append {exponent : Option (Bool × List Nat)}
    (h : scanExponent bytes = .ok (exponent, tail)) :
    scanExponent (bytes ++ rest) = .ok (exponent, tail ++ rest) := by
  rcases scanExponent_eq_ok.1 h with
    ⟨rfl, rfl, hsmall, hlarge⟩ | ⟨b, more, digits, hb, rfl, rfl, hdigits⟩
  · exact scanExponent_eq_ok.2 (.inl ⟨rfl, rfl,
      hends.head?_append_ne (.inr (.inl rfl)) hsmall,
      hends.head?_append_ne (.inr (.inr rfl)) hlarge⟩)
  · -- digits are due behind the letter, so something stands there to look for a sign in
    cases more with
    | nil =>
      obtain ⟨htake, hne⟩ := scanDigits_eq_ok.1 hdigits
      exact absurd (congrArg Prod.fst htake).symm hne
    | cons c more =>
      have hsign := scanSign_append c more rest
      refine scanExponent_eq_ok.2 (.inr ⟨b, c :: more ++ rest, digits, hb, rfl, ?_, ?_⟩)
      · rw [hsign]
      · rw [hsign]
        exact scanDigits_append hends hdigits

/-- **A numeral that fills a text is found again in front of more text.** -/
theorem scan_append {negative : Bool} {n : Numeral} (h : scan negative bytes = .ok (n, [])) :
    scan negative (bytes ++ rest) = .ok (n, rest) := by
  obtain ⟨hnegative, bytes₁, bytes₂, hwhole, hfraction, hexponent⟩ := scan_eq_ok.1 h
  exact scan_eq_ok.2 ⟨hnegative, bytes₁ ++ rest, bytes₂ ++ rest, scanWhole_append hends hwhole,
    scanFraction_append hends hfraction, scanExponent_append hends hexponent⟩

end Append

/-! ### What a scan leaves -/

section Suffix

variable {bytes tail : List UInt8}

theorem scanWhole_suffix {digits : List Nat} (h : scanWhole bytes = .ok (digits, tail)) :
    tail <:+ bytes ∧ (tail = [] → bytes.all Ascii.isDigit = true) := by
  obtain rfl : bytes.dropWhile Ascii.isDigit = tail := (Prod.mk.inj (scanWhole_eq_ok.1 h).1).2
  refine ⟨List.dropWhile_suffix _, ?_⟩
  -- if nothing is left behind the digits, then they are all of the text
  intro hnil
  have happend := List.takeWhile_append_dropWhile (p := Ascii.isDigit) (l := bytes)
  rw [hnil, List.append_nil] at happend
  rw [← happend]
  exact List.all_takeWhile

theorem scanDigits_suffix {digits : List Nat} (h : scanDigits bytes = .ok (digits, tail)) :
    tail <:+ bytes := by
  obtain rfl : bytes.dropWhile Ascii.isDigit = tail := (Prod.mk.inj (scanDigits_eq_ok.1 h).1).2
  exact List.dropWhile_suffix _

theorem scanSign_suffix (bytes : List UInt8) : (scanSign bytes).2 <:+ bytes := by
  cases bytes with
  | nil => exact List.suffix_refl _
  | cons b bytes =>
    rw [scanSign]
    split
    · exact List.suffix_cons _ _
    · split
      · exact List.suffix_cons _ _
      · exact List.suffix_refl _

theorem scanFraction_suffix {fraction : Option (List Nat)}
    (h : scanFraction bytes = .ok (fraction, tail)) :
    tail <:+ bytes ∧ (fraction = none → tail = bytes) := by
  rcases scanFraction_eq_ok.1 h with ⟨-, rfl, -⟩ | ⟨digits, more, rfl, rfl, hdigits⟩
  · exact ⟨List.suffix_refl _, fun _ => rfl⟩
  · exact ⟨(scanDigits_suffix hdigits).trans (List.suffix_cons _ _), by simp⟩

theorem scanExponent_suffix {exponent : Option (Bool × List Nat)}
    (h : scanExponent bytes = .ok (exponent, tail)) :
    tail <:+ bytes ∧ (exponent = none → tail = bytes) := by
  rcases scanExponent_eq_ok.1 h with ⟨-, rfl, -⟩ | ⟨b, more, digits, -, rfl, rfl, hdigits⟩
  · exact ⟨List.suffix_refl _, fun _ => rfl⟩
  · have hmore := (scanDigits_suffix hdigits).trans (scanSign_suffix more)
    exact ⟨hmore.trans (List.suffix_cons _ _), by simp⟩

/-- What a scan leaves is a rest of the text. When it leaves nothing and has found neither a
fraction nor an exponent, the text was all digits. -/
theorem scan_suffix {negative : Bool} {n : Numeral} (h : scan negative bytes = .ok (n, tail)) :
    tail <:+ bytes ∧
      (tail = [] → n.fraction = none → n.exponent = none → bytes.all Ascii.isDigit = true) := by
  obtain ⟨-, bytes₁, bytes₂, hwhole, hfraction, hexponent⟩ := scan_eq_ok.1 h
  obtain ⟨hsuffix₁, hall⟩ := scanWhole_suffix hwhole
  obtain ⟨hsuffix₂, hsame₂⟩ := scanFraction_suffix hfraction
  obtain ⟨hsuffix₃, hsame₃⟩ := scanExponent_suffix hexponent
  -- each part leaves a rest of what it was given
  refine ⟨(hsuffix₃.trans hsuffix₂).trans hsuffix₁, ?_⟩
  intro hnil hf he
  rw [hsame₃ he, hsame₂ hf] at hnil
  exact hall hnil

end Suffix

/-! ### The digits of a natural number -/

theorem isDigit_toUInt8 {c : Char} (h : c.isDigit = true) :
    Ascii.isDigit c.toUInt8 = true ∧ (c.toUInt8 - '0'.toUInt8).toNat = c.toNat - '0'.toNat := by
  have hbounds : 48 ≤ c.toNat ∧ c.toNat ≤ 57 := Char.isDigit_iff_toNat.1 h
  have hbyte : c.toUInt8.toNat = c.toNat := Ascii.toNat_toUInt8 (by omega)
  have hzero : '0'.toUInt8.toNat = 48 := by decide
  have hnine : '9'.toUInt8.toNat = 57 := by decide
  -- the digits are the same range in bytes as in characters
  have hle : '0'.toUInt8 ≤ c.toUInt8 := by
    rw [UInt8.le_iff_toNat_le, hzero, hbyte]
    exact hbounds.1
  constructor
  · simp only [Ascii.isDigit, Bool.and_eq_true, decide_eq_true_eq]
    refine ⟨hle, ?_⟩
    rw [UInt8.le_iff_toNat_le, hnine, hbyte]
    exact hbounds.2
  · rw [UInt8.toNat_sub_of_le _ _ hle, hbyte, hzero]
    rfl

/-- The values of characters that are decimal digits. -/
def digitValues (cs : List Char) : List Nat :=
  cs.map fun c => c.toNat - '0'.toNat

theorem takeDigits_map {cs : List Char} (h : ∀ c ∈ cs, c.isDigit = true) :
    takeDigits (cs.map Char.toUInt8) = (digitValues cs, []) := by
  unfold takeDigits digitValues
  -- by induction on the digits, of which all are taken
  induction cs with
  | nil => rfl
  | cons c cs ih =>
    obtain ⟨hdigit, hvalue⟩ := isDigit_toUInt8 (h c List.mem_cons_self)
    have htail := ih fun x hx => h x (List.mem_cons_of_mem _ hx)
    rw [Prod.mk.injEq] at htail ⊢
    rw [List.map_cons, List.takeWhile_cons, List.dropWhile_cons, hdigit]
    simp only [if_true, List.map_cons, hvalue]
    exact ⟨congrArg _ htail.1, htail.2⟩

theorem ofDigits_digitValues (cs : List Char) :
    ofDigits (digitValues cs) = Nat.ofDigitChars 10 cs 0 := by
  rw [ofDigits, digitValues, List.foldl_map, Nat.ofDigitChars_eq_foldl]
  simp only [Nat.mul_comm]

/-- The digits of a number have no leading zero. -/
theorem head?_digits_ne_zero {n : Nat} (hn : 0 < n) : (Decimal.digits n).head? ≠ some '0' := by
  unfold Decimal.digits
  induction n using Nat.strongRecOn with
  | _ n ih =>
    rcases Nat.lt_or_ge n 10 with hlt | hge
    · -- a number of one digit is its digit
      rw [Nat.toDigits_of_lt_base hlt, List.head?_cons]
      have hall : ∀ m < 10, 0 < m → some m.digitChar ≠ some '0' := by decide
      exact hall n hlt hn
    · have hne : Nat.toDigits 10 (n / 10) ≠ [] := Nat.toDigits_ne_nil
      -- the first digit is that of the number without its last digit
      rw [Nat.toDigits_of_base_le (by decide) hge, List.head?_append]
      have hhead := ih (n / 10) (by omega) (by omega)
      cases hd : Nat.toDigits 10 (n / 10) with
      | nil => exact absurd hd hne
      | cons c cs =>
        rw [hd] at hhead
        exact hhead

/-- The characters are a whole part: digits, of which a leading zero is the only one. -/
structure IsWhole (cs : List Char) : Prop where
  digits : ∀ c ∈ cs, c.isDigit = true
  ne_nil : cs ≠ []
  alone : cs.head? = some '0' → cs.length = 1

theorem isWhole_digits (n : Nat) : IsWhole (Decimal.digits n) where
  digits _ hc := Nat.isDigit_of_mem_toDigits (by decide) (by decide) hc
  ne_nil := Nat.toDigits_ne_nil
  alone h := by
    rcases Nat.eq_zero_or_pos n with rfl | hn
    · rfl
    · exact absurd h (head?_digits_ne_zero hn)

/-- A whole part is found in front of anything but a digit. -/
theorem scanWhole_map {cs : List Char} {rest : List UInt8} (h : IsWhole cs) (hhalts : Halts rest) :
    scanWhole (cs.map Char.toUInt8 ++ rest) = .ok (digitValues cs, rest) := by
  refine scanWhole_eq_ok.2 ⟨?_, ?_, ?_⟩
  · rw [takeDigits_append hhalts, takeDigits_map h.digits]
    rfl
  · rw [digitValues, Ne, List.map_eq_nil_iff]
    exact h.ne_nil
  · intro hhead
    rw [digitValues, List.head?_map] at hhead
    obtain ⟨c, hc, hvalue⟩ := Option.map_eq_some_iff.1 hhead
    -- a first digit of value zero is a leading zero
    have hbounds := Char.isDigit_iff_toNat.1 (h.digits c (List.mem_of_head? hc))
    have hcode : c.toNat = '0'.toNat := Nat.le_antisymm (Nat.le_of_sub_eq_zero hvalue) hbounds.1
    rw [Char.toNat_inj.1 hcode] at hc
    rw [digitValues, List.length_map]
    exact h.alone hc

/-- The digits of a number are a whole part, and all of it. -/
theorem scan_digits (negative : Bool) (n : Nat) :
    ∃ whole, ofDigits whole = n ∧
      scan negative ((Decimal.digits n).map Char.toUInt8) =
        .ok (⟨negative, whole, none, none⟩, []) := by
  have hvalue : ofDigits (digitValues (Decimal.digits n)) = n := by
    rw [ofDigits_digitValues]
    exact Nat.ofDigitChars_ten_toDigits
  -- the digits are a whole part with nothing behind it
  have hwhole := scanWhole_map (isWhole_digits n) ends_nil.halts
  rw [List.append_nil] at hwhole
  exact ⟨digitValues (Decimal.digits n), hvalue, scan_eq_ok.2 ⟨rfl, [], [], hwhole, rfl, rfl⟩⟩

theorem value_eq_int_iff {n : Numeral} {k : Int} : n.value = .ok (.int k) ↔ n.int? = some k := by
  rw [value]
  cases n.int? with
  | some i => simp
  | none => cases n.real? <;> simp

theorem value_whole {whole : List Nat} {k : Int} :
    value ⟨false, whole, none, none⟩ = .ok (.int k) ↔
      k = ofDigits whole ∧ ofDigits whole < words := by
  rw [value_eq_int_iff]
  simp [int?, eq_comm, and_comm]

theorem value_negative {whole : List Nat} {k : Int} :
    value ⟨true, whole, none, none⟩ = .ok (.int k) ↔
      k = -(ofDigits whole : Int) ∧ 0 < ofDigits whole ∧ ofDigits whole ≤ greatestBelowZero := by
  rw [value_eq_int_iff]
  simp [int?, eq_comm, and_comm]

end Numeral

/-! ### Numbers as tokens -/

namespace Token

/-- In front of anything that ends a numeral, the bytes are cut off as the number. -/
def CutsNumber (bytes : List UInt8) (n : Number) : Prop :=
  ∃ b tail, bytes = b :: tail ∧ isSpace b = false ∧
    ∀ rest, Numeral.Ends rest → cut b (tail ++ rest) = (.number (.ok n), rest)

theorem cut_minus (rest : List UInt8) : cut '-'.toUInt8 rest = cutNumber true rest := rfl

theorem ne_of_isDigit {b : UInt8} (h : Ascii.isDigit b = true) (x : UInt8)
    (hx : Ascii.isDigit x = false) : b ≠ x := by
  rintro rfl
  rw [h] at hx
  exact Bool.noConfusion hx

theorem cut_digit {b : UInt8} (h : Ascii.isDigit b = true) (rest : List UInt8) :
    cut b rest = cutNumber false (b :: rest) := by
  have hne := ne_of_isDigit h
  rw [cut, if_neg (hne _ (by decide)), if_neg (hne _ (by decide)), if_neg (hne _ (by decide)),
    if_neg (hne _ (by decide)), if_neg (hne _ (by decide)), if_neg (hne _ (by decide)),
    if_neg (hne _ (by decide)), if_neg (hne _ (by decide)), if_pos h]

theorem isSpace_digit {b : UInt8} (h : Ascii.isDigit b = true) : isSpace b = false := by
  have hne := ne_of_isDigit h
  simp [isSpace, hne 0x20 (by decide), hne 0x09 (by decide), hne 0x0A (by decide),
    hne 0x0D (by decide)]

/-- **The decimal text of an integer is cut off as a number:** as that integer if it has 64 bits,
and as no integer at all otherwise. -/
theorem cut_ofInt (n : Int) : ∃ (b : UInt8) (tail : List UInt8) (x : Except Fault Number),
    (Decimal.ofInt n).map Char.toUInt8 = b :: tail ∧ isSpace b = false ∧
      (∀ rest, Numeral.Ends rest → cut b (tail ++ rest) = (.number x, rest)) ∧
      ∀ k, x = .ok (.int k) ↔
        k = n ∧ -(Numeral.greatestBelowZero : Int) ≤ n ∧ n < (Numeral.words : Int) := by
  cases n with
  | ofNat n =>
    obtain ⟨whole, hvalue, hscan⟩ := Numeral.scan_digits false n
    show ∃ b tail x, (Decimal.digits n).map Char.toUInt8 = b :: tail ∧ _
    -- the first digit shows the reader that a number follows
    cases hd : Decimal.digits n with
    | nil => exact absurd hd Nat.toDigits_ne_nil
    | cons c cs =>
      have hc : c.isDigit = true := by
        refine Nat.isDigit_of_mem_toDigits (b := 10) (n := n) (by decide) (by decide) ?_
        show c ∈ Decimal.digits n
        rw [hd]
        exact List.mem_cons_self
      obtain ⟨hdigit, -⟩ := Numeral.isDigit_toUInt8 hc
      rw [hd, List.map_cons] at hscan
      refine ⟨c.toUInt8, cs.map Char.toUInt8, Numeral.value ⟨false, whole, none, none⟩, rfl,
        isSpace_digit hdigit, fun rest hends => ?_, fun k => ?_⟩
      · rw [cut_digit hdigit, cutNumber, ← List.cons_append, Numeral.scan_append hends hscan]
      · rw [Numeral.value_whole, hvalue]
        have hlow : -(Numeral.greatestBelowZero : Int) ≤ (n : Int) := by omega
        exact and_congr_right fun _ =>
          ⟨fun h => ⟨hlow, Int.ofNat_lt.2 h⟩, fun h => Int.ofNat_lt.1 h.2⟩
  -- the minus sign shows it here, and the digits are those of the magnitude
  | negSucc n =>
    obtain ⟨whole, hvalue, hscan⟩ := Numeral.scan_digits true (n + 1)
    refine ⟨'-'.toUInt8, (Decimal.digits (n + 1)).map Char.toUInt8,
      Numeral.value ⟨true, whole, none, none⟩, rfl, by decide, fun rest hends => ?_, fun k => ?_⟩
    · rw [cut_minus, cutNumber, Numeral.scan_append hends hscan]
    · rw [Numeral.value_negative, hvalue]
      have hnegative : -((n + 1 : Nat) : Int) = Int.negSucc n := rfl
      rw [hnegative]
      refine and_congr_right fun _ => ⟨fun h => ?_, fun h => ?_⟩ <;> omega

/-- **The decimal text of an integer of 64 bits is read as that integer.** -/
theorem cut_int {n : Int} (hlow : -(Numeral.greatestBelowZero : Int) ≤ n)
    (hhigh : n < (Numeral.words : Int)) :
    CutsNumber ((Number.int n).text.map Char.toUInt8) (.int n) := by
  obtain ⟨b, tail, x, hbytes, hspace, hcut, hvalue⟩ := cut_ofInt n
  obtain rfl := (hvalue n).2 ⟨rfl, hlow, hhigh⟩
  exact ⟨b, tail, hbytes, hspace, hcut⟩

end Token

/-! ### Doubles -/

namespace Decimal

open Float.Model in
theorem toNat_unpackExponent (x : Float) :
    (@UnpackedFloat.unpackExponent Format.binary64 x.toModel.toBits.toBitVec).toNat =
      x.toBits.toNat / Binary.leadingBit % 2048 := by
  show _ = x.toModel.toBits.toBitVec.toNat / Binary.leadingBit % 2048
  simp [UnpackedFloat.unpackExponent, Format.binary64, Nat.shiftRight_eq_div_pow,
    Binary.leadingBit]

open Float.Model in
/-- The doubles with a magnitude are the finite ones. -/
theorem isSome_binary? (x : Float) : (binary? x).isSome = x.isFinite := by
  have hexponent := toNat_unpackExponent x
  have hones : (-(BitVec.ofNat Format.binary64.exponentBits 1)).toNat = 2047 := by decide
  unfold Float.isFinite Float.Model.isFinite Float.Model.unpack UnpackedFloat.unpack binary?
  -- an exponent of ones marks infinities and what is not a number
  by_cases h : x.toBits.toNat / Binary.leadingBit % 2048 = 2047
  · have hvec : @UnpackedFloat.unpackExponent Format.binary64
        x.toModel.toBits.toBitVec = -1#_ :=
      BitVec.eq_of_toNat_eq (by rw [hexponent, h, hones])
    rw [if_pos h, if_pos hvec]
    split <;> rfl
  · have hvec : @UnpackedFloat.unpackExponent Format.binary64
        x.toModel.toBits.toBitVec ≠ -1#_ := by
      intro heq
      rw [heq, hones] at hexponent
      exact h hexponent.symm
    rw [if_neg h, if_neg hvec]
    -- all other doubles have a magnitude, whether or not they have the leading bit
    have hsome : ∀ {p : Prop} [Decidable p] (a b : Binary),
        (if p then some a else some b).isSome = true := by
      intro p _ a b
      split <;> rfl
    rw [hsome]
    by_cases hsmall : @UnpackedFloat.unpackExponent Format.binary64
        x.toModel.toBits.toBitVec = 0#_
    · rw [if_pos hsmall]
      by_cases hzero : @UnpackedFloat.unpackMantissa Format.binary64 x.toModel.toBits.toBitVec = 0#_
      · rw [dif_pos hzero]
        rfl
      · rw [dif_neg hzero]
        rfl
    · rw [if_neg hsmall]
      rfl

end Decimal

namespace Number

/-- The double is finite, and the text written for it is read back as the same double. -/
structure Stable (x : Float) : Prop where
  finite : x.isFinite = true
  reads_back : Codec.real.ofText (Codec.real.toText x) = .ok x

/-- The characters of the texts of finite doubles. -/
def IsNumeric (c : Char) : Prop :=
  c.isDigit = true ∨ c = '.' ∨ c = 'e' ∨ c = '+' ∨ c = '-'

theorem isNumeric_digits {n : Nat} : ∀ c ∈ Decimal.digits n, IsNumeric c :=
  fun _ hc => .inl (Nat.isDigit_of_mem_toDigits (by decide) (by decide) hc)

theorem isNumeric_ofInt {n : Int} : ∀ c ∈ Decimal.ofInt n, IsNumeric c := by
  intro c hc
  cases n with
  | ofNat n => exact isNumeric_digits c hc
  | negSucc n =>
    rcases List.mem_cons.1 hc with rfl | hc
    · exact .inr (.inr (.inr (.inr rfl)))
    · exact isNumeric_digits c hc

theorem isNumeric_replicate {k : Nat} : ∀ c ∈ List.replicate k '0', IsNumeric c := by
  intro c hc
  rw [(List.mem_replicate.1 hc).2]
  exact .inl (by decide)

theorem isNumeric_positional {ds : List Char} (h : ∀ c ∈ ds, IsNumeric c) (whole : Int) :
    (∀ c ∈ positional ds whole, IsNumeric c) ∧ '.' ∈ positional ds whole := by
  have hzero : IsNumeric '0' := .inl (by decide)
  unfold positional
  -- a zero and a point in front of the digits, or a point among or behind them
  split
  · refine ⟨?_, by simp⟩
    intro c hc
    simp only [List.mem_cons, List.mem_append] at hc
    rcases hc with rfl | rfl | hc | hc
    · exact hzero
    · exact .inr (.inl rfl)
    · exact isNumeric_replicate c hc
    · exact h c hc
  · refine ⟨?_, by simp⟩
    intro c hc
    simp only [List.mem_cons, List.mem_append] at hc
    rcases hc with (hc | hc) | rfl | hc
    · exact h c (List.mem_of_mem_take hc)
    · exact isNumeric_replicate c hc
    · exact .inr (.inl rfl)
    · split at hc
      · rw [List.mem_singleton.1 hc]
        exact hzero
      · exact h c (List.mem_of_mem_drop hc)

theorem isNumeric_exponential {ds : List Char} (h : ∀ c ∈ ds, IsNumeric c) (exponent : Int) :
    (∀ c ∈ exponential ds exponent, IsNumeric c) ∧ 'e' ∈ exponential ds exponent := by
  unfold exponential
  refine ⟨?_, by simp⟩
  intro c hc
  simp only [List.mem_append, List.mem_cons] at hc
  -- the first digit, the others behind a point, the letter, a plus sign or none, and the exponent
  rcases hc with ((hc | hc) | rfl | hc) | hc
  · exact h c (List.mem_of_mem_take hc)
  · split at hc
    · exact absurd hc (by simp)
    · rcases List.mem_cons.1 hc with rfl | hc
      · exact .inr (.inl rfl)
      · exact h c (List.mem_of_mem_drop hc)
  · exact .inr (.inr (.inl rfl))
  · split at hc
    · rw [List.mem_singleton.1 hc]
      exact .inr (.inr (.inr (.inl rfl)))
    · exact absurd hc (by simp)
  · exact isNumeric_ofInt c hc

/-- The text of a finite double is numeric, and shows that it is no integer. -/
theorem isNumeric_realText {x : Float} (h : x.isFinite = true) :
    (∀ c ∈ realText x, IsNumeric c) ∧ ('.' ∈ realText x ∨ 'e' ∈ realText x) := by
  rw [← Decimal.isSome_binary?] at h
  obtain ⟨b, hb⟩ := Option.isSome_iff_exists.1 h
  have hmagnitude : ∀ s : Decimal.Scientific, (∀ c ∈ magnitudeText s, IsNumeric c) ∧
      ('.' ∈ magnitudeText s ∨ 'e' ∈ magnitudeText s) := by
    intro s
    unfold magnitudeText
    simp only
    split
    · exact (isNumeric_positional isNumeric_digits _).imp_right .inl
    · exact (isNumeric_exponential isNumeric_digits _).imp_right .inr
  -- a minus sign in front changes nothing
  have hunsigned : ∀ cs : List Char, (∀ c ∈ cs, IsNumeric c) ∧ ('.' ∈ cs ∨ 'e' ∈ cs) →
      (∀ c ∈ (if Decimal.isNegative x then '-' :: cs else cs), IsNumeric c) ∧
        ('.' ∈ (if Decimal.isNegative x then '-' :: cs else cs) ∨
          'e' ∈ (if Decimal.isNegative x then '-' :: cs else cs)) := by
    intro cs hcs
    split
    · refine ⟨?_, hcs.2.imp (List.mem_cons_of_mem _) (List.mem_cons_of_mem _)⟩
      intro c hc
      rcases List.mem_cons.1 hc with rfl | hc
      · exact .inr (.inr (.inr (.inr rfl)))
      · exact hcs.1 c hc
    · exact hcs
  rw [realText, hb]
  refine hunsigned _ ?_
  -- zero has a text of its own
  split
  · refine ⟨?_, .inl (by decide)⟩
    intro c hc
    have hall : ∀ c ∈ ['0', '.', '0'], c.isDigit = true ∨ c = '.' := by simp
    exact (hall c hc).imp_right .inl
  · exact hmagnitude _

theorem isSpace_of_isNumeric {c : Char} (h : IsNumeric c) : Token.isSpace c.toUInt8 = false := by
  rcases h with h | rfl | rfl | rfl | rfl
  · exact Token.isSpace_digit (Numeral.isDigit_toUInt8 h).1
  all_goals decide

end Number

/-- A tree that is a number comes from a token that is this number. -/
theorem Raw.eq_of_value_number {fuel : Nat} {tokens rest : List Token} {n : Except Fault Number}
    (h : value fuel tokens = (.number n, rest)) : tokens = .number n :: rest := by
  match fuel, tokens with
  | 0, _ => exact absurd h (by simp [value, malformed])
  | _ + 1, [] => exact absurd h (by simp [value])
  | fuel + 1, token :: tokens =>
    -- arrays and objects give trees of their own, and other tokens no number
    cases token with
    | number m =>
      simp only [value, Prod.mk.injEq, Raw.number.injEq] at h
      rw [h.1, h.2]
    | openArray | openObject =>
      unfold value at h
      simp only at h
      split at h <;> exact absurd h (by simp)
    | _ => exact absurd h (by simp [value, malformed])

/-- A text that is read as a double holds one number, which is the double or an integer. -/
theorem Codec.eq_of_ofText_real {text : List UInt8} {x : Float}
    (h : Codec.real.ofText text = .ok x) :
    ∃ n, Token.ofText text = [.number (.ok n)] ∧
      (n = .real x ∨ ∃ i, n = .int i ∧ Float.ofInt i = x) := by
  unfold Codec.ofText at h
  generalize hraw : Raw.ofTokens (Token.ofText text) = cut at h
  obtain ⟨raw, rest⟩ := cut
  simp only at h
  cases hread : Codec.real.read .direct raw with
  | error f => rw [hread] at h; exact absurd h (by simp [bind, Except.bind])
  | ok y =>
    rw [hread] at h
    -- nothing may stand behind the number
    have hrest : rest = [] ∧ y = x := by
      cases rest with
      | nil => exact ⟨rfl, Except.ok.inj h⟩
      | cons t rest =>
        exact absurd h (by simp [bind, Except.bind, throw, throwThe, MonadExceptOf.throw])
    obtain ⟨rfl, rfl⟩ := hrest
    replace hread : readReal raw = .ok y := hread
    -- the reader of doubles takes integers too
    unfold readReal at hread
    split at hread
    · next i =>
      exact ⟨.int i, Raw.eq_of_value_number hraw, .inr ⟨i, rfl, Except.ok.inj hread⟩⟩
    · next z =>
      rw [← Except.ok.inj hread]
      exact ⟨.real z, Raw.eq_of_value_number hraw, .inl rfl⟩
    · exact absurd hread (by simp)

namespace Token

/-- A number that is cut off is the meaning of a numeral that is scanned. -/
theorem cutNumber_eq_number {negative : Bool} {bytes rest : List UInt8} {n : Except Fault Number} :
    cutNumber negative bytes = (.number n, rest) ↔
      ∃ numeral, Numeral.scan negative bytes = .ok (numeral, rest) ∧ numeral.value = n := by
  rw [cutNumber]
  constructor
  · intro h
    cases hscan : Numeral.scan negative bytes with
    | error tear => rw [hscan] at h; cases h
    | ok cut =>
      rw [hscan] at h
      cases h
      exact ⟨cut.1, rfl, rfl⟩
  · rintro ⟨numeral, hscan, rfl⟩
    rw [hscan]

theorem cutWord_ne_number {t : Token} (ht : ∀ n, t ≠ .number n) (word bytes rest : List UInt8)
    (n : Except Fault Number) : cutWord t word bytes ≠ (.number n, rest) := by
  -- a word is read to its end or torn, and neither is a number
  induction word generalizing bytes with
  | nil =>
    intro heq
    rw [cutWord] at heq
    exact ht n (Prod.mk.inj heq).1
  | cons w word ih =>
    cases bytes with
    | nil =>
      intro heq
      cases heq
    | cons b bytes =>
      rw [cutWord]
      split
      · exact ih bytes
      · intro heq
        cases heq

theorem cutText_ne_number (bytes rest : List UInt8) (n : Except Fault Number) :
    cutText bytes ≠ (.number n, rest) := by
  intro heq
  rw [cutText] at heq
  split at heq <;> cases heq

/-- What holds of every way in which `cut` can take off a token holds of what it does: the byte is a
token by itself, a text, a number or a word begins with it, or no token does. -/
theorem cut_cases {motive : Token × List UInt8 → Prop} {b : UInt8} {rest : List UInt8}
    (single : ∀ t : Token, (∀ n, t ≠ .number n) → motive (t, rest))
    (text : motive (cutText rest))
    (negative : b = '-'.toUInt8 → motive (cutNumber true rest))
    (number : Ascii.isDigit b = true → motive (cutNumber false (b :: rest)))
    (word : ∀ (t : Token) (word : List UInt8), (∀ n, t ≠ .number n) → motive (cutWord t word rest))
    (torn : motive (.torn .malformed, [])) : motive (cut b rest) := by
  have hsingle : ∀ {p : Prop} [Decidable p] {t : Token} {more : Token × List UInt8},
      (∀ n, t ≠ .number n) → motive more → motive (if p then (t, rest) else more) := by
    intro p _ t more ht hmore
    split
    · exact single t ht
    · exact hmore
  have hword : ∀ {p : Prop} [Decidable p] {t : Token} {w : List UInt8} {more : Token × List UInt8},
      (∀ n, t ≠ .number n) → motive more → motive (if p then cutWord t w rest else more) := by
    intro p _ t w more ht hmore
    split
    · exact word t w ht
    · exact hmore
  -- the tests in their order: six brackets and separators, a quote, a sign, a digit, three words
  rw [cut]
  refine hsingle nofun (hsingle nofun (hsingle nofun (hsingle nofun (hsingle nofun
    (hsingle nofun ?_)))))
  split
  · exact text
  split
  · next hminus => exact negative hminus
  split
  · next hdigit => exact number hdigit
  exact hword nofun (hword nofun (hword nofun torn))

/-- A token that is a number is cut off by the scanner for numbers, behind a minus sign or from
the first byte on. -/
theorem eq_of_cut_number {b : UInt8} {tail rest : List UInt8} {n : Except Fault Number}
    (h : cut b tail = (.number n, rest)) :
    (b = '-'.toUInt8 ∧ cutNumber true tail = (.number n, rest)) ∨
      (Ascii.isDigit b = true ∧ cutNumber false (b :: tail) = (.number n, rest)) := by
  revert h
  refine cut_cases (motive := fun cut => cut = (.number n, rest) → _ ∨ _) ?_ ?_ ?_ ?_ ?_ ?_
  · exact fun t ht h => absurd (Prod.mk.inj h).1 (ht n)
  · exact fun h => absurd h (cutText_ne_number tail rest n)
  · exact fun hminus h => .inl ⟨hminus, h⟩
  · exact fun hdigit h => .inr ⟨hdigit, h⟩
  · exact fun t word ht h => absurd h (cutWord_ne_number ht word tail rest n)
  · exact nofun

/-- A numeral that is found at the very end of a text is found in front of anything that does not
prolong it. -/
theorem cutsNumber_of_alone {b : UInt8} {tail : List UInt8} {n : Number}
    (hspace : isSpace b = false) (h : cut b tail = (.number (.ok n), [])) :
    CutsNumber (b :: tail) n := by
  -- what the scanner finds at the end of a text it finds in front of `rest` as well
  have hcut : ∀ (negative : Bool) (bytes rest : List UInt8), Numeral.Ends rest →
      cutNumber negative bytes = (.number (.ok n), []) →
      cutNumber negative (bytes ++ rest) = (.number (.ok n), rest) := by
    intro negative bytes rest hends halone
    obtain ⟨numeral, hscan, hvalue⟩ := cutNumber_eq_number.1 halone
    exact cutNumber_eq_number.2 ⟨numeral, Numeral.scan_append hends hscan, hvalue⟩
  refine ⟨b, tail, rfl, hspace, ?_⟩
  intro rest hends
  rcases eq_of_cut_number h with ⟨rfl, halone⟩ | ⟨hdigit, halone⟩
  · rw [cut_minus]
    exact hcut true tail rest hends halone
  · rw [cut_digit hdigit, ← List.cons_append]
    exact hcut false (b :: tail) rest hends halone

/-- The first token of a text without white space. -/
theorem cut_of_head? {b : UInt8} {tail : List UInt8} {t : Token} (hspace : isSpace b = false)
    (h : (ofText (b :: tail)).head? = some t) : ∃ rest, cut b tail = (t, rest) := by
  rw [ofText, List.length_cons, upTo, next?, List.dropWhile_cons, hspace] at h
  simp only [Bool.false_eq_true, if_false, List.head?_cons, Option.some.injEq] at h
  exact ⟨(cut b tail).2, by rw [← h]⟩

/-- An integer that fills a text consists of digits. -/
theorem digits_of_cutNumber_int {negative : Bool} {bytes : List UInt8} {i : Int}
    (h : cutNumber negative bytes = (.number (.ok (.int i)), [])) :
    bytes.all Ascii.isDigit = true := by
  obtain ⟨numeral, hscan, hvalue⟩ := cutNumber_eq_number.1 h
  have hint : numeral.int? = some i := Numeral.value_eq_int_iff.1 hvalue
  -- with a fraction or an exponent it would be a double
  have hparts : numeral.fraction = none ∧ numeral.exponent = none := by
    unfold Numeral.int? at hint
    split at hint
    · exact absurd hint (by simp)
    · next hnone =>
      simpa using hnone
  exact (Numeral.scan_suffix hscan).2 rfl hparts.1 hparts.2

/-- A text without white space that is cut into one number is that number to its last byte. -/
theorem cut_of_ofText {b : UInt8} {tail : List UInt8} {n : Number}
    (hspace : ∀ c ∈ b :: tail, isSpace c = false) (hlong : tail ≠ [])
    (h : ofText (b :: tail) = [.number (.ok n)]) : cut b tail = (.number (.ok n), []) := by
  have hnext : next? (b :: tail) = some (cut b tail) := by
    rw [next?, List.dropWhile_cons, hspace b List.mem_cons_self]
    rfl
  obtain ⟨c, more, rfl⟩ := List.exists_cons_of_ne_nil hlong
  rw [ofText, List.length_cons, upTo, hnext] at h
  generalize hcut : cut b (c :: more) = first at h ⊢
  obtain ⟨t, rest⟩ := first
  simp only [List.cons.injEq] at h
  obtain ⟨rfl, hrest⟩ := h
  -- what is left behind the number are bytes of the text
  have hsuffix : rest <:+ b :: c :: more := by
    have hscan : ∀ (negative : Bool) (bytes : List UInt8),
        cutNumber negative bytes = (.number (.ok n), rest) → rest <:+ bytes := by
      intro negative bytes hnumber
      obtain ⟨numeral, hscan, -⟩ := cutNumber_eq_number.1 hnumber
      exact (Numeral.scan_suffix hscan).1
    rcases eq_of_cut_number hcut with ⟨-, hnumber⟩ | ⟨-, hnumber⟩
    · exact (hscan _ _ hnumber).trans (List.suffix_cons _ _)
    · exact hscan _ _ hnumber
  cases rest with
  | nil => rfl
  | cons d rest =>
    -- a byte that is left over is no white space, so a second token would begin with it
    have hd : isSpace d = false := hspace d (hsuffix.subset List.mem_cons_self)
    rw [List.length_cons, upTo, next?, List.dropWhile_cons, hd] at hrest
    exact absurd hrest (by simp)

/-- **The text of a double is read as that double,** if it is when it stands alone. -/
theorem cut_real {x : Float} (h : Number.Stable x) :
    CutsNumber ((Number.real x).text.map Char.toUInt8) (.real x) := by
  obtain ⟨hnumeric, hmark⟩ := Number.isNumeric_realText h.finite
  have hread := h.reads_back
  have htoText : Codec.real.toText x = (Number.realText x).map Char.toUInt8 := rfl
  rw [htoText] at hread
  show CutsNumber ((Number.realText x).map Char.toUInt8) (.real x)
  -- there is no white space in the text
  have hspace : ∀ c ∈ (Number.realText x).map Char.toUInt8, isSpace c = false := by
    intro c hc
    obtain ⟨d, hd, rfl⟩ := List.mem_map.1 hc
    exact Number.isSpace_of_isNumeric (hnumeric d hd)
  -- a point or the letter of an exponent
  have hother : ∃ c ∈ (Number.realText x).map Char.toUInt8,
      Ascii.isDigit c = false ∧ c ≠ '-'.toUInt8 := by
    rcases hmark with hmark | hmark
    · exact ⟨_, List.mem_map_of_mem hmark, by decide, by decide⟩
    · exact ⟨_, List.mem_map_of_mem hmark, by decide, by decide⟩
  obtain ⟨n, htokens, hvalue⟩ := Codec.eq_of_ofText_real hread
  obtain ⟨other, hmem, hdigit, hminus⟩ := hother
  cases htext : (Number.realText x).map Char.toUInt8 with
  | nil => rw [htext] at hmem; exact absurd hmem (by simp)
  | cons b tail =>
    rw [htext] at hspace hmem htokens
    -- the first token is a number, so it begins like one
    have hfirst : b = '-'.toUInt8 ∨ Ascii.isDigit b = true := by
      obtain ⟨rest, hcut⟩ := cut_of_head? (hspace b List.mem_cons_self) (by rw [htokens]; rfl)
      exact (eq_of_cut_number hcut).imp And.left And.left
    -- the text has more than one byte, for neither a point nor a letter begins a number
    have hlong : tail ≠ [] := by
      rintro rfl
      obtain rfl : other = b := List.mem_singleton.1 hmem
      rcases hfirst with hfirst | hfirst
      · exact hminus hfirst
      · rw [hdigit] at hfirst
        exact absurd hfirst (by decide)
    have hcut := cut_of_ofText hspace hlong htokens
    rcases hvalue with rfl | ⟨i, rfl, -⟩
    · -- the number is the double, and what fills a text is cut off the same way inside one
      exact cutsNumber_of_alone (hspace b List.mem_cons_self) hcut
    · -- an integer has digits only
      exfalso
      rcases eq_of_cut_number hcut with ⟨rfl, hnumber⟩ | ⟨-, hnumber⟩
      · have hall := digits_of_cutNumber_int hnumber
        rcases List.mem_cons.1 hmem with rfl | hmem
        · exact hminus rfl
        · rw [List.all_eq_true.1 hall other hmem] at hdigit
          exact absurd hdigit (by decide)
      · have hall := digits_of_cutNumber_int hnumber
        rw [List.all_eq_true.1 hall other hmem] at hdigit
        exact absurd hdigit (by decide)

end Token

end Telemetry
