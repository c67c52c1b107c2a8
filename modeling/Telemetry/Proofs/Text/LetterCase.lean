import Telemetry.Text.Ascii
import Mathlib.Data.List.Forall2

/-!
# Texts in another case

Two texts are variants of each other if they have the same characters one after the other, up to
the case of ASCII letters. `CaseVariant` says this letter by letter and refers to no fold. A text
can be folded either way, to small letters or to capitals, and each of the two folds makes exactly
the variants equal (`caseVariant_iff_lowered`, `caseVariant_iff_raised`). This rests on what a fold
does to the number of one character: it moves the letters of one case by thirty-two places, onto
those of the other, and leaves all else where it is.
-/

namespace Telemetry.Ascii

/-! ### Letters -/

/-- The two forms of a letter. The small letters stand thirty-two places behind the capitals. -/
structure IsCapitalOf (capital small : Char) : Prop where
  first_le : 'A' ≤ capital
  le_last : capital ≤ 'Z'
  apart : small.toNat = capital.toNat + 32

/-- The two characters are the same, or the two forms of a letter. -/
def SameLetter (c d : Char) : Prop :=
  c = d ∨ IsCapitalOf c d ∨ IsCapitalOf d c

theorem isCapitalOf_iff {c d : Char} :
    IsCapitalOf c d ↔ 0x41 ≤ c.toNat ∧ c.toNat ≤ 0x5A ∧ d.toNat = c.toNat + 32 :=
  ⟨fun h => ⟨UInt32.le_iff_toNat_le.mp h.first_le, UInt32.le_iff_toNat_le.mp h.le_last, h.apart⟩,
    fun h => ⟨UInt32.le_iff_toNat_le.mpr h.1, UInt32.le_iff_toNat_le.mpr h.2.1, h.2.2⟩⟩

theorem toNat_toLower (c : Char) :
    c.toLower.toNat = if 0x41 ≤ c.toNat ∧ c.toNat ≤ 0x5A then c.toNat + 32 else c.toNat := by
  have hiff : (c.val ≥ 'A'.val ∧ c.val ≤ 'Z'.val) ↔ 0x41 ≤ c.toNat ∧ c.toNat ≤ 0x5A :=
    and_congr UInt32.le_iff_toNat_le UInt32.le_iff_toNat_le
  unfold Char.toLower
  split
  · next h =>
    obtain ⟨hlow, hhigh⟩ := hiff.mp h
    -- a capital is moved, and there is room above it
    have hshift : ('a'.val - 'A'.val).toNat = 32 := by decide
    rw [if_pos ⟨hlow, hhigh⟩, ← Char.toNat_val, UInt32.toNat_add, hshift, Char.toNat_val]
    omega
  · next h => rw [if_neg (mt hiff.mpr h)]

theorem toNat_toUpper (c : Char) :
    c.toUpper.toNat = if 0x61 ≤ c.toNat ∧ c.toNat ≤ 0x7A then c.toNat - 32 else c.toNat := by
  have hiff : ('a'.val ≤ c.val ∧ c.val ≤ 'z'.val) ↔ 0x61 ≤ c.toNat ∧ c.toNat ≤ 0x7A :=
    and_congr UInt32.le_iff_toNat_le UInt32.le_iff_toNat_le
  unfold Char.toUpper
  split
  · next h =>
    obtain ⟨hlow, hhigh⟩ := hiff.mp h
    -- words have no sign, so the way down is the rest of the way round
    have hshift : ('A'.val - 'a'.val).toNat = 2 ^ 32 - 32 := by decide
    rw [if_pos ⟨hlow, hhigh⟩, ← Char.toNat_val, UInt32.toNat_add, hshift, Char.toNat_val]
    omega
  · next h => rw [if_neg (mt hiff.mpr h)]

/-- Two characters are the same in small letters if they are forms of one letter. -/
theorem toLower_eq_iff {c d : Char} : c.toLower = d.toLower ↔ SameLetter c d := by
  rw [SameLetter, ← Char.toNat_inj, ← Char.toNat_inj, isCapitalOf_iff, isCapitalOf_iff,
    toNat_toLower, toNat_toLower]
  -- either of the two may be a capital, which is moved, or not
  split <;> split <;> omega

/-- Two characters are the same in capitals if they are forms of one letter. -/
theorem toUpper_eq_iff {c d : Char} : c.toUpper = d.toUpper ↔ SameLetter c d := by
  rw [SameLetter, ← Char.toNat_inj, ← Char.toNat_inj, isCapitalOf_iff, isCapitalOf_iff,
    toNat_toUpper, toNat_toUpper]
  -- the same with the small letters, which are moved down
  split <;> split <;> omega

/-! ### Texts -/

/-- The texts are the same up to the case of ASCII letters. -/
def CaseVariant (text name : String) : Prop :=
  List.Forall₂ SameLetter text.toList name.toList

theorem CaseVariant.refl (text : String) : CaseVariant text text :=
  List.forall₂_same.mpr fun _ _ => .inl rfl

/-- A fold that makes the two forms of a letter equal, and nothing else, makes the variants of a
text equal, and nothing else. -/
theorem caseVariant_iff_of_fold {fold : Char → Char}
    (h : ∀ {c d}, fold c = fold d ↔ SameLetter c d) {text name : String} :
    CaseVariant text name ↔
      String.ofList (text.toList.map fold) = String.ofList (name.toList.map fold) :=
  calc CaseVariant text name
    _ ↔ List.Forall₂ (fun c d => fold c = fold d) text.toList name.toList := by
      simp only [h]
      rfl
    _ ↔ text.toList.map fold = name.toList.map fold := by
      rw [← List.forall₂_eq_eq_eq, List.forall₂_map_left_iff, List.forall₂_map_right_iff]
    _ ↔ String.ofList (text.toList.map fold) = String.ofList (name.toList.map fold) :=
      String.ofList_inj.symm

/-- **Variants are the texts that are the same in small letters.** -/
theorem caseVariant_iff_lowered {text name : String} :
    CaseVariant text name ↔ lowered text = lowered name :=
  caseVariant_iff_of_fold toLower_eq_iff

/-- **Variants are the texts that are the same in capitals.** -/
theorem caseVariant_iff_raised {text name : String} :
    CaseVariant text name ↔ raised text = raised name :=
  caseVariant_iff_of_fold toUpper_eq_iff

/-- Each character of a variant is a form of one of the name's. -/
theorem CaseVariant.exists_sameLetter {text name : String} (h : CaseVariant text name) {c : Char}
    (hc : c ∈ text.toList) : ∃ d ∈ name.toList, SameLetter c d := by
  rw [CaseVariant] at h
  generalize text.toList = cs, name.toList = ds at h hc
  -- the characters stand one above the other
  induction h with
  | nil => cases hc
  | cons hletter _ ih =>
    rcases List.mem_cons.mp hc with rfl | hc
    · exact ⟨_, List.mem_cons_self, hletter⟩
    · obtain ⟨d, hd, hsame⟩ := ih hc
      exact ⟨d, List.mem_cons_of_mem _ hd, hsame⟩

end Telemetry.Ascii
