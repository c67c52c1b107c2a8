import Mathlib.Data.Nat.Digits.Defs
import Telemetry.Decimal.Signed

/-!
# What a signed decimal denotes

A text denotes an integer if it is at most one sign and then digits (`Denotes`). The reader takes
the digits one by one and keeps the number that they denote so far, which is the invariant of its
loop: it is always `number` of the digits that are behind, and never past the limit of the sign. As
the number of more digits is no less, a number that stays within the limit has stayed there all the
way, and the first digits that pass it decide the refusal. `Signed.accumulate_eq_ok_iff` and
`Signed.accumulate_eq_error_iff` say this of the loop, by induction on what is still to be read.

A text that is refused has one of five forms (`Refused`), each with its fault. Leading zeros do not
count, so texts of any length can be read.
-/

namespace Telemetry.Decimal

/-! ### Digits -/

def IsDigit (c : Char) : Prop :=
  '0' ≤ c ∧ c ≤ '9'

instance (c : Char) : Decidable (IsDigit c) :=
  inferInstanceAs (Decidable (_ ∧ _))

/-- The number that decimal digits denote, the last one being that of the ones. -/
def number (ds : List Char) : Nat :=
  Nat.ofDigits 10 (ds.reverse.map fun d => d.toNat - '0'.toNat)

@[simp] theorem number_nil : number [] = 0 := rfl

/-- A further digit makes the others count ten times as much. -/
theorem number_append_singleton (ds : List Char) (d : Char) :
    number (ds ++ [d]) = number ds * 10 + (d.toNat - '0'.toNat) := by
  rw [number, List.reverse_append, List.reverse_singleton, List.singleton_append, List.map_cons,
    Nat.ofDigits_cons, number]
  ring

theorem number_le_append (ds more : List Char) : number ds ≤ number (ds ++ more) := by
  induction more generalizing ds with
  | nil => rw [List.append_nil]
  | cons d more ih =>
    have hstep : number ds ≤ number (ds ++ [d]) := by
      rw [number_append_singleton]
      omega
    rw [List.append_cons]
    exact Nat.le_trans hstep (ih (ds ++ [d]))

theorem digit?_of_isDigit {c : Char} (h : IsDigit c) :
    digit? c = some (c.toNat - '0'.toNat) :=
  if_pos h

theorem digit?_of_not_isDigit {c : Char} (h : ¬ IsDigit c) : digit? c = none :=
  if_neg h

namespace Signed

theorem Fault.message_injective {fault other : Fault} (h : fault.message = other.message) :
    fault = other := by
  cases fault <;> cases other <;> first | rfl | exact absurd h (by decide)

/-! ### The loop -/

variable {limit : Nat} {beyond : Fault}

theorem accumulate_cons_of_isDigit {c : Char} (hc : IsDigit c) (front cs : List Char) :
    accumulate limit beyond (number front) (c :: cs) =
      if number (front ++ [c]) ≤ limit then accumulate limit beyond (number (front ++ [c])) cs
      else .error beyond := by
  rw [accumulate, digit?_of_isDigit hc, number_append_singleton]

theorem accumulate_cons_of_not_isDigit {c : Char} (hc : ¬ IsDigit c) (acc : Nat)
    (cs : List Char) : accumulate limit beyond acc (c :: cs) = .error .invalidDigit := by
  rw [accumulate, digit?_of_not_isDigit hc]

/-- **The loop succeeds** on digits that stay within the limit, with the number of all digits. -/
theorem accumulate_eq_ok_iff {front cs : List Char} (hfront : number front ≤ limit) {n : Nat} :
    accumulate limit beyond (number front) cs = .ok n ↔
      (∀ c ∈ cs, IsDigit c) ∧ number (front ++ cs) ≤ limit ∧ number (front ++ cs) = n := by
  -- The digits behind the loop move from `cs` to `front`, and the number so far is that of `front`.
  induction cs generalizing front with
  | nil =>
    rw [accumulate, Except.ok.injEq, List.append_nil]
    exact ⟨fun h => ⟨by simp, hfront, h⟩, fun h => h.2.2⟩
  | cons c cs ih =>
    rw [List.forall_mem_cons]
    by_cases hc : IsDigit c
    · rw [accumulate_cons_of_isDigit hc, List.append_cons front c cs]
      by_cases hlimit : number (front ++ [c]) ≤ limit
      · rw [if_pos hlimit, ih hlimit, and_iff_right hc]
      · -- the digit passes the limit: so do all digits together, which number no less
        rw [if_neg hlimit]
        refine iff_of_false nofun fun h => hlimit ?_
        exact Nat.le_trans (number_le_append _ cs) h.2.1
    · rw [accumulate_cons_of_not_isDigit hc]
      exact iff_of_false nofun fun h => hc h.1.1

/-- The loop meets a character that is no digit behind digits that stay within the limit. -/
def MeetsOther (limit : Nat) (front cs : List Char) : Prop :=
  ∃ ds c rest, cs = ds ++ c :: rest ∧ (∀ d ∈ ds, IsDigit d) ∧ ¬ IsDigit c ∧
    number (front ++ ds) ≤ limit

/-- The loop meets digits that pass the limit. -/
def PassesLimit (limit : Nat) (front cs : List Char) : Prop :=
  ∃ ds rest, cs = ds ++ rest ∧ (∀ d ∈ ds, IsDigit d) ∧ limit < number (front ++ ds)

/-- A digit that does not pass the limit decides nothing. -/
theorem meetsOther_cons {front cs : List Char} {c : Char} (hc : IsDigit c) :
    MeetsOther limit front (c :: cs) ↔ MeetsOther limit (front ++ [c]) cs := by
  constructor
  · rintro ⟨ds, other, rest, heq, hds, hother, hlimit⟩
    cases ds with
    -- `c` would itself be the character that is no digit
    | nil =>
      obtain ⟨rfl, -⟩ := List.cons.inj heq
      exact absurd hc hother
    | cons d ds =>
      obtain ⟨rfl, rfl⟩ := List.cons.inj heq
      rw [List.append_cons] at hlimit
      exact ⟨ds, other, rest, rfl, (List.forall_mem_cons.mp hds).2, hother, hlimit⟩
  · rintro ⟨ds, other, rest, rfl, hds, hother, hlimit⟩
    rw [← List.append_cons] at hlimit
    exact ⟨c :: ds, other, rest, rfl, List.forall_mem_cons.mpr ⟨hc, hds⟩, hother, hlimit⟩

theorem passesLimit_cons {front cs : List Char} {c : Char} (hc : IsDigit c)
    (hfront : number front ≤ limit) :
    PassesLimit limit front (c :: cs) ↔ PassesLimit limit (front ++ [c]) cs := by
  constructor
  · rintro ⟨ds, rest, heq, hds, hlimit⟩
    cases ds with
    -- no digits cannot pass the limit, for `front` does not
    | nil =>
      rw [List.append_nil] at hlimit
      exact absurd hfront (Nat.not_le.mpr hlimit)
    | cons d ds =>
      obtain ⟨rfl, rfl⟩ := List.cons.inj heq
      rw [List.append_cons] at hlimit
      exact ⟨ds, rest, rfl, (List.forall_mem_cons.mp hds).2, hlimit⟩
  · rintro ⟨ds, rest, rfl, hds, hlimit⟩
    rw [← List.append_cons] at hlimit
    exact ⟨c :: ds, rest, rfl, List.forall_mem_cons.mpr ⟨hc, hds⟩, hlimit⟩

/-- Digits that pass the limit leave no room for another character to be met first. -/
theorem not_meetsOther {front cs : List Char} (h : limit < number front) :
    ¬ MeetsOther limit front cs := by
  rintro ⟨ds, -, -, -, -, -, hlimit⟩ -- more digits only make the number greater
  exact absurd (Nat.le_trans (number_le_append front ds) hlimit) (Nat.not_le.mpr h)

/-- **The loop fails** at whatever comes first: a character that is no digit, or a digit that passes
the limit. -/
theorem accumulate_eq_error_iff {front cs : List Char} (hfront : number front ≤ limit)
    {fault : Fault} :
    accumulate limit beyond (number front) cs = .error fault ↔
      (MeetsOther limit front cs ∧ fault = .invalidDigit) ∨
        (PassesLimit limit front cs ∧ fault = beyond) := by
  induction cs generalizing front with
  | nil =>
    rw [accumulate]
    refine iff_of_false nofun ?_
    -- nothing is left that could be met, and what is behind has not passed the limit
    rintro (⟨⟨ds, c, rest, heq, -⟩, -⟩ | ⟨⟨ds, rest, heq, -, hlimit⟩, -⟩)
    · exact absurd heq.symm (by simp)
    · obtain ⟨rfl, -⟩ := List.append_eq_nil_iff.mp heq.symm
      rw [List.append_nil] at hlimit
      exact absurd hfront (Nat.not_le.mpr hlimit)
  | cons c cs ih =>
    by_cases hc : IsDigit c
    · rw [accumulate_cons_of_isDigit hc, meetsOther_cons hc, passesLimit_cons hc hfront]
      by_cases hlimit : number (front ++ [c]) ≤ limit
      · -- the digit stays within the limit and moves on both sides
        rw [if_pos hlimit, ih hlimit]
      · -- the loop stops at this digit, whatever comes behind it
        have hpassed : PassesLimit limit (front ++ [c]) cs :=
          ⟨[], cs, rfl, by simp, by rw [List.append_nil]; exact Nat.lt_of_not_le hlimit⟩
        have hother : ¬ MeetsOther limit (front ++ [c]) cs :=
          not_meetsOther (Nat.lt_of_not_le hlimit)
        rw [if_neg hlimit, Except.error.injEq]
        exact ⟨fun h => .inr ⟨hpassed, h.symm⟩,
          fun h => (h.resolve_left fun h => hother h.1).2.symm⟩
    · -- no digits come before the character
      have hmeets : MeetsOther limit front (c :: cs) :=
        ⟨[], c, cs, rfl, by simp, hc, by rwa [List.append_nil]⟩
      have hnot : ¬ PassesLimit limit front (c :: cs) := by
        rintro ⟨ds, rest, heq, hds, hlimit⟩
        cases ds with
        | nil =>
          rw [List.append_nil] at hlimit
          exact absurd hfront (Nat.not_le.mpr hlimit)
        | cons d ds =>
          obtain ⟨rfl, -⟩ := List.cons.inj heq
          exact hc (hds c List.mem_cons_self)
      rw [accumulate_cons_of_not_isDigit hc, Except.error.injEq]
      exact ⟨fun h => .inl ⟨hmeets, h.symm⟩, fun h => (h.resolve_right fun h => hnot h.1).2.symm⟩

/-! ### Signs -/

/-- The text is a sign, if it has one, and what comes behind it. -/
inductive Behind : (negative : Bool) → (body text : List Char) → Prop where
  | minus (body : List Char) : Behind true body ('-' :: body)
  | plus (body : List Char) : Behind false body ('+' :: body)
  | unsigned {c : Char} {rest : List Char} (hminus : c ≠ '-') (hplus : c ≠ '+') :
      Behind false (c :: rest) (c :: rest)

/-- An integer of the given sign. -/
def withSign (negative : Bool) (n : Nat) : Int :=
  if negative then -n else n

/-- The integer is one of 32 bits. -/
def InRange (k : Int) : Prop :=
  -2147483648 ≤ k ∧ k ≤ 2147483647

instance (k : Int) : Decidable (InRange k) :=
  inferInstanceAs (Decidable (_ ∧ _))

/-- The text is at most one sign and at least one digit, and denotes the integer. -/
def Denotes (text : List Char) (k : Int) : Prop :=
  ∃ negative body, Behind negative body text ∧ body ≠ [] ∧ (∀ c ∈ body, IsDigit c) ∧
    k = withSign negative (number body)

/-- Why a text is refused. Behind the sign there may be nothing, or a character that is no digit
behind digits that all stay in the range, or digits that leave the range. -/
inductive Refused : List Char → Fault → Prop where
  | empty : Refused [] .empty
  | signAlone {negative : Bool} {text : List Char} (h : Behind negative [] text) :
      Refused text .invalidDigit
  | noDigit {negative : Bool} {ds rest text : List Char} {c : Char}
      (h : Behind negative (ds ++ c :: rest) text) (hds : ∀ d ∈ ds, IsDigit d) (hc : ¬ IsDigit c)
      (hrange : ∀ front, front <+: ds → InRange (withSign negative (number front))) :
      Refused text .invalidDigit
  | tooLarge {ds rest text : List Char} (h : Behind false (ds ++ rest) text)
      (hds : ∀ d ∈ ds, IsDigit d) (hrange : ¬ InRange (withSign false (number ds))) :
      Refused text .tooLarge
  | tooSmall {ds rest text : List Char} (h : Behind true (ds ++ rest) text)
      (hds : ∀ d ∈ ds, IsDigit d) (hrange : ¬ InRange (withSign true (number ds))) :
      Refused text .tooSmall

/-- The greatest magnitude of a number of the given sign. -/
def limitOf (negative : Bool) : Nat :=
  if negative then 2147483648 else 2147483647

/-- The fault of a magnitude that is greater. -/
def beyondOf (negative : Bool) : Fault :=
  if negative then .tooSmall else .tooLarge

theorem inRange_iff {negative : Bool} {n : Nat} :
    InRange (withSign negative n) ↔ n ≤ limitOf negative := by
  cases negative <;> simp [InRange, withSign, limitOf]

theorem exists_behind {text : List Char} (h : text ≠ []) :
    ∃ negative body, Behind negative body text := by
  obtain ⟨c, rest, rfl⟩ := List.exists_cons_of_ne_nil h
  -- every character that is no sign begins the body, digit or not
  by_cases hminus : c = '-'
  · exact ⟨true, rest, hminus ▸ .minus rest⟩
  · by_cases hplus : c = '+'
    · exact ⟨false, rest, hplus ▸ .plus rest⟩
    · exact ⟨false, c :: rest, .unsigned hminus hplus⟩

/-- A text has one sign and one body. -/
theorem Behind.unique {negative other : Bool} {body text more : List Char}
    (h : Behind negative body text) (h' : Behind other more text) :
    other = negative ∧ more = body := by
  cases h <;> cases h' <;> first | exact ⟨rfl, rfl⟩ | contradiction

theorem Behind.ne_nil {negative : Bool} {body text : List Char} (h : Behind negative body text) :
    text ≠ [] := by
  cases h <;> exact List.cons_ne_nil _ _

/-- What is read of a text with a body: the digits, with the sign's own limit. -/
theorem read_eq {negative : Bool} {body text : List Char} (h : Behind negative body text) :
    read text =
      if body.isEmpty then .error .invalidDigit
      else (accumulate (limitOf negative) (beyondOf negative) (number []) body).map fun n =>
        Int32.ofInt (withSign negative n) := by
  have hdigits : read text = readDigits negative body := by
    cases h with
    | minus => rfl
    | plus => rfl
    | unsigned hminus hplus => rw [read, if_neg hminus, if_neg hplus]
  rw [hdigits, readDigits, magnitude, magnitude]
  -- With the sign fixed, limit and fault are those of the sign.
  cases body.isEmpty with
  | true => cases negative <;> rfl
  | false =>
    cases negative with
    | false =>
      show _ = (accumulate 2147483647 .tooLarge 0 body).map _
      cases accumulate 2147483647 .tooLarge 0 body <;> rfl
    | true =>
      show _ = (accumulate 2147483648 .tooSmall 0 body).map _
      cases accumulate 2147483648 .tooSmall 0 body <;> rfl

/-! ### Texts -/

theorem toInt_withSign {negative : Bool} {n : Nat} (h : n ≤ limitOf negative) :
    (Int32.ofInt (withSign negative n)).toInt = withSign negative n := by
  obtain ⟨hlow, hhigh⟩ := inRange_iff.mpr h
  exact Int32.toInt_ofInt_of_le hlow (Int.lt_of_le_of_lt hhigh (by decide))

/-- **A text is read as the integer that it denotes,** if that is one of 32 bits. -/
theorem read_eq_ok_iff {text : List Char} {n : Int32} :
    read text = .ok n ↔ Denotes text n.toInt := by
  by_cases hempty : text = []
  · subst hempty
    refine iff_of_false nofun ?_
    rintro ⟨negative, body, hbehind, -⟩
    exact hbehind.ne_nil rfl
  obtain ⟨negative, body, hbehind⟩ := exists_behind hempty
  have hloop : ∀ {n : Nat}, accumulate (limitOf negative) (beyondOf negative) (number []) body =
      .ok n ↔ (∀ c ∈ body, IsDigit c) ∧ number body ≤ limitOf negative ∧ number body = n :=
    accumulate_eq_ok_iff (Nat.zero_le _)
  rw [read_eq hbehind]
  constructor
  · -- from left to right the two failing ways are excluded first, the lone sign and the loop
    intro h
    by_cases hbody : body = []
    · rw [hbody] at h
      cases h
    · rw [if_neg (by simpa using hbody)] at h
      cases hread : accumulate (limitOf negative) (beyondOf negative) (number []) body with
      | error fault => rw [hread] at h; cases h
      | ok magnitude =>
        rw [hread] at h
        cases h
        obtain ⟨hdigits, hlimit, rfl⟩ := hloop.mp hread
        exact ⟨negative, body, hbehind, hbody, hdigits, toInt_withSign hlimit⟩
  · rintro ⟨other, more, hbehind', hbody, hdigits, hn⟩
    obtain ⟨rfl, rfl⟩ := hbehind.unique hbehind'
    -- an integer of 32 bits is within the limit of its sign
    have hlimit : number more ≤ limitOf other := by
      rw [← inRange_iff, ← hn]
      exact ⟨n.le_toInt, Int.le_of_lt_add_one n.toInt_lt⟩
    rw [if_neg (by simpa using hbody), hloop.mpr ⟨hdigits, hlimit, rfl⟩]
    show Except.ok (Int32.ofInt (withSign other (number more))) = _
    rw [← hn, Int32.ofInt_toInt]

/-- The forms of a refusal, by what the loop meets. -/
theorem refused_iff {negative : Bool} {body text : List Char} (h : Behind negative body text)
    (hbody : body ≠ []) {fault : Fault} :
    Refused text fault ↔
      (MeetsOther (limitOf negative) [] body ∧ fault = .invalidDigit) ∨
        (PassesLimit (limitOf negative) [] body ∧ fault = beyondOf negative) := by
  have hpasses : ∀ {ds : List Char}, ¬ InRange (withSign negative (number ds)) ↔
      limitOf negative < number ds := fun {ds} => by rw [inRange_iff, Nat.not_le]
  constructor
  · intro hrefused
    cases hrefused with
    | empty => exact absurd rfl h.ne_nil
    | signAlone h' => exact absurd (h.unique h').2.symm hbody
    -- the whole run of digits is in the range, being a prefix of itself
    | noDigit h' hds hc hrange =>
      obtain ⟨rfl, rfl⟩ := h.unique h'
      exact .inl ⟨⟨_, _, _, rfl, hds, hc, inRange_iff.mp (hrange _ (List.prefix_refl _))⟩, rfl⟩
    | tooLarge h' hds hrange =>
      obtain ⟨rfl, rfl⟩ := h.unique h'
      exact .inr ⟨⟨_, _, rfl, hds, hpasses.mp hrange⟩, rfl⟩
    | tooSmall h' hds hrange =>
      obtain ⟨rfl, rfl⟩ := h.unique h'
      exact .inr ⟨⟨_, _, rfl, hds, hpasses.mp hrange⟩, rfl⟩
  · rintro (⟨⟨ds, c, rest, rfl, hds, hc, hlimit⟩, rfl⟩ | ⟨⟨ds, rest, rfl, hds, hlimit⟩, rfl⟩)
    · refine .noDigit h hds hc ?_
      -- what stays within the limit has stayed there all the way
      rintro front ⟨more, rfl⟩
      exact inRange_iff.mpr (Nat.le_trans (number_le_append front more) hlimit)
    · -- which fault it is depends on the sign
      cases negative with
      | false => exact .tooLarge h hds (hpasses.mpr hlimit)
      | true => exact .tooSmall h hds (hpasses.mpr hlimit)

/-- **A text is refused** in the forms that there are, and in no other. -/
theorem read_eq_error_iff {text : List Char} {fault : Fault} :
    read text = .error fault ↔ Refused text fault := by
  by_cases hempty : text = []
  · subst hempty
    constructor
    · intro h
      cases h
      exact .empty
    · intro h
      cases h with
      | empty => rfl
      | signAlone h | noDigit h | tooLarge h | tooSmall h => exact absurd rfl h.ne_nil
  obtain ⟨negative, body, hbehind⟩ := exists_behind hempty
  rw [read_eq hbehind]
  by_cases hbody : body = []
  · subst hbody
    rw [List.isEmpty_nil, if_pos rfl, Except.error.injEq]
    constructor
    · rintro rfl
      exact .signAlone hbehind
    · intro h
      cases h with
      | empty => exact absurd rfl hempty
      | signAlone => rfl
      | noDigit => rfl
      | tooLarge h' hds hrange | tooSmall h' hds hrange =>
        -- there are no digits
        obtain ⟨rfl, hnil⟩ := hbehind.unique h'
        obtain ⟨rfl, -⟩ := List.append_eq_nil_iff.mp hnil
        exact absurd (by decide) hrange
  · -- with a body it is the loop that refuses
    have hloop : accumulate (limitOf negative) (beyondOf negative) (number []) body =
        .error fault ↔ Refused text fault := by
      rw [accumulate_eq_error_iff (Nat.zero_le _), refused_iff hbehind hbody]
    rw [if_neg (by simpa using hbody), ← hloop]
    cases accumulate (limitOf negative) (beyondOf negative) (number []) body <;>
      simp [Except.map]

end Signed

end Telemetry.Decimal
