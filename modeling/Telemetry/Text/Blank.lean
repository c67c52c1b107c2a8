/-!
# White space and trimming

A character is blank when Unicode gives it the property White_Space. Ids and configuration values
are trimmed of such characters at both ends and only there; `trim` is the whole operation, and
`isBlankText` says that nothing would be left of a text.
-/

namespace Telemetry.Text

/-- The twenty-five code points with the property White_Space. The separators U+001C to U+001F,
the zero-width space U+200B and the byte order mark U+FEFF are not among them. -/
def isBlank (c : Char) : Bool :=
  let n := c.toNat
  (0x09 ≤ n && n ≤ 0x0D) || n == 0x20 || n == 0x85 || n == 0xA0 || n == 0x1680 ||
    (0x2000 ≤ n && n ≤ 0x200A) || n == 0x2028 || n == 0x2029 || n == 0x202F ||
    n == 0x205F || n == 0x3000

-- eight below U+0100, fifteen from U+2000 to U+20FF, and U+1680 and U+3000
example : ((List.range 0x100).filter fun n => isBlank (Char.ofNat n)).length = 8 := by
  decide +kernel
example : ((List.range 0x100).filter fun n => isBlank (Char.ofNat (0x2000 + n))).length = 15 := by
  decide +kernel
example : isBlank '\u1680' ∧ isBlank '\u3000' := by decide

def trimStart (cs : List Char) : List Char :=
  cs.dropWhile isBlank

def trimEnd (cs : List Char) : List Char :=
  (trimStart cs.reverse).reverse

/-- Removes the blank characters at both ends and keeps those between. -/
def trim (cs : List Char) : List Char :=
  trimEnd (trimStart cs)

def isBlankText (text : String) : Bool :=
  text.toList.all isBlank

@[simp] theorem trim_nil : trim [] = [] := rfl

/-- Nothing is left at the front exactly of a text of blank characters. -/
theorem trimStart_eq_nil_iff {cs : List Char} : trimStart cs = [] ↔ cs.all isBlank = true := by
  induction cs with
  | nil => simp [trimStart]
  | cons c rest ih => by_cases h : isBlank c <;> simp_all [trimStart]

/-- What is left at the front does not begin with a blank character. -/
theorem isBlank_of_mem_trimStart_head {cs : List Char} {c : Char} {rest : List Char}
    (h : trimStart cs = c :: rest) : isBlank c = false := by
  induction cs with
  | nil => simp [trimStart] at h
  | cons d ds ih =>
    by_cases hd : isBlank d = true
    · exact ih (by simpa [trimStart, hd] using h)
    · simp [trimStart, hd] at h
      exact h.1 ▸ Bool.eq_false_iff.2 hd

/-- Trimming leaves nothing exactly of a text of blank characters. -/
theorem trim_eq_nil_iff {cs : List Char} : trim cs = [] ↔ cs.all isBlank = true := by
  constructor
  · intro h
    by_cases hs : trimStart cs = []
    · exact trimStart_eq_nil_iff.1 hs
    · obtain ⟨c, rest, hc⟩ := List.exists_cons_of_ne_nil hs
      have hblank := isBlank_of_mem_trimStart_head hc
      simp only [trim, trimEnd, hc, List.reverse_eq_nil_iff] at h
      have := trimStart_eq_nil_iff.1 h
      simp [hblank] at this
  · intro h
    rw [trim, trimStart_eq_nil_iff.2 h]
    rfl

/-- Blank characters at the front are removed up to the first other character. -/
theorem trimStart_append {before cs : List Char} (hbefore : before.all isBlank = true)
    (hhead : ∀ c, cs.head? = some c → isBlank c = false) : trimStart (before ++ cs) = cs := by
  rw [trimStart, List.dropWhile_append_of_pos (List.all_eq_true.mp hbefore)]
  cases cs with
  | nil => rfl
  | cons c rest => rw [List.dropWhile_cons_of_neg (by simp [hhead c rfl])]

/-- **Trimming** gives back a text from among blank characters, if it has none at its own ends. -/
theorem trim_append {before cs after : List Char} (hbefore : before.all isBlank = true)
    (hafter : after.all isBlank = true) (hhead : ∀ c, cs.head? = some c → isBlank c = false)
    (hlast : ∀ c, cs.getLast? = some c → isBlank c = false) :
    trim (before ++ (cs ++ after)) = cs := by
  by_cases hcs : cs = []
  · subst hcs
    refine trim_eq_nil_iff.mpr ?_
    rw [List.nil_append, List.all_append, hbefore, hafter]
    rfl
  · have hfront : trimStart (before ++ (cs ++ after)) = cs ++ after := by
      refine trimStart_append hbefore fun c hc => hhead c ?_
      rw [← hc, List.head?_append, List.head?_eq_some_head hcs]
      rfl
    have hback : trimStart (after.reverse ++ cs.reverse) = cs.reverse := by
      refine trimStart_append ?_ fun c hc => hlast c ?_
      · rw [List.all_reverse, hafter]
      · rw [← hc, List.head?_reverse]
    rw [trim, hfront, trimEnd, List.reverse_append, hback, List.reverse_reverse]

/-! ### What trimming keeps -/

/-- The text neither begins nor ends with a blank character. -/
structure Tight (cs : List Char) : Prop where
  head : ∀ c, cs.head? = some c → isBlank c = false
  last : ∀ c, cs.getLast? = some c → isBlank c = false

theorem tight_iff {cs : List Char} :
    Tight cs ↔ (cs.head?.all fun c => !isBlank c) ∧ (cs.getLast?.all fun c => !isBlank c) := by
  constructor
  · rintro ⟨hhead, hlast⟩
    constructor
    · cases h : cs.head? with
      | none => rfl
      | some c => simp [hhead c h]
    · cases h : cs.getLast? with
      | none => rfl
      | some c => simp [hlast c h]
  · rintro ⟨hhead, hlast⟩
    exact ⟨fun c hc => by simpa [hc] using hhead, fun c hc => by simpa [hc] using hlast⟩

instance (cs : List Char) : Decidable (Tight cs) :=
  decidable_of_iff _ tight_iff.symm

theorem head?_trimStart {cs : List Char} {c : Char} (h : (trimStart cs).head? = some c) :
    isBlank c = false := by
  obtain ⟨rest, hrest⟩ := List.head?_eq_some_iff.mp h
  exact isBlank_of_mem_trimStart_head hrest

/-- A text is what is left of it between blank characters, and what is left is tight. -/
theorem exists_padding (cs : List Char) :
    ∃ before after, before.all isBlank = true ∧ after.all isBlank = true ∧
      cs = before ++ (trim cs ++ after) ∧ Tight (trim cs) := by
  have hfront : cs = cs.takeWhile isBlank ++ trimStart cs := List.takeWhile_append_dropWhile.symm
  have hback : trimStart cs = trim cs ++ ((trimStart cs).reverse.takeWhile isBlank).reverse := by
    have h : (trimStart cs).reverse =
        (trimStart cs).reverse.takeWhile isBlank ++ trimStart (trimStart cs).reverse :=
      List.takeWhile_append_dropWhile.symm
    rw [trim, trimEnd, ← List.reverse_append, ← h, List.reverse_reverse]
  refine ⟨cs.takeWhile isBlank, ((trimStart cs).reverse.takeWhile isBlank).reverse,
    List.all_takeWhile, ?_, ?_, ?_, ?_⟩
  · rw [List.all_reverse, List.all_takeWhile]
  · rw [← hback]
    exact hfront
  · intro c hc
    have hfirst : (trimStart cs).head? = some c := by
      rw [hback, List.head?_append, hc]
      rfl
    exact head?_trimStart hfirst
  · intro c hc
    rw [trim, trimEnd, List.getLast?_reverse] at hc
    exact head?_trimStart hc

theorem mem_of_mem_trim {cs : List Char} {c : Char} (h : c ∈ trim cs) : c ∈ cs := by
  obtain ⟨before, after, -, -, hcs, -⟩ := exists_padding cs
  rw [hcs]
  exact List.mem_append_right _ (List.mem_append_left _ h)

theorem trimStart_append_cons {c : Char} (hc : isBlank c = false) (left right : List Char) :
    trimStart (left ++ c :: right) = trimStart left ++ c :: right := by
  rw [trimStart, List.dropWhile_append, List.dropWhile_cons_of_neg (by simp [hc])]
  split
  · next h => rw [trimStart, List.isEmpty_iff.mp h, List.nil_append]
  · rfl

/-- The blank characters about one that is not blank stay. -/
theorem trim_append_cons {c : Char} (hc : isBlank c = false) (left right : List Char) :
    trim (left ++ c :: right) = trimStart left ++ c :: trimEnd right := by
  rw [trim, trimStart_append_cons hc, trimEnd, List.reverse_append, List.reverse_cons,
    List.append_assoc, List.singleton_append, trimStart_append_cons hc, List.reverse_append,
    List.reverse_cons, List.reverse_reverse, List.append_assoc]
  rfl

theorem trim_trimStart (cs : List Char) : trim (trimStart cs) = trim cs := by
  have h : trimStart ([] ++ trimStart cs) = trimStart cs :=
    trimStart_append rfl fun c hc => head?_trimStart hc
  rw [trim, ← List.nil_append (trimStart cs), h, trim]

theorem trim_trimEnd (cs : List Char) : trim (trimEnd cs) = trim cs := by
  obtain ⟨before, after, hbefore, hafter, hcs, htight⟩ := exists_padding cs
  by_cases hnil : trim cs = []
  · rw [hnil, List.nil_append] at hcs
    have hall : cs.reverse.all isBlank = true := by
      rw [List.all_reverse, hcs, List.all_append, hbefore, hafter]
      rfl
    rw [trimEnd, trimStart_eq_nil_iff.mpr hall, hnil]
    rfl
  · -- what is behind the last character that is not blank is gone
    have hback : trimEnd cs = before ++ (trim cs ++ []) := by
      have hlast : ∀ c, ((trim cs).reverse ++ before.reverse).head? = some c →
          isBlank c = false := by
        intro c hc
        rw [List.head?_append, List.head?_reverse, List.getLast?_eq_some_getLast hnil] at hc
        exact htight.last c ((List.getLast?_eq_some_getLast hnil).trans hc)
      rw [trimEnd, hcs, List.reverse_append, List.reverse_append, List.append_assoc,
        trimStart_append (by rw [List.all_reverse, hafter]) hlast, List.reverse_append,
        List.reverse_reverse, List.reverse_reverse, List.append_nil, ← hcs]
    rw [hback, trim_append hbefore rfl htight.head htight.last]

end Telemetry.Text
