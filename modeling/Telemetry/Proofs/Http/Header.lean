import Mathlib.Logic.Relation
import Telemetry.Http.Header

/-!
# Lists of headers

A header is looked up by its name, in letters of either case, and of several headers with one name
the first is found (`Header.find?_eq_some_iff`). Much about a list of headers is therefore of no
consequence: how the names are spelled, in what order headers of different names stand, what
repeats an earlier name, and all headers whose names nobody looks up.

`Header.Rearranges` is one change to a list that is of no consequence for the `names` that are
looked up, and `Header.Rearranged` is any number of such changes. A change keeps what is found under
each of the names (`Header.Rearranges.find?_eq`), and so do all of them together
(`Header.Rearranged.find?_eq`).
-/

namespace Telemetry

namespace Header

/-! ### What is found -/

/-- The value is that of the first header with the name. -/
def IsFirst (headers : List Header) (name : String) (value : List UInt8) : Prop :=
  ∃ before header after, headers = before ++ header :: after ∧ header.value = value ∧
    Ascii.sameName header.name name = true ∧
    ∀ earlier ∈ before, Ascii.sameName earlier.name name = false

/-- **The first header with a name is the one that is found.** -/
theorem find?_eq_some_iff {headers : List Header} {name : String} {value : List UInt8} :
    find? headers name = some value ↔ IsFirst headers name value := by
  rw [find?, Option.map_eq_some_iff]
  simp only [List.find?_eq_some_iff_append, Bool.not_eq_true']
  constructor
  · rintro ⟨header, ⟨hname, before, after, hsplit, hbefore⟩, hvalue⟩
    exact ⟨before, header, after, hsplit, hvalue, hname, hbefore⟩
  · rintro ⟨before, header, after, hsplit, hvalue, hname, hbefore⟩
    exact ⟨header, ⟨hname, before, after, hsplit, hbefore⟩, hvalue⟩

theorem find?_append (a b : List Header) (name : String) :
    find? (a ++ b) name = (find? a name).or (find? b name) := by
  rw [find?, find?, find?, List.find?_append, Option.map_or]

theorem find?_cons_of_same {header : Header} {name : String}
    (h : Ascii.sameName header.name name = true) (headers : List Header) :
    find? (header :: headers) name = some header.value := by
  rw [find?_cons, if_pos h]

theorem find?_cons_of_other {header : Header} {name : String}
    (h : Ascii.sameName header.name name = false) (headers : List Header) :
    find? (header :: headers) name = find? headers name := by
  rw [find?_cons, h]
  rfl

/-- Where there is a header with the name, one is found. -/
theorem isSome_find? {headers : List Header} {header : Header} {name : String}
    (hmem : header ∈ headers) (h : Ascii.sameName header.name name = true) :
    (find? headers name).isSome = true := by
  rw [find?, Option.isSome_map, List.find?_isSome]
  exact ⟨header, hmem, h⟩

/-! ### Changes of no consequence -/

/-- **One change to a list of headers** that is of no consequence for whoever looks up the names. -/
inductive Rearranges (names : List String) : List Header → List Header → Prop
  /-- A name is spelled with letters of another case. -/
  | recase (before after : List Header) {header header' : Header}
    (hname : Ascii.sameName header.name header'.name = true)
    (hvalue : header.value = header'.value) :
    Rearranges names (before ++ header :: after) (before ++ header' :: after)
  /-- Neighbours of different names change places. -/
  | exchange (before after : List Header) {a b : Header}
    (h : Ascii.sameName a.name b.name = false) :
    Rearranges names (before ++ a :: b :: after) (before ++ b :: a :: after)
  /-- A header comes in behind one of the same name. -/
  | again (before after : List Header) {header earlier : Header} (hmem : earlier ∈ before)
    (h : Ascii.sameName earlier.name header.name = true) :
    Rearranges names (before ++ after) (before ++ header :: after)
  /-- A header comes in that has none of the names. -/
  | insert (before after : List Header) {header : Header}
    (h : ∀ name ∈ names, Ascii.sameName header.name name = false) :
    Rearranges names (before ++ after) (before ++ header :: after)
  /-- A header goes that has none of the names. -/
  | remove (before after : List Header) {header : Header}
    (h : ∀ name ∈ names, Ascii.sameName header.name name = false) :
    Rearranges names (before ++ header :: after) (before ++ after)

/-- **Any number of changes**, one after the other. -/
def Rearranged (names : List String) : List Header → List Header → Prop :=
  Relation.ReflTransGen (Rearranges names)

variable {names : List String} {a b : List Header}

/-- A change keeps what is found under the names. -/
theorem Rearranges.find?_eq (h : Rearranges names a b) {name : String} (hname : name ∈ names) :
    find? a name = find? b name := by
  -- The list is the same in front of the change and behind it, so what is found is decided where
  -- the change is, or does not depend on it.
  cases h with
  | recase before after hsame hvalue =>
    rw [find?_append, find?_append, find?_cons, find?_cons, Ascii.sameName_congr hsame, hvalue]
  | @exchange before after a b hother =>
    rw [find?_append, find?_append]
    congr 1
    cases ha : Ascii.sameName a.name name with
    | false => rw [find?_cons_of_other ha, find?_cons, find?_cons, find?_cons_of_other ha]
    | true =>
      -- only one of the two has the name
      have hb : Ascii.sameName b.name name = false := by
        rw [Ascii.sameName_congr ha] at hother
        rw [Ascii.sameName_comm, hother]
      rw [find?_cons_of_same ha, find?_cons_of_other hb, find?_cons_of_same ha]
  | @again before after header earlier hmem hsame =>
    rw [find?_append, find?_append]
    cases hheader : Ascii.sameName header.name name with
    | false => rw [find?_cons_of_other hheader]
    | true =>
      -- the earlier one is found in either list
      have hearlier : Ascii.sameName earlier.name name = true := by
        rw [Ascii.sameName_congr hsame, hheader]
      obtain ⟨value, hvalue⟩ := Option.isSome_iff_exists.mp (isSome_find? hmem hearlier)
      rw [hvalue, Option.some_or, Option.some_or]
  -- a header with none of the names is never found
  | insert before after hother =>
    rw [find?_append, find?_append, find?_cons_of_other (hother name hname)]
  | remove before after hother =>
    rw [find?_append, find?_append, find?_cons_of_other (hother name hname)]

/-- **Rearranging headers keeps what is found under the names.** -/
theorem Rearranged.find?_eq (h : Rearranged names a b) {name : String} (hname : name ∈ names) :
    find? a name = find? b name := by
  -- by induction on the number of changes
  induction h with
  | refl => rfl
  | tail _ hstep ih => rw [ih, hstep.find?_eq hname]

end Header

end Telemetry
