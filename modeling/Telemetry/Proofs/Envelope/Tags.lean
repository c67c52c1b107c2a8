import Telemetry.Envelope.Tags
import Mathlib.Data.List.Nodup

/-!
# Tags and the order of their pairs

Tags are put together pair by pair, each pair being put into its place. As long as no key comes
twice, this keeps all pairs (`Tags.perm_insertAll`); and since the list of tags ascends, the pairs
determine it. So tags are the tags of their own pairs, taken in any order (`Tags.ofList_of_perm`).

Seen as a map, tags hold under each key what was put there last (`Tags.get?_insertAll`), and they
are determined by what they hold under each key (`Tags.eq_of_get?`).
-/

namespace Telemetry.Tags

theorem perm_insertPair {key value : String} {pairs : List (String × String)}
    (h : key ∉ pairs.map Prod.fst) :
    (insertPair key value pairs).Perm ((key, value) :: pairs) := by
  induction pairs with
  | nil => exact .refl _
  | cons pair pairs ih =>
    obtain ⟨k, v⟩ := pair
    rw [List.map_cons, List.mem_cons, not_or] at h
    rw [insertPair]
    split
    · exact .refl _
    · -- the key is not that of the pair, so it is put further down
      rw [if_neg h.1]
      exact ((ih h.2).cons _).trans (.swap ..)

theorem perm_insertAll {pairs : List (String × String)} {tags : Tags}
    (h : ((pairs ++ tags.toList).map Prod.fst).Nodup) :
    (tags.insertAll pairs).toList.Perm (pairs ++ tags.toList) := by
  induction pairs generalizing tags with
  | nil => exact .refl _
  | cons pair pairs ih =>
    rw [List.cons_append, List.map_cons, List.nodup_cons] at h
    have hkey : pair.1 ∉ tags.toList.map Prod.fst := fun hmem =>
      h.1 (by rw [List.map_append]; exact List.mem_append_right _ hmem)
    have hinsert : (tags.insert pair.1 pair.2).toList.Perm (pair :: tags.toList) :=
      perm_insertPair hkey
    -- the pair is put among the tags here, and stands before the other pairs there
    have hmiddle : (pairs ++ (tags.insert pair.1 pair.2).toList).Perm
        (pair :: (pairs ++ tags.toList)) :=
      (hinsert.append_left pairs).trans List.perm_middle
    rw [insertAll_cons]
    refine (ih ?_).trans hmiddle
    refine (hmiddle.map Prod.fst).nodup_iff.2 ?_
    rw [List.map_cons, List.nodup_cons]
    exact h

theorem nodup_keys (tags : Tags) : (tags.toList.map Prod.fst).Nodup := by
  refine List.pairwise_map.2 (tags.ascending.imp fun h heq => ?_)
  -- a key is not less than itself
  rw [heq] at h
  exact String.lt_irrefl _ h

/-- **Tags are their pairs, in any order.** -/
theorem ofList_of_perm {tags : Tags} {pairs : List (String × String)}
    (h : pairs.Perm tags.toList) : ofList pairs = tags := by
  have hnodup : ((pairs ++ empty.toList).map Prod.fst).Nodup := by
    rw [toList_empty, List.append_nil]
    exact (h.map Prod.fst).nodup_iff.2 tags.nodup_keys
  have hperm : (ofList pairs).toList.Perm tags.toList := by
    have hall := perm_insertAll hnodup
    rw [toList_empty, List.append_nil] at hall
    exact hall.trans h
  -- two ascending lists of the same pairs are one list
  refine ext (hperm.eq_of_pairwise ?_ (ofList pairs).ascending
    tags.ascending)
  intro a b _ _ hab hba
  exact absurd (String.lt_trans hab hba) (String.lt_irrefl _)

/-! ### Tags as a map -/

theorem lookup_cons (key : String) (pair : String × String) (pairs : List (String × String)) :
    (pair :: pairs).lookup key = if key = pair.1 then some pair.2 else pairs.lookup key := by
  rw [List.lookup_cons]
  by_cases h : key = pair.1
  · rw [beq_iff_eq.mpr h, if_pos h]
  · rw [beq_eq_false_iff_ne.mpr h, if_neg h]

theorem lookup_insertPair (key value other : String) (pairs : List (String × String)) :
    (insertPair key value pairs).lookup other =
      if other = key then some value else pairs.lookup other := by
  induction pairs with
  | nil => exact lookup_cons other (key, value) []
  | cons pair pairs ih =>
    rw [insertPair]
    by_cases hbefore : key < pair.1
    · -- the pair is put here, before one of a greater key
      rw [if_pos hbefore]
      exact lookup_cons other (key, value) (pair :: pairs)
    · rw [if_neg hbefore]
      by_cases hsame : key = pair.1
      · -- the value of the key is replaced
        rw [if_pos hsame, lookup_cons, lookup_cons]
        simp only [hsame]
        split <;> rfl
      · -- it is put further down; the key of the first pair is not `key`
        rw [if_neg hsame, lookup_cons, lookup_cons, ih]
        by_cases hother : other = key
        · rw [if_pos hother, if_pos hother, if_neg (hother ▸ hsame)]
        · rw [if_neg hother, if_neg hother]

theorem get?_insert (tags : Tags) (key value other : String) :
    (tags.insert key value).get? other = if other = key then some value else tags.get? other :=
  lookup_insertPair key value other tags.toList

/-- What pairs put under a key, in their order. -/
def valuesUnder (key : String) (pairs : List (String × String)) : List String :=
  (pairs.filter fun pair => pair.1 = key).map Prod.snd

theorem valuesUnder_cons_of_eq {key : String} {pair : String × String} (h : pair.1 = key)
    (pairs : List (String × String)) :
    valuesUnder key (pair :: pairs) = pair.2 :: valuesUnder key pairs := by
  rw [valuesUnder, List.filter_cons_of_pos (by simpa using h)]
  rfl

theorem valuesUnder_cons_of_ne {key : String} {pair : String × String} (h : pair.1 ≠ key)
    (pairs : List (String × String)) : valuesUnder key (pair :: pairs) = valuesUnder key pairs := by
  rw [valuesUnder, List.filter_cons_of_neg (by simpa using h)]
  rfl

/-- **The last value of a key counts,** and those that the tags had before count if there is
none. -/
theorem get?_insertAll (tags : Tags) (pairs : List (String × String)) (key : String) :
    (tags.insertAll pairs).get? key = (valuesUnder key pairs).getLast?.or (tags.get? key) := by
  induction pairs generalizing tags with
  | nil => rfl
  | cons pair pairs ih =>
    rw [insertAll_cons, ih, get?_insert]
    -- a pair of the key is put there first, and any later one takes its place
    by_cases hkey : pair.1 = key
    · rw [if_pos hkey.symm, valuesUnder_cons_of_eq hkey, List.getLast?_cons]
      cases (valuesUnder key pairs).getLast? <;> rfl
    · rw [if_neg (Ne.symm hkey), valuesUnder_cons_of_ne hkey]

theorem get?_ofList (pairs : List (String × String)) (key : String) :
    (ofList pairs).get? key = (valuesUnder key pairs).getLast? := by
  have hempty : empty.get? key = none := rfl
  rw [ofList, get?_insertAll, hempty, Option.or_none]

theorem mem_of_mem_valuesUnder {key value : String} {pairs : List (String × String)}
    (h : value ∈ valuesUnder key pairs) : (key, value) ∈ pairs := by
  obtain ⟨pair, hpair, rfl⟩ := List.mem_map.mp h
  obtain ⟨hmem, hkey⟩ := List.mem_filter.mp hpair
  rw [← of_decide_eq_true hkey]
  exact hmem

theorem mem_of_get? {tags : Tags} {key value : String} (h : tags.get? key = some value) :
    (key, value) ∈ tags.toList := by
  obtain ⟨before, after, heq, -⟩ := List.lookup_eq_some_iff.mp h
  rw [heq]
  exact List.mem_append_right _ List.mem_cons_self

theorem get?_of_mem {tags : Tags} {pair : String × String} (h : pair ∈ tags.toList) :
    tags.get? pair.1 = some pair.2 := by
  cases hget : tags.get? pair.1 with
  | none =>
    have hne := List.lookup_eq_none_iff.mp hget pair h
    exact absurd rfl (bne_iff_ne.mp hne)
  | some value =>
    -- no key comes twice
    have hsame := List.inj_on_of_nodup_map tags.nodup_keys (mem_of_get? hget) h rfl
    rw [← hsame]

/-- The tags of pairs hold nothing else. -/
theorem mem_of_mem_ofList {pairs : List (String × String)} {pair : String × String}
    (h : pair ∈ (ofList pairs).toList) : pair ∈ pairs := by
  have hget := get?_of_mem h
  rw [get?_ofList] at hget
  exact mem_of_mem_valuesUnder (List.mem_of_getLast? hget)

/-- **Tags are the values of their keys.** -/
theorem eq_of_get? {a b : Tags} (h : ∀ key, a.get? key = b.get? key) : a = b := by
  -- they have the same pairs, because a pair is what a key holds
  have hmem : ∀ pair, pair ∈ a.toList ↔ pair ∈ b.toList := fun pair =>
    ⟨fun hpair => mem_of_get? ((h pair.1).symm.trans (get?_of_mem hpair)),
      fun hpair => mem_of_get? ((h pair.1).trans (get?_of_mem hpair))⟩
  have hperm : b.toList.Perm a.toList :=
    (List.perm_ext_iff_of_nodup (.of_map _ b.nodup_keys) (.of_map _ a.nodup_keys)).mpr fun pair =>
      (hmem pair).symm
  rw [← ofList_of_perm hperm, ofList_of_perm (.refl b.toList)]

end Telemetry.Tags
