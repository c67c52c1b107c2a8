import Telemetry.Json.Codec

/-!
# Tags

Tags are a finite map from texts to texts. They are kept as a list whose keys strictly ascend (by
code points, which is the order of their UTF-8 bytes), so that two equal maps are equal values and
are written alike. Inserting under a key that is there replaces its value.
-/

namespace Telemetry

/-- A map from keys to values, in ascending order of the keys. -/
structure Tags where
  toList : List (String × String)
  ascending : toList.Pairwise fun a b => a.1 < b.1
  deriving DecidableEq

namespace Tags

/-- Puts a pair at its place among pairs with ascending keys. -/
def insertPair (key value : String) : List (String × String) → List (String × String)
  | [] => [(key, value)]
  | (k, v) :: rest =>
    if key < k then (key, value) :: (k, v) :: rest
    else if key = k then (key, value) :: rest
    else (k, v) :: insertPair key value rest

theorem mem_insertPair {key value : String} {pairs : List (String × String)}
    {pair : String × String} (h : pair ∈ insertPair key value pairs) :
    pair = (key, value) ∨ pair ∈ pairs := by
  induction pairs with
  | nil => simpa [insertPair] using h
  | cons kv rest ih =>
    obtain ⟨k, v⟩ := kv
    simp only [insertPair] at h
    split at h
    · simpa using h
    · split at h
      · simp only [List.mem_cons] at h ⊢
        exact h.imp_right Or.inr
      · simp only [List.mem_cons] at h ⊢
        rcases h with h | h
        · exact .inr (.inl h)
        · exact (ih h).imp_right Or.inr

theorem pairwise_insertPair (key value : String) {pairs : List (String × String)}
    (h : pairs.Pairwise fun a b => a.1 < b.1) :
    (insertPair key value pairs).Pairwise fun a b => a.1 < b.1 := by
  induction pairs with
  | nil => simp [insertPair]
  | cons kv rest ih =>
    obtain ⟨k, v⟩ := kv
    rw [List.pairwise_cons] at h
    simp only [insertPair]
    split
    · next hlt =>
      refine List.pairwise_cons.2 ⟨fun p hp => ?_, List.pairwise_cons.2 h⟩
      rcases List.mem_cons.1 hp with rfl | hp
      · exact hlt
      · exact String.lt_trans hlt (h.1 p hp)
    · next hge =>
      split
      · next heq =>
        subst heq
        exact List.pairwise_cons.2 h
      · next hne =>
        refine List.pairwise_cons.2 ⟨fun p hp => ?_, ih h.2⟩
        rcases mem_insertPair hp with rfl | hp
        · -- the key is neither before this one nor the same
          have hle := String.not_lt.1 hge
          by_cases hlt : k < key
          · exact hlt
          · exact absurd (String.le_antisymm (String.not_lt.1 hlt) hle) hne
        · exact h.1 p hp

def empty : Tags := ⟨[], .nil⟩

/-- The tags with `value` under `key`. -/
def insert (tags : Tags) (key value : String) : Tags :=
  ⟨insertPair key value tags.toList, pairwise_insertPair key value tags.ascending⟩

/-- The tags with further pairs put in one after the other. -/
def insertAll (tags : Tags) (pairs : List (String × String)) : Tags :=
  pairs.foldl (fun tags pair => tags.insert pair.1 pair.2) tags

/-- The tags of a list of pairs, of which the last with a key counts. -/
def ofList (pairs : List (String × String)) : Tags :=
  empty.insertAll pairs

def get? (tags : Tags) (key : String) : Option String :=
  tags.toList.lookup key

def isEmpty (tags : Tags) : Bool :=
  tags.toList.isEmpty

@[simp] theorem toList_empty : empty.toList = [] := rfl

@[simp] theorem toList_insert (tags : Tags) (key value : String) :
    (tags.insert key value).toList = insertPair key value tags.toList := rfl

@[simp] theorem insertAll_nil (tags : Tags) : tags.insertAll [] = tags := rfl

@[simp] theorem insertAll_cons (tags : Tags) (pair : String × String)
    (rest : List (String × String)) :
    tags.insertAll (pair :: rest) = (tags.insert pair.1 pair.2).insertAll rest := rfl

theorem ext {a b : Tags} (h : a.toList = b.toList) : a = b := by
  cases a
  cases b
  simpa using h

/-! ### JSON -/

/-- Reads the members of an object into tags. -/
def readMembers : Tags → List Raw.Member → Except Fault Tags
  | tags, [] => .ok tags
  | tags, (key, item) :: rest => do
    let key ← key
    let value ← Codec.readText item
    readMembers (tags.insert key value) rest

/-- Reads an object of texts. -/
def read : Raw → Except Fault Tags
  | .object members ending => do
    let tags ← readMembers empty members
    ending.used
    return tags
  | raw => .error (raw.mismatch .map)

/-- Tags as an object of texts, left out when there are none. -/
def codec : Codec Tags where
  read _ raw := read raw
  write tags := .object (tags.toList.map fun (key, value) => (key, .text value))
  absent := some empty
  omits := isEmpty

end Tags

end Telemetry
