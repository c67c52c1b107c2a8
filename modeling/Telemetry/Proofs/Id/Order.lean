import Mathlib.Data.Ordering.Basic
import Mathlib.Data.Prod.Lex
import Telemetry.Proofs.Id.Text
import Telemetry.Proofs.Text.ByteOrder

/-!
# The order of ids

An id can be compared by its words, by its sixteen bytes from the left, and by the bytes of its
text. All three comparisons agree (`CorrelationId.compare_words`, `CorrelationId.compare_bytes`,
`CorrelationId.compare_text`), since each step from the words to the text keeps the order:

* the bytes of a word are its digits to the base 256, the highest first (`lt_of_bigEndian_lt`);
* the two hexadecimal digits of a byte sort like the byte (`Hex.ofBytes_lt`);
* the hyphens stand at the same places in every text (`Uuid.hyphenated_lt`).

What is compared from the left may be taken apart into pieces, as long as the pieces on the two
sides are equally long (`append_lt_append_iff`). So ids that are listed in order, each once, have
texts that are listed in order, each once: `CorrelationId.order_isomorphism`.
-/

namespace Telemetry

/-! ### Comparing from the left -/

/-- Behind beginnings of one length, what comes next counts only if the beginnings are equal. -/
theorem append_lt_append_iff {α : Type} [LT α] {a b c d : List α} (h : a.length = b.length) :
    a ++ c < b ++ d ↔ a < b ∨ (a = b ∧ c < d) := by
  -- Both beginnings lose their first element at once.
  induction a generalizing b with
  | nil =>
    obtain rfl : b = [] := List.length_eq_zero_iff.mp h.symm
    simp
  | cons x a ih =>
    obtain ⟨y, b, rfl⟩ := List.exists_cons_of_length_eq_add_one h.symm
    rw [List.cons_append, List.cons_append, List.cons_lt_cons_iff, List.cons_lt_cons_iff,
      ih (Nat.succ.inj h), List.cons.injEq]
    tauto

/-- **The greater number has the greater bytes**, if it is written with as many. -/
theorem CorrelationId.lt_of_bigEndian_lt {a b : List UInt8} (hlength : a.length = b.length)
    (h : bigEndian a < bigEndian b) : a < b := by
  induction a generalizing b with
  | nil =>
    obtain rfl : b = [] := List.length_eq_zero_iff.mp hlength.symm
    exact absurd h (Nat.lt_irrefl _)
  | cons x a ih =>
    obtain ⟨y, b, rfl⟩ := List.exists_cons_of_length_eq_add_one hlength.symm
    have htail : a.length = b.length := Nat.succ.inj hlength
    rw [bigEndian, bigEndian, htail] at h
    rw [List.cons_lt_cons_iff]
    rcases Nat.lt_trichotomy x.toNat y.toNat with hlt | heq | hgt
    · exact .inl (UInt8.lt_iff_toNat_lt.mpr hlt)
    · rw [heq] at h
      exact .inr ⟨UInt8.toNat_inj.mp heq, ih htail (Nat.lt_of_add_lt_add_left h)⟩
    · -- the bytes behind the first cannot make up for a smaller first byte
      refine absurd h (Nat.not_lt.mpr ?_)
      calc y.toNat * 256 ^ b.length + bigEndian b
          ≤ y.toNat * 256 ^ b.length + 256 ^ b.length :=
            Nat.add_le_add_left (Nat.le_of_lt (bigEndian_lt b)) _
        _ = (y.toNat + 1) * 256 ^ b.length := (Nat.succ_mul ..).symm
        _ ≤ x.toNat * 256 ^ b.length := Nat.mul_le_mul_right _ hgt
        _ ≤ x.toNat * 256 ^ b.length + bigEndian a := Nat.le_add_right ..

/-- Digits sort like their values. -/
theorem Hex.digit_lt {m n : Nat} (h : m < n) (hn : n < 16) : digit m < digit n := by
  have hall : ∀ n < 16, ∀ m < n, digit m < digit n := by decide
  exact hall n hn m h

theorem Hex.ofByte_lt {b c : UInt8} (h : b < c) : ofByte b < ofByte c := by
  have hlt : b.toNat < c.toNat := UInt8.lt_iff_toNat_lt.mp h
  have hc := c.toNat_lt
  rw [ofByte, ofByte, List.cons_lt_cons_iff, List.cons_lt_cons_iff]
  -- the first digit counts sixteen times as much and decides, unless it is the same
  by_cases hhigh : b.toNat / 16 = c.toNat / 16
  · exact .inr ⟨by rw [hhigh], .inl (digit_lt (by omega) (by omega))⟩
  · exact .inl (digit_lt (by omega) (by omega))

/-- **The digits of bytes** sort like the bytes. -/
theorem Hex.ofBytes_lt {a b : List UInt8} (h : a < b) : ofBytes a < ofBytes b := by
  have hlex : List.Lex (· < ·) a b := h
  -- By the cases of the order: one list ends, or the first bytes are equal, or they decide.
  induction hlex with
  | nil => exact .nil
  | cons hlex ih => exact List.append_left_lt (ih hlex)
  | @rel b rest c rest' hbyte =>
    have hlength : (ofByte b).length = (ofByte c).length := rfl
    exact (append_lt_append_iff hlength).mpr (.inl (ofByte_lt hbyte))

/-- **Hyphens do not disturb the order,** since all texts have them at the same places. -/
theorem Uuid.hyphenated_lt {a b : List Char} (ha : a.length = 32) (hb : b.length = 32)
    (h : a < b) : hyphenated a < hyphenated b := by
  obtain ⟨a₁, a₂, a₃, a₄, a₅, rfl, ha₁, ha₂, ha₃, ha₄, ha₅⟩ := exists_groups ha
  obtain ⟨b₁, b₂, b₃, b₄, b₅, rfl, hb₁, hb₂, hb₃, hb₄, hb₅⟩ := exists_groups hb
  rw [hyphenated_groups ha₁ ha₂ ha₃ ha₄, hyphenated_groups hb₁ hb₂ hb₃ hb₄]
  have hhyphen {c d : List Char} : '-' :: c < '-' :: d ↔ c < d := by
    rw [List.cons_lt_cons_iff]
    simp
  -- group by group both comparisons ask the same
  rw [append_lt_append_iff (ha₁.trans hb₁.symm), append_lt_append_iff (ha₂.trans hb₂.symm),
    append_lt_append_iff (ha₃.trans hb₃.symm), append_lt_append_iff (ha₄.trans hb₄.symm)] at h
  rwa [append_lt_append_iff (ha₁.trans hb₁.symm), hhyphen,
    append_lt_append_iff (ha₂.trans hb₂.symm), hhyphen,
    append_lt_append_iff (ha₃.trans hb₃.symm), hhyphen,
    append_lt_append_iff (ha₄.trans hb₄.symm), hhyphen]

namespace CorrelationId

/-! ### Three ways to compare ids -/

/-- The words as numbers, of which the low one counts first. -/
def words (id : CorrelationId) : Nat ×ₗ Nat :=
  toLex (id.low.toNat, id.high.toNat)

variable {a b : CorrelationId}

theorem eq_of_words (h : a.words = b.words) : a = b := by
  obtain ⟨hlow, hhigh⟩ := Prod.mk.inj (toLex_inj.mp h)
  cases a
  cases b
  rw [mk.injEq]
  exact ⟨UInt64.toNat_inj.mp hlow, UInt64.toNat_inj.mp hhigh⟩

theorem eq_of_byteList (h : a.byteList = b.byteList) : a = b := by
  have hbytes : a.toBytes = b.toBytes := Vector.toList_inj.mp h
  rw [← ofBytes_toBytes a, hbytes, ofBytes_toBytes]

theorem compares_word (v w : UInt64) : (compare v w).Compares v.toNat w.toNat := by
  change (compareOfLessAndEq v w).Compares v.toNat w.toNat
  rw [compareOfLessAndEq]
  -- three ways to compare words, which are those of their numbers
  split_ifs with hlt heq
  · exact UInt64.lt_iff_toNat_lt.mp hlt
  · exact congrArg UInt64.toNat heq
  · exact Nat.lt_of_le_of_ne (Nat.not_lt.mp fun h => hlt (UInt64.lt_iff_toNat_lt.mpr h))
      fun h => heq (UInt64.toNat_inj.mp h.symm)

/-- A comparison of first parts, and of second parts where the first are equal, is a comparison of
pairs. -/
theorem compares_then {α β : Type} [LT α] [LT β] {o o' : Ordering} {x x' : α} {y y' : β}
    (h : o.Compares x x') (h' : o'.Compares y y') :
    (o.then o').Compares (toLex (x, y)) (toLex (x', y')) := by
  cases o with
  | lt => exact Prod.Lex.toLex_lt_toLex.mpr (.inl h)
  | gt => exact Prod.Lex.toLex_lt_toLex.mpr (.inl h)
  | eq =>
    obtain rfl : x = x' := h
    cases o' with
    | lt => exact Prod.Lex.toLex_lt_toLex.mpr (.inr ⟨rfl, h'⟩)
    | eq => exact congrArg (fun y => toLex (x, y)) h'
    | gt => exact Prod.Lex.toLex_lt_toLex.mpr (.inr ⟨rfl, h'⟩)

/-- Ids are compared by their words. -/
theorem compare_words (a b : CorrelationId) : (compare a b).Compares a.words b.words :=
  compares_then (compares_word a.low b.low) (compares_word a.high b.high)

/-- Ids compare by a view of them as by another, if that keeps the order. -/
theorem compares_of_lt {α β : Type} [LT α] [LT β] {view : CorrelationId → α}
    (view' : CorrelationId → β) (hlt : ∀ a b, view a < view b → view' a < view' b)
    (heq : ∀ a b, view a = view b → a = b) {o : Ordering} (h : o.Compares (view a) (view b)) :
    o.Compares (view' a) (view' b) := by
  cases o with
  | lt => exact hlt a b h
  | eq => exact congrArg view' (heq a b h)
  | gt => exact hlt b a h

/-- The id with the lesser words has the lesser bytes, those of the low word being first. -/
theorem byteList_lt (a b : CorrelationId) (h : a.words < b.words) : a.byteList < b.byteList := by
  -- the number of a word decides about its bytes
  have hword {v w : UInt64} (hlt : v.toNat < w.toNat) : wordBytes v < wordBytes w := by
    refine lt_of_bigEndian_lt (by rw [length_wordBytes, length_wordBytes]) ?_
    rwa [bigEndian_wordBytes, bigEndian_wordBytes]
  rw [byteList, byteList, append_lt_append_iff (by rw [length_wordBytes, length_wordBytes])]
  -- the low word decides, and if it is the same the high one does
  rcases Prod.Lex.toLex_lt_toLex.mp h with hlow | ⟨hlow, hhigh⟩
  · exact .inl (hword hlow)
  · exact .inr ⟨congrArg wordBytes (UInt64.toNat_inj.mp hlow), hword hhigh⟩

/-- The id with the lesser bytes has the lesser text. -/
theorem text_lt (a b : CorrelationId) (h : a.byteList < b.byteList) :
    Utf8.ofString a.text < Utf8.ofString b.text := by
  -- the digits of all ids are equally many, so their hyphens stand at the same places
  have hlength (id : CorrelationId) : id.digits.length = 32 := by
    rw [digits, Hex.length_ofBytes, length_byteList]
    rfl
  have hdigits : Uuid.hyphenated a.digits < Uuid.hyphenated b.digits :=
    Uuid.hyphenated_lt (hlength a) (hlength b) (Hex.ofBytes_lt h)
  rw [Utf8.ofString, Utf8.ofString, text, text, String.toList_ofList, String.toList_ofList]
  exact Utf8.lex_encode hdigits

/-- **The bytes of ids compare like the ids.** -/
theorem compare_bytes (a b : CorrelationId) : (compare a b).Compares a.byteList b.byteList :=
  compares_of_lt byteList byteList_lt (fun _ _ => eq_of_words) (compare_words a b)

/-- **The texts of ids compare like the ids.** -/
theorem compare_text (a b : CorrelationId) :
    (compare a b).Compares (Utf8.ofString a.text) (Utf8.ofString b.text) :=
  compares_of_lt (fun id => Utf8.ofString id.text) text_lt (fun _ _ => eq_of_byteList)
    (compare_bytes a b)

/-! ### Lists of ids -/

theorem eq_of_compare (h : compare a b = .eq) : a = b := by
  have hwords := compare_words a b
  rw [h] at hwords
  exact eq_of_words hwords

theorem mem_insertSorted {id other : CorrelationId} {ids : List CorrelationId} :
    other ∈ insertSorted id ids ↔ other = id ∨ other ∈ ids := by
  induction ids with
  | nil => simp [insertSorted]
  | cons first ids ih =>
    rw [insertSorted]
    cases hcompare : compare id first with
    | lt => simp
    | eq =>
      -- an id that is there already is not put in again
      rw [eq_of_compare hcompare]
      simp
    | gt => simp only [List.mem_cons, ih, or_left_comm]

/-- The ids ascend, and none is there twice. -/
def Ascending (ids : List CorrelationId) : Prop :=
  ids.Pairwise fun a b => a.byteList < b.byteList

theorem ascending_insertSorted (id : CorrelationId) {ids : List CorrelationId}
    (h : Ascending ids) : Ascending (insertSorted id ids) := by
  induction ids with
  | nil => exact List.pairwise_singleton _ _
  | cons first ids ih =>
    obtain ⟨hfirst, hids⟩ := List.pairwise_cons.mp h
    have hbytes := compare_bytes id first
    rw [insertSorted]
    -- The id goes in front, or is there, or goes further down. What is in the rest then is greater
    -- than the first one, the new id included.
    cases hcompare : compare id first with
    | lt =>
      rw [hcompare] at hbytes
      refine List.pairwise_cons.mpr ⟨fun other hother => ?_, h⟩
      rcases List.mem_cons.mp hother with rfl | hmem
      · exact hbytes
      · exact List.lt_trans hbytes (hfirst other hmem)
    | eq => exact h
    | gt =>
      rw [hcompare] at hbytes
      refine List.pairwise_cons.mpr ⟨fun other hother => ?_, ih hids⟩
      rcases mem_insertSorted.mp hother with rfl | hmem
      · exact hbytes
      · exact hfirst other hmem

theorem mem_sortDistinct {id : CorrelationId} {ids : List CorrelationId} :
    id ∈ sortDistinct ids ↔ id ∈ ids := by
  induction ids with
  | nil => rfl
  | cons first ids ih =>
    rw [sortDistinct, List.foldr_cons, mem_insertSorted, List.mem_cons]
    exact or_congr_right ih

theorem ascending_sortDistinct (ids : List CorrelationId) : Ascending (sortDistinct ids) := by
  induction ids with
  | nil => exact .nil
  | cons first ids ih => exact ascending_insertSorted first ih

/-! ### Byte strings as ids -/

theorem ofSlice_eq_ok_iff {bytes : List UInt8} {id : CorrelationId} :
    ofSlice bytes = .ok id ↔
      ∃ raw : Vector UInt8 size, raw.toList = bytes ∧ id = ofBytes raw := by
  rw [ofSlice]
  constructor
  · intro h
    -- only sixteen bytes are taken, and they are taken as they are
    cases hraw : exactly? bytes with
    | none =>
      rw [hraw] at h
      cases h
    | some raw =>
      rw [hraw] at h
      cases h
      exact ⟨raw, (Uuid.exactly?_eq_some_iff.mp hraw).symm, rfl⟩
  · rintro ⟨raw, rfl, rfl⟩
    rw [exactly?_toList]

theorem ofSlice_eq_error_iff {bytes : List UInt8} {error : IdError} :
    ofSlice bytes = .error error ↔ bytes.length ≠ size ∧ error = .length bytes.length := by
  rw [ofSlice, ← exactly?_eq_none_iff]
  cases exactly? bytes with
  | none => simp [eq_comm]
  | some raw => simp

/-- **Ids, their bytes and their texts are one order.** Sixteen bytes and an id determine each
other, and only sixteen bytes make an id; of other byte strings the number of bytes is told. Ids
compare by their words as by their bytes and by the bytes of their texts. So the texts of ids that
are listed in order, each once, strictly ascend, and they are the texts of all that were given. -/
theorem order_isomorphism :
    (∀ bytes : Vector UInt8 size, (ofBytes bytes).toBytes = bytes) ∧
    (∀ id : CorrelationId, ofBytes id.toBytes = id) ∧
    (∀ bytes : List UInt8,
      (∀ id, ofSlice bytes = .ok id ↔
        ∃ raw : Vector UInt8 size, raw.toList = bytes ∧ id = ofBytes raw) ∧
      ((∃ id, ofSlice bytes = .ok id) ↔ bytes.length = 16) ∧
      ∀ error, ofSlice bytes = .error error ↔
        bytes.length ≠ 16 ∧ error = .length bytes.length) ∧
    (∀ a b : CorrelationId,
      (compare a b).Compares (toLex (a.low.toNat, a.high.toNat))
        (toLex (b.low.toNat, b.high.toNat)) ∧
      (compare a b).Compares a.toBytes.toList b.toBytes.toList ∧
      (compare a b).Compares (Utf8.ofString a.text) (Utf8.ofString b.text)) ∧
    ∀ ids : List CorrelationId,
      ((sortDistinct ids).map text).Pairwise
        (fun s t => Utf8.ofString s < Utf8.ofString t) ∧
      ∀ t, t ∈ (sortDistinct ids).map text ↔ t ∈ ids.map text := by
  refine ⟨toBytes_ofBytes, ofBytes_toBytes, fun bytes => ⟨fun id => ofSlice_eq_ok_iff, ?_,
    fun error => ofSlice_eq_error_iff⟩, fun a b => ⟨compare_words a b, compare_bytes a b,
    compare_text a b⟩, fun ids => ⟨?_, ?_⟩⟩
  · constructor
    · -- what makes an id is the list of a vector of sixteen bytes
      rintro ⟨id, h⟩
      obtain ⟨raw, rfl, -⟩ := ofSlice_eq_ok_iff.mp h
      exact Vector.length_toList
    · intro h
      exact ⟨_, ofSlice_eq_ok_iff.mpr ⟨⟨bytes.toArray, h⟩, rfl, rfl⟩⟩
  · rw [List.pairwise_map]
    exact (ascending_sortDistinct ids).imp fun {a b} h => text_lt a b h
  · intro t
    simp only [List.mem_map, mem_sortDistinct]

end CorrelationId

end Telemetry
