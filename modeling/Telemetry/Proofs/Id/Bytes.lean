import Mathlib.Algebra.Group.Nat.Defs
import Telemetry.Id.Basic

/-!
# Ids and their bytes

A word and its eight bytes are one number, written to the base 256 (`bigEndian`). Since a number has
one such writing of a given length (`bigEndian_injective`), going from bytes to words and back, or
from words to bytes and back, changes nothing; and so for an id and its sixteen bytes
(`CorrelationId.ofBytes_toBytes`, `CorrelationId.toBytes_ofBytes`).
-/

namespace Telemetry.CorrelationId

/-- The number that bytes write to the base 256, the most significant first. -/
def bigEndian : List UInt8 → Nat
  | [] => 0
  | b :: rest => b.toNat * 256 ^ rest.length + bigEndian rest

theorem bigEndian_lt (bytes : List UInt8) : bigEndian bytes < 256 ^ bytes.length := by
  induction bytes with
  | nil => decide
  | cons b rest ih =>
    have hb : b.toNat + 1 ≤ 256 := b.toNat_lt
    -- the rest is less than one unit of the first byte
    calc b.toNat * 256 ^ rest.length + bigEndian rest
        < b.toNat * 256 ^ rest.length + 256 ^ rest.length := Nat.add_lt_add_left ih _
      _ = (b.toNat + 1) * 256 ^ rest.length := (Nat.succ_mul ..).symm
      _ ≤ 256 * 256 ^ rest.length := Nat.mul_le_mul_right _ hb
      _ = 256 ^ (b :: rest).length := by rw [List.length_cons, Nat.pow_succ, Nat.mul_comm]

/-- A number is written in one way by a given number of bytes. -/
theorem bigEndian_injective {a b : List UInt8} (hlength : a.length = b.length)
    (h : bigEndian a = bigEndian b) : a = b := by
  induction a generalizing b with
  | nil => exact (List.length_eq_zero_iff.mp hlength.symm).symm
  | cons x a ih =>
    obtain ⟨y, b, rfl⟩ := List.exists_cons_of_length_eq_add_one hlength.symm
    have htail : a.length = b.length := Nat.succ.inj hlength
    have ha := bigEndian_lt a
    have hb := bigEndian_lt b
    rw [htail] at ha
    rw [bigEndian, bigEndian, htail] at h
    -- the first byte is the quotient, the rest is the remainder
    have hfirst : x.toNat = y.toNat :=
      calc x.toNat = (x.toNat * 256 ^ b.length + bigEndian a) / 256 ^ b.length := by
            rw [Nat.mul_comm, Nat.mul_add_div (Nat.pow_pos (by decide)), Nat.div_eq_of_lt ha,
              Nat.add_zero]
        _ = (y.toNat * 256 ^ b.length + bigEndian b) / 256 ^ b.length := by rw [h]
        _ = y.toNat := by
            rw [Nat.mul_comm, Nat.mul_add_div (Nat.pow_pos (by decide)), Nat.div_eq_of_lt hb,
              Nat.add_zero]
    rw [hfirst] at h
    rw [UInt8.toNat_inj.mp hfirst, ih htail (Nat.add_left_cancel h)]

/-- The remainders of a number write its end. -/
theorem bigEndian_remainders (n count : Nat) :
    bigEndian ((List.range count).reverse.map fun i => (n / 256 ^ i).toUInt8) =
      n % 256 ^ count := by
  induction count with
  | zero => exact (Nat.mod_one n).symm
  | succ count ih =>
    -- the remainder that is added stands in front, as the most significant
    rw [List.range_succ, List.reverse_concat, List.map_cons, bigEndian, ih, List.length_map,
      List.length_reverse, List.length_range, Nat.mod_pow_succ, Nat.add_comm,
      Nat.mul_comm (256 ^ count)]
    rfl

/-! ### Words -/

theorem toNat_foldl (bytes : List UInt8) (acc : UInt64) :
    (bytes.foldl (fun acc b => acc * 256 + b.toUInt64) acc).toNat =
      (acc.toNat * 256 ^ bytes.length + bigEndian bytes) % 2 ^ 64 := by
  -- The word so far varies: it counts 256 times as much with each byte behind it.
  induction bytes generalizing acc with
  | nil =>
    rw [List.length_nil, Nat.pow_zero, Nat.mul_one, bigEndian, Nat.add_zero,
      Nat.mod_eq_of_lt acc.toNat_lt]
    rfl
  | cons b rest ih =>
    have hstep : (acc * 256 + b.toUInt64).toNat = (acc.toNat * 256 + b.toNat) % 2 ^ 64 := by
      rw [UInt64.toNat_add, UInt64.toNat_mul, UInt8.toNat_toUInt64, Nat.mod_add_mod]
      rfl
    -- a word that overflows is reduced at each step; once at the end comes to the same
    calc ((b :: rest).foldl (fun acc b => acc * 256 + b.toUInt64) acc).toNat
        = ((acc.toNat * 256 + b.toNat) % 2 ^ 64 * 256 ^ rest.length + bigEndian rest) % 2 ^ 64 := by
          rw [List.foldl_cons, ih, hstep]
      _ = ((acc.toNat * 256 + b.toNat) * 256 ^ rest.length + bigEndian rest) % 2 ^ 64 := by
          rw [Nat.add_mod, Nat.mod_mul_mod, ← Nat.add_mod]
      _ = (acc.toNat * 256 ^ (b :: rest).length + bigEndian (b :: rest)) % 2 ^ 64 := by
          rw [bigEndian, List.length_cons,
            show 256 ^ (rest.length + 1) = 256 * 256 ^ rest.length from Nat.pow_succ',
            Nat.add_mul, Nat.mul_assoc, Nat.add_assoc]

/-- A word is the number of its eight bytes. -/
theorem toNat_word {bytes : List UInt8} (h : bytes.length = 8) :
    (word bytes).toNat = bigEndian bytes := by
  have hlt := bigEndian_lt bytes
  rw [h] at hlt
  rw [word, toNat_foldl]
  exact (congrArg (· % 2 ^ 64) (by simp)).trans (Nat.mod_eq_of_lt hlt)

theorem toUInt8_shiftRight (w : UInt64) {i : Nat} (hi : i < 8) :
    (w >>> (8 * i).toUInt64).toUInt8 = (w.toNat / 256 ^ i).toUInt8 := by
  -- a shift by less than the width of the word is not cut down
  have hshift : (8 * i).toUInt64.toNat % 64 = 8 * i := by
    rw [Nat.toUInt64, UInt64.toNat_ofNat']
    omega
  refine UInt8.toNat_inj.mp ?_
  rw [UInt64.toNat_toUInt8, UInt64.toNat_shiftRight, hshift, Nat.shiftRight_eq_div_pow,
    Nat.pow_mul]
  rfl

theorem wordBytes_eq (w : UInt64) :
    wordBytes w = (List.range 8).reverse.map fun i => (w.toNat / 256 ^ i).toUInt8 := by
  -- the shifts are the multiples of eight, the greatest first
  have hshifts : [56, 48, 40, 32, 24, 16, 8, 0] =
      (List.range 8).reverse.map fun i => (8 * i).toUInt64 := by decide
  rw [wordBytes, hshifts, List.map_map]
  refine List.map_congr_left fun i hi => toUInt8_shiftRight w ?_
  exact List.mem_range.mp (List.mem_reverse.mp hi)

theorem bigEndian_wordBytes (w : UInt64) : bigEndian (wordBytes w) = w.toNat := by
  rw [wordBytes_eq, bigEndian_remainders]
  exact Nat.mod_eq_of_lt w.toNat_lt

theorem word_wordBytes (w : UInt64) : word (wordBytes w) = w := by
  refine UInt64.toNat_inj.mp ?_
  rw [toNat_word (length_wordBytes w), bigEndian_wordBytes]

theorem wordBytes_word {bytes : List UInt8} (h : bytes.length = 8) :
    wordBytes (word bytes) = bytes := by
  -- both are eight bytes that write the same number
  refine bigEndian_injective (by rw [length_wordBytes, h]) ?_
  rw [bigEndian_wordBytes, toNat_word h]

/-! ### Ids -/

/-- **The bytes of an id determine it.** -/
theorem ofBytes_toBytes (id : CorrelationId) : ofBytes id.toBytes = id := by
  -- the bytes of the two words stand side by side
  have hlow : id.byteList.take 8 = wordBytes id.low := List.take_left' (length_wordBytes _)
  have hhigh : id.byteList.drop 8 = wordBytes id.high := List.drop_left' (length_wordBytes _)
  rw [ofBytes, toList_toBytes, hlow, hhigh, word_wordBytes, word_wordBytes]

/-- Any sixteen bytes are those of an id. -/
theorem toBytes_ofBytes (bytes : Vector UInt8 size) : (ofBytes bytes).toBytes = bytes := by
  have hlength : bytes.toList.length = 16 := Vector.length_toList
  have hlow : (bytes.toList.take 8).length = 8 := by rw [List.length_take, hlength]; rfl
  have hhigh : (bytes.toList.drop 8).length = 8 := by rw [List.length_drop, hlength]
  refine Vector.toList_inj.mp ?_
  rw [toList_toBytes, byteList, ofBytes, wordBytes_word hlow, wordBytes_word hhigh,
    List.take_append_drop]

theorem ofBytes_eq_iff {bytes : Vector UInt8 size} {id : CorrelationId} :
    ofBytes bytes = id ↔ bytes = id.toBytes := by
  constructor
  · rintro rfl
    exact (toBytes_ofBytes bytes).symm
  · rintro rfl
    exact ofBytes_toBytes id

end Telemetry.CorrelationId
