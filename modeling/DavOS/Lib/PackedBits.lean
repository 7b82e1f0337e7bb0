import Mathlib.Data.Nat.Bitwise
import Mathlib.Data.Nat.Notation
import Mathlib.Tactic.Linarith

/-!
# Packed bits

A bitmap keeps bit `i` in byte `i >>> 3`, at position `i &&& 7`. Reading a bit after writing one
(`get_set`) is all that a user of the bitmap needs to know about the packing.

Aligned addresses are words whose low bits are masked out (`toNat_and_of_mask`).
-/

namespace PackedBits

/-- The mask of bit `i` within its byte. -/
def mask (i : UInt64) : UInt8 := 1 <<< (i &&& 7).toUInt8

def get (bytes : UInt64 → UInt8) (i : UInt64) : Bool := bytes (i >>> 3) &&& mask i ≠ 0

/-- The byte of bit `i` after the bit is written. -/
def write (b : UInt8) (i : UInt64) (value : Bool) : UInt8 :=
  if value then b ||| mask i else b &&& ~~~mask i

def set (bytes : UInt64 → UInt8) (i : UInt64) (value : Bool) : UInt64 → UInt8 :=
  fun j => if j = i >>> 3 then write (bytes (i >>> 3)) i value else bytes j

/-- Bit `i` is in byte `i / 8`. -/
theorem toNat_shiftRight_three (i : UInt64) : (i >>> 3).toNat = i.toNat / 8 := by
  rw [UInt64.toNat_shiftRight]
  exact Nat.shiftRight_eq_div_pow _ _

/-- Bit `i` has place `i % 8` in its byte. -/
theorem toNat_and_seven (i : UInt64) : (i &&& 7).toUInt8.toNat = i.toNat % 8 := by
  have hand : (i &&& 7).toNat = i.toNat % 8 := by
    rw [UInt64.toNat_and]
    exact Nat.and_two_pow_sub_one_eq_mod _ 3
  rw [UInt64.toNat_toUInt8, hand]
  omega

/-- The mask of a bit is a power of two. -/
theorem toNat_mask (i : UInt64) : (mask i).toNat = 2 ^ (i.toNat % 8) := by
  have hlt : i.toNat % 8 < 8 := Nat.mod_lt _ (by decide)
  have hpow : 2 ^ (i.toNat % 8) < 2 ^ 8 := Nat.pow_lt_pow_right (by decide) hlt
  rw [mask, UInt8.toNat_shiftLeft, toNat_and_seven, Nat.mod_mod, Nat.shiftLeft_eq]
  simpa using hpow

/-- Whether a byte has bit `i` set. -/
def has (b : UInt8) (i : UInt64) : Bool := b.toBitVec.getLsbD (i.toNat % 8)

/-- It has one bit set. -/
theorem mask_getLsbD (i : UInt64) (k : ℕ) :
    (mask i).toBitVec.getLsbD k = decide (i.toNat % 8 = k) := by
  rw [← BitVec.testBit_toNat, UInt8.toNat_toBitVec, toNat_mask, Nat.testBit_two_pow]

/-- The test with the mask reads the bit. -/
theorem and_mask_ne_zero (b : UInt8) (i : UInt64) : (b &&& mask i ≠ 0) ↔ has b i = true := by
  rw [ne_eq, ← UInt8.toNat_inj, UInt8.toNat_and, toNat_mask, Nat.and_two_pow, has,
    ← BitVec.testBit_toNat, UInt8.toNat_toBitVec]
  cases b.toNat.testBit (i.toNat % 8) <;> simp

/-- A write changes one bit of the byte. -/
theorem has_write (b : UInt8) (i j : UInt64) (value : Bool) :
    has (write b i value) j = if i.toNat % 8 = j.toNat % 8 then value else has b j := by
  have hlt : j.toNat % 8 < 8 := Nat.mod_lt _ (by decide)
  cases value with
  | true =>
    simp only [has, write, if_true, UInt8.toBitVec_or, BitVec.getLsbD_or, mask_getLsbD]
    split <;> simp_all
  | false =>
    simp only [has, write, Bool.false_eq_true, if_false, UInt8.toBitVec_and, UInt8.toBitVec_not,
      BitVec.getLsbD_and, BitVec.getLsbD_not, mask_getLsbD]
    split <;> simp_all

/-- A bit of the array is one of its byte. -/
theorem get_eq_has (bytes : UInt64 → UInt8) (i : UInt64) :
    get bytes i = has (bytes (i >>> 3)) i := by
  rw [Bool.eq_iff_iff, ← and_mask_ne_zero, get, decide_eq_true_eq]

/-- All bits of a full byte are set. -/
theorem get_of_full {bytes : UInt64 → UInt8} {i : UInt64} (h : bytes (i >>> 3) = 0xFF) :
    get bytes i = true := by
  rw [get_eq_has, h, has, show (0xFF : UInt8).toBitVec = BitVec.allOnes 8 by decide,
    BitVec.getLsbD_allOnes]
  exact decide_eq_true (Nat.mod_lt _ (by decide))

/-- **Writing a bit changes that bit only.** -/
theorem get_set (bytes : UInt64 → UInt8) (i j : UInt64) (value : Bool) :
    get (set bytes i value) j = if j = i then value else get bytes j := by
  have hindex : j >>> 3 = i >>> 3 ↔ j.toNat / 8 = i.toNat / 8 := by
    rw [← UInt64.toNat_inj, toNat_shiftRight_three, toNat_shiftRight_three]
  have heq : j = i ↔ j.toNat / 8 = i.toNat / 8 ∧ i.toNat % 8 = j.toNat % 8 := by
    rw [← UInt64.toNat_inj]
    omega
  rw [get_eq_has, get_eq_has, set]
  by_cases hbyte : j >>> 3 = i >>> 3
  · rw [if_pos hbyte, has_write, hbyte]
    simp only [heq, hindex.mp hbyte, true_and]
  · rw [if_neg hbyte, if_neg fun h => hbyte (hindex.mpr (heq.mp h).1)]

/-- A mask of the high bits rounds down. -/
theorem toNat_and_of_mask {highBits : UInt64} {n : ℕ}
    (hmask : highBits.toBitVec = BitVec.allOnes 64 <<< n) (v : UInt64) :
    (v &&& highBits).toNat = 2 ^ n * (v.toNat / 2 ^ n) := by
  have hshift : (v &&& highBits).toBitVec = v.toBitVec >>> n <<< n := by
    rw [UInt64.toBitVec_and, hmask, BitVec.shiftLeft_ushiftRight]
  have hle : 2 ^ n * (v.toNat / 2 ^ n) < 2 ^ 64 := (Nat.mul_div_le _ _).trans_lt v.toNat_lt
  rw [← UInt64.toNat_toBitVec, hshift, BitVec.toNat_shiftLeft, BitVec.toNat_ushiftRight,
    Nat.shiftRight_eq_div_pow, Nat.shiftLeft_eq, UInt64.toNat_toBitVec, Nat.mul_comm,
    Nat.mod_eq_of_lt hle]

end PackedBits
