import DavOS.Lib.Lfsr
import DavOS.Serial.Codec

/-!
# The checksum as a shift register

`updateChecksum` adds a byte to the upper half of the checksum and shifts eight times. That is the
register of `Lfsr` with feedback `0x1021`, fed with the eight bits of the byte, most significant
first (`toBitVec_updateChecksum`). The checksum of a byte string is therefore the register that its
bits leave, and two checksum bytes are the right ones exactly when they bring the register to zero
(`feed_bits_wire`).
-/

namespace DavOS.Serial

open Lfsr

/-- The feedback word: `x ^ 16 + x ^ 12 + x ^ 5 + 1` without its leading term. -/
def polynomial : BitVec 16 := 0x1021#16

/-- The bits of a byte string in the order of transmission. -/
def bits (bytes : List UInt8) : List Bool := bytes.flatMap fun value => msbBits value.toBitVec

@[simp] theorem bits_nil : bits [] = [] := rfl

@[simp] theorem bits_cons (value : UInt8) (bytes : List UInt8) :
    bits (value :: bytes) = msbBits value.toBitVec ++ bits bytes := rfl

/-- Bytes are sent one after the other. -/
theorem bits_append (as bs : List UInt8) : bits (as ++ bs) = bits as ++ bits bs :=
  List.flatMap_append

@[simp] theorem length_bits (bytes : List UInt8) : (bits bytes).length = 8 * bytes.length := by
  induction bytes with
  | nil => rfl
  | cons value bytes ih =>
    rw [bits_cons, List.length_append, length_msbBits, ih, List.length_cons]
    omega

/-- The test of the source looks at the top bit. -/
private theorem and_top_ne_zero_iff (c : UInt16) : c &&& 0x8000 ≠ 0 ↔ c.toBitVec.msb = true := by
  have hand : (c &&& 0x8000).toBitVec = if c.toBitVec.msb then 0x8000#16 else 0#16 := by
    rw [UInt16.toBitVec_and]
    refine BitVec.eq_of_getMsbD_eq fun i hi => ?_
    rw [BitVec.getMsbD_and, BitVec.msb_eq_getMsbD_zero]
    match i with
    | 0 => cases c.toBitVec.getMsbD 0 <;> rfl
    | i + 1 =>
      have hlow : ∀ j < 15, (UInt16.toBitVec 0x8000).getMsbD (j + 1) = false := by decide
      rw [hlow i (by omega), Bool.and_false]
      cases c.toBitVec.getMsbD 0
      · simp
      · exact (hlow i (by omega)).symm
  rw [Ne, ← UInt16.toBitVec_inj, hand]
  cases c.toBitVec.msb <;> decide

/-- One round of the bit loop is one shift of the register. -/
theorem toBitVec_shiftChecksum (c : UInt16) :
    (shiftChecksum c).toBitVec = step polynomial c.toBitVec := by
  rw [shiftChecksum, step]
  simp only [and_top_ne_zero_iff]
  split <;> rfl

/-- The inner loop shifts the register. -/
theorem toBitVec_iterate_shiftChecksum (c : UInt16) (n : ℕ) :
    (shiftChecksum^[n] c).toBitVec = (step polynomial)^[n] c.toBitVec := by
  induction n generalizing c with
  | zero => rfl
  | succ n ih => rw [Function.iterate_succ_apply, ih, toBitVec_shiftChecksum,
      Function.iterate_succ_apply]

/-- A byte in the upper half of the checksum is the word with the bits of the byte in front. -/
private theorem word_msbBits_byte (value : UInt8) :
    word 16 (msbBits value.toBitVec) = (value.toUInt16 <<< 8).toBitVec := by
  refine BitVec.eq_of_getMsbD_eq fun i hi => ?_
  have hshift : (value.toUInt16 <<< 8).toBitVec = value.toBitVec.setWidth 16 <<< 8 := rfl
  rw [getMsbD_word, getD_msbBits, hshift, BitVec.getMsbD_shiftLeft, decide_eq_true hi,
    Bool.true_and, BitVec.getMsbD_eq_getLsbD, BitVec.getMsbD_eq_getLsbD, BitVec.getLsbD_setWidth]
  by_cases h8 : i < 8
  · have hplace : 16 - 1 - (i + 8) = 8 - 1 - i := by omega
    simp only [h8, hplace, decide_true, Bool.true_and, show i + 8 < 16 by omega,
      show 8 - 1 - i < 16 by omega]
  · have hout : ¬ i + 8 < 16 := by omega
    simp [h8, hout]

/-- **A byte is fed bit by bit.** -/
theorem toBitVec_updateChecksum (c : UInt16) (value : UInt8) :
    (updateChecksum c value).toBitVec = feed polynomial c.toBitVec (msbBits value.toBitVec) := by
  rw [updateChecksum, toBitVec_iterate_shiftChecksum, UInt16.toBitVec_xor, ← word_msbBits_byte,
    feed_eq_iterate _ _ (by simp), length_msbBits]

/-- The loop over the bytes feeds their bits. -/
theorem toBitVec_foldl_updateChecksum (c : UInt16) (bytes : List UInt8) :
    (bytes.foldl updateChecksum c).toBitVec = feed polynomial c.toBitVec (bits bytes) := by
  induction bytes generalizing c with
  | nil => rfl
  | cons value bytes ih => rw [List.foldl_cons, ih, toBitVec_updateChecksum, bits_cons, feed_append]

/-- The checksum is the register, started with ones. -/
theorem toBitVec_checksumOf (bytes : List UInt8) :
    (checksumOf bytes).toBitVec = feed polynomial 0xFFFF#16 (bits bytes) :=
  toBitVec_foldl_updateChecksum _ _

/-- The two checksum bytes carry the bits of the checksum. -/
theorem bits_checksumBytes (c : UInt16) : bits (checksumBytes c) = msbBits c.toBitVec := by
  have hhigh : (c >>> 8).toUInt8.toBitVec = (c.toBitVec >>> 8).setWidth 8 := rfl
  have hlow : c.toUInt8.toBitVec = c.toBitVec.setWidth 8 := rfl
  simp only [checksumBytes, bits_cons, bits_nil, List.append_nil, hhigh, hlow]
  refine List.ext_getElem (by simp) fun i h₁ h₂ => ?_
  simp only [List.length_append, length_msbBits] at h₁
  rw [List.getElem_append]
  simp only [length_msbBits]
  split
  · rename_i hi
    simp only [getElem_msbBits, BitVec.getMsbD_eq_getLsbD, BitVec.getLsbD_setWidth,
      BitVec.getLsbD_ushiftRight]
    have hplace : 8 + (8 - 1 - i) = 16 - 1 - i := by omega
    simp only [hplace, hi, decide_true, Bool.true_and, show i < 16 by omega,
      show 8 - 1 - i < 8 by omega]
  · rename_i hi
    simp only [getElem_msbBits, BitVec.getMsbD_eq_getLsbD, BitVec.getLsbD_setWidth]
    have hplace : 8 - 1 - (i - 8) = 16 - 1 - i := by omega
    simp only [hplace, decide_true, Bool.true_and, show i < 16 by omega, show i - 8 < 8 by omega,
      show 16 - 1 - i < 8 by omega]

/-- A frame without its magic brings the register to zero. -/
theorem feed_bits_wire (kind : FrameKind) (p : List UInt8) :
    feed polynomial 0xFFFF#16 (bits ((wire kind p).drop 2)) = 0#16 := by
  have hdrop : (wire kind p).drop 2 =
      covered kind p ++ checksumBytes (checksumOf (covered kind p)) := rfl
  rw [hdrop, bits_append, bits_checksumBytes, feed_append_eq_zero_iff (by decide),
    toBitVec_checksumOf]

end DavOS.Serial
