import Mathlib.Data.Nat.Notation
import Mathlib.Tactic.Linarith

/-!
# Words in a memory of bytes

Little-endian words of four bytes at aligned addresses. Reading a word after writing one
(`load32_store32`, `load64_store32_store32`) does not see the bytes.
-/

namespace WordMemory

abbrev Memory := ℕ → UInt8

/-- The word at an address, as a number. -/
def load32 (m : Memory) (a : ℕ) : ℕ :=
  (m a).toNat + 2 ^ 8 * (m (a + 1)).toNat + 2 ^ 16 * (m (a + 2)).toNat + 2 ^ 24 * (m (a + 3)).toNat

def load64 (m : Memory) (a : ℕ) : ℕ := load32 m a + 2 ^ 32 * load32 m (a + 4)

theorem load64_congr {m m' : Memory} {a : ℕ} (h : ∀ j < 8, m' (a + j) = m (a + j)) :
    load64 m' a = load64 m a := by
  have hfirst := h 0 (by decide)
  rw [Nat.add_zero] at hfirst
  simp only [load64, load32, Nat.add_assoc, Nat.reduceAdd, hfirst, h 1 (by decide),
    h 2 (by decide), h 3 (by decide), h 4 (by decide), h 5 (by decide), h 6 (by decide),
    h 7 (by decide)]

def store32 (a : ℕ) (v : UInt32) (m : Memory) : Memory := fun x =>
  if x = a then v.toUInt8
  else if x = a + 1 then (v >>> 8).toUInt8
  else if x = a + 2 then (v >>> 16).toUInt8
  else if x = a + 3 then (v >>> 24).toUInt8
  else m x

theorem load32_store32_self (a : ℕ) (v : UInt32) (m : Memory) :
    load32 (store32 a v m) a = v.toNat := by
  have hlt := v.toNat_lt
  simp [load32, store32, Nat.shiftRight_eq_div_pow]
  omega

theorem load32_store32 {a b : ℕ} (ha : 4 ∣ a) (hb : 4 ∣ b) (v : UInt32) (m : Memory) :
    load32 (store32 a v m) b = if b = a then v.toNat else load32 m b := by
  split
  case isTrue h => rw [h, load32_store32_self]
  case isFalse h =>
    -- the words are apart, so no byte of one is a byte of the other
    have hkeep : ∀ i < 4, store32 a v m (b + i) = m (b + i) := by
      intro i hi
      simp only [store32]
      rw [if_neg (by omega), if_neg (by omega), if_neg (by omega), if_neg (by omega)]
    have hfirst := hkeep 0 (by decide)
    rw [Nat.add_zero] at hfirst
    simp only [load32, hfirst, hkeep 1 (by decide), hkeep 2 (by decide), hkeep 3 (by decide)]

/-- Two words that are written side by side are read as one. -/
theorem load64_store32_store32 {a b : ℕ} (ha : 8 ∣ a) (hb : 8 ∣ b) (lower upper : UInt32)
    (m : Memory) :
    load64 (store32 (a + 4) upper (store32 a lower m)) b =
      if b = a then lower.toNat + 2 ^ 32 * upper.toNat else load64 m b := by
  have hlower : load32 (store32 (a + 4) upper (store32 a lower m)) b =
      if b = a then lower.toNat else load32 m b := by
    rw [load32_store32 (by omega) (by omega), if_neg (by omega),
      load32_store32 (by omega) (by omega)]
  have hupper : load32 (store32 (a + 4) upper (store32 a lower m)) (b + 4) =
      if b = a then upper.toNat else load32 m (b + 4) := by
    rw [load32_store32 (by omega) (by omega), load32_store32 (by omega) (by omega),
      if_neg (show b + 4 ≠ a by omega)]
    simp only [Nat.add_right_cancel_iff]
  rw [load64, hlower, hupper]
  split
  · rfl
  · rw [load64]

theorem load64_eq_zero {m : Memory} {a : ℕ} (h : ∀ i < 8, m (a + i) = 0) : load64 m a = 0 := by
  have hfirst := h 0 (by decide)
  rw [Nat.add_zero] at hfirst
  simp [load64, load32, Nat.add_assoc, hfirst, h]

end WordMemory
