import Mathlib.Data.Nat.Notation
import Mathlib.Tactic.Linarith

/-!
# Little-endian data in a memory of bytes

Addresses are words of 64 bits, and address arithmetic wraps. `Holds` says which bytes stand from an
address on; what is encoded as several strings stands there one after the other (`holds_append`).
-/

namespace LittleEndian

/-! ## Numbers as bytes -/

/-- The lowest `n` bytes of a number, the least significant one first. -/
def bytes : ℕ → ℕ → List UInt8
  | 0, _ => []
  | n + 1, x => .ofNat x :: bytes n (x / 256)

def value : List UInt8 → ℕ
  | [] => 0
  | b :: bs => b.toNat + 256 * value bs

@[simp] theorem length_bytes (n x : ℕ) : (bytes n x).length = n := by
  induction n generalizing x with
  | zero => rfl
  | succ n ih => rw [bytes, List.length_cons, ih]

/-- A number that fits is read back from its bytes. -/
theorem value_bytes {n x : ℕ} (h : x < 256 ^ n) : value (bytes n x) = x := by
  induction n generalizing x with
  | zero =>
    rw [pow_zero, Nat.lt_one_iff] at h
    rw [h]
    rfl
  | succ n ih =>
    have hdiv : x / 256 < 256 ^ n := Nat.div_lt_of_lt_mul (by rwa [← pow_succ'])
    rw [bytes, value, ih hdiv, UInt8.toNat_ofNat']
    omega

/-! ## Bytes in memory -/

abbrev Memory := UInt64 → UInt8

variable {mem : Memory} {a b : UInt64}

/-- A sum of addresses below `2 ^ 64` does not wrap. -/
theorem toNat_add_of_lt (h : a.toNat + b.toNat < 2 ^ 64) : (a + b).toNat = a.toNat + b.toNat := by
  rw [UInt64.toNat_add, Nat.mod_eq_of_lt h]

/-- An offset below the end of the address space does not wrap. -/
theorem toNat_add_ofNat {k : ℕ} (h : a.toNat + k < 2 ^ 64) :
    (a + .ofNat k).toNat = a.toNat + k := by
  have hk : (UInt64.ofNat k).toNat = k :=
    UInt64.toNat_ofNat_of_lt' ((Nat.le_add_left _ _).trans_lt h)
  rw [toNat_add_of_lt (by rwa [hk]), hk]

/-- Nor does a 32-bit offset. -/
theorem toNat_add_toUInt64 {n : UInt32} (h : a.toNat + n.toNat < 2 ^ 64) :
    (a + n.toUInt64).toNat = a.toNat + n.toNat := by
  have hn : n.toUInt64.toNat = n.toNat := UInt32.toNat_toUInt64 n
  rw [toNat_add_of_lt (by rwa [hn]), hn]

/-- The `n` bytes from an address on. -/
def load (mem : Memory) (a : UInt64) (n : ℕ) : List UInt8 :=
  (List.range n).map fun k => mem (a + .ofNat k)

@[simp] theorem length_load (n : ℕ) : (load mem a n).length = n := by
  rw [load, List.length_map, List.length_range]

/-- Bytes are loaded piece by piece. -/
theorem load_add (m n : ℕ) : load mem a (m + n) = load mem a m ++ load mem (a + .ofNat m) n := by
  rw [load, List.range_add, List.map_append, List.map_map]
  congr 1
  apply List.map_congr_left
  intro k _
  rw [Function.comp_apply, UInt64.ofNat_add, UInt64.add_assoc]

def Holds (mem : Memory) (a : UInt64) (bs : List UInt8) : Prop := load mem a bs.length = bs

instance (mem : Memory) (a : UInt64) (bs : List UInt8) : Decidable (Holds mem a bs) :=
  inferInstanceAs (Decidable (_ = _))

/-- Memory holds bytes piece by piece. -/
theorem holds_append {bs cs : List UInt8} :
    Holds mem a (bs ++ cs) ↔ Holds mem a bs ∧ Holds mem (a + .ofNat bs.length) cs := by
  rw [Holds, Holds, Holds, List.length_append, load_add]
  constructor
  · exact fun h => List.append_inj h (length_load _)
  · rintro ⟨hbs, hcs⟩
    rw [hbs, hcs]

/-- A memory with given bytes from an address on, and zeros elsewhere. -/
def placed (a : UInt64) (bs : List UInt8) : Memory := fun b => bs.getD (b - a).toNat 0

/-- Bytes that are placed in memory are held there. -/
theorem holds_placed (a : UInt64) {bs : List UInt8} (h : bs.length ≤ 2 ^ 64) :
    Holds (placed a bs) a bs := by
  rw [Holds, load]
  apply List.ext_getElem
  · rw [List.length_map, List.length_range]
  · intro k _ hk
    have hdist : (a + .ofNat k - a).toNat = k := by
      rw [UInt64.add_comm, UInt64.add_sub_cancel, UInt64.toNat_ofNat_of_lt' (hk.trans_le h)]
    rw [List.getElem_map, List.getElem_range, placed, hdist, List.getD_eq_getElem?_getD,
      List.getElem?_eq_getElem hk, Option.getD_some]

/-- A number that memory holds is loaded. -/
theorem Holds.value_load {n x : ℕ} (h : Holds mem a (bytes n x)) (hx : x < 256 ^ n) :
    value (load mem a n) = x := by
  rw [Holds, length_bytes] at h
  rw [h, value_bytes hx]

end LittleEndian
