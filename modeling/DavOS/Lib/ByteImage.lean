import DavOS.Lib.StackWords

/-!
# Records in a memory of bytes

Writing a list of bytes to memory, and reading words from what was written.
-/

namespace LittleEndian

/-- The bytes from `a` on are written; the other bytes stay. -/
def writeBytes (a : UInt64) (bs : List UInt8) (mem : Memory) : Memory := fun b =>
  bs.getD (b - a).toNat (mem b)

variable {mem : Memory} {a : UInt64} {bs cs : List UInt8}

/-- Bytes that are written are held. -/
theorem holds_writeBytes (h : bs.length ≤ 2 ^ 64) : Holds (writeBytes a bs mem) a bs := by
  rw [Holds, load]
  apply List.ext_getElem
  · rw [List.length_map, List.length_range]
  · intro k _ hk
    have hdist : (a + .ofNat k - a).toNat = k := by
      rw [UInt64.add_comm, UInt64.add_sub_cancel, UInt64.toNat_ofNat_of_lt' (hk.trans_le h)]
    rw [List.getElem_map, List.getElem_range, writeBytes, hdist, List.getD_eq_getElem?_getD,
      List.getElem?_eq_getElem hk, Option.getD_some]

/-- A write changes its range only. -/
theorem sameOutside_writeBytes (h : a.toNat + bs.length ≤ 2 ^ 64) :
    Amd64.SameOutside a.toNat (a.toNat + bs.length) mem (writeBytes a bs mem) := by
  intro b hb
  have hlt := b.toNat_lt
  have ha := a.toNat_lt
  have hdist : bs.length ≤ (b - a).toNat := by
    rw [UInt64.toNat_sub]
    omega
  rw [writeBytes, List.getD_eq_getElem?_getD, List.getElem?_eq_none hdist, Option.getD_none]

/-- The bytes are at their addresses. -/
theorem Holds.congr {mem' : Memory} (h : Holds mem a bs)
    (hmem : ∀ k < bs.length, mem' (a + .ofNat k) = mem (a + .ofNat k)) : Holds mem' a bs := by
  rw [Holds, load] at h ⊢
  rw [← h, List.length_map, List.length_range]
  exact List.map_congr_left fun k hk => hmem k (List.mem_range.mp hk)

/-- The value of two pieces has the lower one first. -/
theorem value_append (bs cs : List UInt8) :
    value (bs ++ cs) = value bs + 256 ^ bs.length * value cs := by
  induction bs with
  | nil => simp [value]
  | cons b bs ih =>
    rw [List.cons_append, value, value, ih, List.length_cons, pow_succ']
    ring

/-- The bytes are the digits of their value to the base 256. -/
theorem value_eq_ofDigits (bs : List UInt8) :
    value bs = Nat.ofDigits 256 (bs.map UInt8.toNat) := by
  induction bs with
  | nil => rfl
  | cons b bs ih => rw [value, ih, List.map_cons, Nat.ofDigits_cons]

/-- A word of memory that holds eight known bytes. -/
theorem Holds.load_eq (h : Holds mem a bs) (hlength : bs.length = 8) :
    Amd64.load a mem = .ofNat (value bs) := by
  rw [Holds, hlength, load] at h
  rw [Amd64.load, value_eq_ofDigits, ← h, List.map_map]
  rfl

end LittleEndian
