import Mathlib.Data.Nat.Bitwise
import Mathlib.Data.Nat.Notation

/-!
# Four-level paging

The translation of virtual addresses in long mode. An entry of a table is the number that its eight
bytes spell; a walk starts at level 3 (PML4) and ends at level 0 (the page table), or earlier at a
large page. The rights of a mapping are those that the entries of the walk have in common.

The lemmas `walkFrom_absent`, `walkFrom_table`, `walkFrom_large` and `walkFrom_page` say what one
entry does to a walk. They see an entry as an aligned address plus its flags, in the way the tables
are built.
-/

namespace Paging

/-! ## Entries -/

def present (e : ℕ) : Bool := e.testBit 0

def writable (e : ℕ) : Bool := e.testBit 1

/-- The U/S flag. -/
def user (e : ℕ) : Bool := e.testBit 2

/-- The PS flag. -/
def large (e : ℕ) : Bool := e.testBit 7

/-- Bits 12 to 51: the address of the next table, or of a page. -/
def frame (e : ℕ) : ℕ := e / 2 ^ 12 % 2 ^ 40 * 2 ^ 12

/-- The number of bytes that an entry at this level spans. -/
def span (level : ℕ) : ℕ := 2 ^ (12 + 9 * level)

/-- The index into the table at this level. -/
def index (level va : ℕ) : ℕ := va / span level % 512

/-- An entry that maps a large page: only levels 1 and 2 have such pages, and the bits between the
flags and the address are reserved. -/
def largePage (level e : ℕ) : Bool := level ≤ 2 ∧ e / 2 ^ 13 % 2 ^ (9 * level - 1) = 0

/-! ## The walk -/

/-- Where an address leads, and what is allowed there. -/
@[ext] structure Mapping where
  phys : ℕ
  writable : Bool
  user : Bool
deriving DecidableEq

section

variable (entry : ℕ → ℕ) (va : ℕ)

/-- The walk from the table of a level, with the rights so far. A large page that is not well formed
faults, as an entry that is not present. -/
def walkFrom : ℕ → ℕ → Bool → Bool → Option Mapping
  | 0, table, w, u =>
    let e := entry (table + 8 * index 0 va)
    if present e then some ⟨frame e + va % span 0, w && writable e, u && user e⟩ else none
  | level + 1, table, w, u =>
    let e := entry (table + 8 * index (level + 1) va)
    if ¬ present e then none
    else if large e then
      if largePage (level + 1) e then
        some ⟨e / span (level + 1) * span (level + 1) % 2 ^ 52 + va % span (level + 1),
          w && writable e, u && user e⟩
      else none
    else walkFrom level (frame e) (w && writable e) (u && user e)

/-- Bits 47 to 63 are equal. -/
def Canonical : Prop := va < 2 ^ 47 ∨ 2 ^ 64 - 2 ^ 47 ≤ va ∧ va < 2 ^ 64

instance : Decidable (Canonical va) := inferInstanceAs (Decidable (_ ∨ _))

/-- The translation of a virtual address under the tables that `cr3` names. -/
def translate (cr3 : ℕ) : Option Mapping :=
  if Canonical va then walkFrom entry va 3 (frame cr3) true true else none

end

/-! ## One entry of a walk -/

section

variable {base flags : ℕ}

/-- The flags of an entry are its low 12 bits. -/
theorem testBit_add {j : ℕ} (hbase : 4096 ∣ base) (hflags : flags < 4096) (hj : j < 12) :
    (base + flags).testBit j = flags.testBit j := by
  obtain ⟨b, rfl⟩ := hbase
  rw [show 4096 * b + flags = 2 ^ 12 * b + flags from rfl, Nat.testBit_two_pow_mul_add b hflags,
    if_pos hj]

/-- The address of an entry is what is above its flags. -/
theorem frame_add (hbase : 4096 ∣ base) (hlt : base < 2 ^ 52) (hflags : flags < 4096) :
    frame (base + flags) = base := by
  obtain ⟨b, rfl⟩ := hbase
  rw [frame]
  omega

variable {entry : ℕ → ℕ} {va level table : ℕ} {w u : Bool}

/-- An entry that is not present ends the walk. -/
theorem walkFrom_absent (he : present (entry (table + 8 * index level va)) = false) :
    walkFrom entry va level table w u = none := by
  cases level <;> simp [walkFrom, he]

/-- An entry that points to a table leads to the next level. -/
theorem walkFrom_table (he : entry (table + 8 * index (level + 1) va) = base + flags)
    (hbase : 4096 ∣ base) (hlt : base < 2 ^ 52) (hflags : flags < 4096)
    (hpresent : present flags = true) (hsmall : large flags = false) :
    walkFrom entry va (level + 1) table w u =
      walkFrom entry va level base (w && writable flags) (u && user flags) := by
  have hbit := fun {j} (hj : j < 12) => testBit_add (j := j) hbase hflags hj
  simp only [present, large] at hpresent hsmall
  simp [walkFrom, he, present, large, writable, user, hbit, hpresent, hsmall,
    frame_add hbase hlt hflags]

/-- An entry of the last level gives the address and the rights. -/
theorem walkFrom_page (he : entry (table + 8 * index 0 va) = base + flags) (hbase : 4096 ∣ base)
    (hlt : base < 2 ^ 52) (hflags : flags < 4096) (hpresent : present flags = true) :
    walkFrom entry va 0 table w u =
      some ⟨base + va % 4096, w && writable flags, u && user flags⟩ := by
  have hbit := fun {j} (hj : j < 12) => testBit_add (j := j) hbase hflags hj
  simp only [present] at hpresent
  simp [walkFrom, he, present, writable, user, hbit, hpresent, frame_add hbase hlt hflags, span]

/-- A page of 2 MiB. -/
theorem walkFrom_large (he : entry (table + 8 * index 1 va) = base + flags)
    (hbase : 2 ^ 21 ∣ base) (hlt : base < 2 ^ 52) (hflags : flags < 4096)
    (hpresent : present flags = true) (hlarge : large flags = true) :
    walkFrom entry va 1 table w u =
      some ⟨base + va % 2 ^ 21, w && writable flags, u && user flags⟩ := by
  have hbit := fun {j} (hj : j < 12) =>
    testBit_add (j := j) (Dvd.dvd.trans (by decide) hbase) hflags hj
  have hpage : largePage 1 (base + flags) = true := by
    simp only [largePage, decide_eq_true_eq]
    omega
  have hphys : (base + flags) / span 1 * span 1 % 2 ^ 52 = base := by
    simp only [span]
    omega
  simp only [present, large] at hpresent hlarge
  simp only [walkFrom, Nat.zero_add, he, hpage, hphys, present, large, writable, user, hbit,
    hpresent, hlarge, Nat.reduceLT, not_true_eq_false, if_false, if_true]
  rfl

end

end Paging
