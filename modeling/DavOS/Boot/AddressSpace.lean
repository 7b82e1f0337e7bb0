import DavOS.Boot.PageTables

/-!
# The address space of the kernel

What the page tables of the boot code mean: the first 4 GiB are mapped to themselves for the
supervisor, except for two pages at 1 GiB that belong to the user program. The walk through the
tables computes exactly this (`translate_setupLongMode`).
-/

namespace DavOS.Boot

open Paging WordMemory

/-- The address space, without tables. -/
def addressSpace (sym : Symbols) (va : ℕ) : Option Mapping :=
  if 0x40000000 ≤ va ∧ va < 0x40001000 then
    some ⟨sym.userProgramPage.toNat + va % 4096, false, true⟩
  else if 0x40001000 ≤ va ∧ va < 0x40002000 then
    some ⟨sym.userStackPage.toNat + va % 4096, true, true⟩
  else if va < 2 ^ 32 then some ⟨va, true, false⟩
  else none

/-- A table has 512 entries. -/
theorem index_lt (level va : ℕ) : index level va < 512 := Nat.mod_lt _ (by decide)

/-- Below 4 GiB, the index at level 2 is the GiB. -/
theorem index_two {va : ℕ} (hva : va < 2 ^ 32) : index 2 va = va / 2 ^ 30 := by
  simp only [index, span]
  omega

namespace TablesBuilt

variable {sym : Symbols} {m : Memory} (hm : TablesBuilt sym m) {va : ℕ}

/-- The tables are in the physical address space. -/
theorem table_lt (t : UInt32) : t.toNat < 2 ^ 52 :=
  Nat.lt_of_lt_of_le t.toNat_lt (by decide)

/-- The tables depend on their own pages. -/
theorem congr {m' : Memory} (hm : TablesBuilt sym m)
    (h : ∀ t ∈ sym.tables, ∀ i < 4096, m' (t.toNat + i) = m (t.toNat + i)) :
    TablesBuilt sym m' := by
  have hentry : ∀ t ∈ sym.tables, ∀ i < 512, entryOf m' t i = entryOf m t i := by
    intro t ht i hi
    refine load64_congr fun j hj => ?_
    rw [Nat.add_assoc]
    exact h t ht (8 * i + j) (by omega)
  simp only [Symbols.tables, List.forall_mem_cons, List.not_mem_nil, false_implies,
    implies_true, and_true] at hentry
  obtain ⟨hpml4, hpdpt, hpd0, hpd1, hpd2, hpd3, hptUser⟩ := hentry
  exact
    { pml4 := fun i hi => (hpml4 i hi).trans (hm.pml4 i hi)
      pdpt := fun i hi => (hpdpt i hi).trans (hm.pdpt i hi)
      pd0 := fun i hi => (hpd0 i hi).trans (hm.pd0 i hi)
      pd1 := fun i hi => (hpd1 i hi).trans (hm.pd1 i hi)
      pd2 := fun i hi => (hpd2 i hi).trans (hm.pd2 i hi)
      pd3 := fun i hi => (hpd3 i hi).trans (hm.pd3 i hi)
      ptUser := fun i hi => (hptUser i hi).trans (hm.ptUser i hi) }

/-! ## One level -/

/-- An entry of zero ends the walk. -/
theorem walk_absent {level : ℕ} {table : UInt32} {w u : Bool}
    (he : entryOf m table (index level va) = 0) :
    walkFrom (load64 m) va level table.toNat w u = none := by
  rw [entryOf] at he
  exact walkFrom_absent (by rw [he]; decide)

include hm

/-- The first level leads to the second for the lowest 512 GiB only. -/
theorem walk_pml4 :
    walkFrom (load64 m) va 3 sym.pml4.toNat true true =
      if index 3 va = 0 then walkFrom (load64 m) va 2 sym.pdpt.toNat true true else none := by
  have he := hm.pml4 (index 3 va) (index_lt 3 va)
  split
  case isTrue h =>
    rw [if_pos h] at he
    exact walkFrom_table he (sym.tables_aligned _ (by simp)) (table_lt _) (by decide) (by decide)
      (by decide)
  case isFalse h =>
    rw [if_neg h] at he
    exact walk_absent he

/-- The second level has four entries. -/
theorem walk_pdpt_absent (h : 4 ≤ index 2 va) :
    walkFrom (load64 m) va 2 sym.pdpt.toNat true true = none := by
  have he := hm.pdpt (index 2 va) (index_lt 2 va)
  rw [if_neg (by omega), if_neg (by omega), if_neg (by omega), if_neg (by omega)] at he
  exact walk_absent he

omit hm in
/-- The entry for the GiB of `va`. -/
theorem walk_pdpt {flags : ℕ} {pd : UInt32} (hpd : pd ∈ sym.tables)
    (he : entryOf m sym.pdpt (index 2 va) = pd.toNat + flags)
    (hflags : flags = 0x03 ∨ flags = 0x07) :
    walkFrom (load64 m) va 2 sym.pdpt.toNat true true =
      walkFrom (load64 m) va 1 pd.toNat true (user flags) := by
  obtain rfl | rfl := hflags
  all_goals
    exact walkFrom_table he (sym.tables_aligned pd hpd) (table_lt pd) (by decide) (by decide)
      (by decide)

omit hm in
/-- A large page maps `va` to itself, for the supervisor. -/
theorem walk_identity {pd : UInt32} {u : Bool} (hva : va < 2 ^ 32)
    (he : entryOf m pd (index 1 va) = 2 ^ 30 * index 2 va + 2 ^ 21 * index 1 va + 0x83) :
    walkFrom (load64 m) va 1 pd.toNat true u = some ⟨va, true, false⟩ := by
  have hgib := index_two hva
  have hpage : index 1 va = va / 2 ^ 21 % 512 := rfl
  have hphys : 2 ^ 30 * index 2 va + 2 ^ 21 * index 1 va + va % 2 ^ 21 = va := by omega
  rw [walkFrom_large he (by omega) (by omega) (by decide) (by decide) (by decide), hphys,
    show user 0x83 = false by decide, Bool.and_false]
  rfl

/-! ## Whole walks -/

/-- Outside the user window the low 4 GiB are mapped one to one, for the kernel. -/
theorem walk_low (hva : va < 2 ^ 32) (hwindow : ¬ (0x40000000 ≤ va ∧ va < 0x40200000)) :
    walkFrom (load64 m) va 2 sym.pdpt.toNat true true = some ⟨va, true, false⟩ := by
  have hgib := index_two hva
  have hpage : index 1 va = va / 2 ^ 21 % 512 := rfl
  have he := hm.pdpt (index 2 va) (index_lt 2 va)
  have hlt := index_lt 1 va
  -- one page directory for each GiB
  obtain h | h | h | h : index 2 va = 0 ∨ index 2 va = 1 ∨ index 2 va = 2 ∨ index 2 va = 3 := by
    omega
  · rw [if_pos h] at he
    rw [walk_pdpt (by simp [Symbols.tables]) he (.inl rfl)]
    refine walk_identity hva ?_
    rw [hm.pd0 _ hlt, h, Nat.mul_zero, Nat.zero_add]
  · rw [if_neg (by omega), if_pos h] at he
    rw [walk_pdpt (by simp [Symbols.tables]) he (.inr rfl)]
    refine walk_identity hva ?_
    rw [hm.pd1 _ hlt, if_neg (by omega), h, Nat.mul_one]
  · rw [if_neg (by omega), if_neg (by omega), if_pos h] at he
    rw [walk_pdpt (by simp [Symbols.tables]) he (.inl rfl)]
    refine walk_identity hva ?_
    rw [hm.pd2 _ hlt, h, Nat.mul_comm 2]
  · rw [if_neg (by omega), if_neg (by omega), if_neg (by omega), if_pos h] at he
    rw [walk_pdpt (by simp [Symbols.tables]) he (.inl rfl)]
    refine walk_identity hva ?_
    rw [hm.pd3 _ hlt, h, Nat.mul_comm 3]

/-- The first 2 MiB of the second GiB go through the page table. -/
theorem walk_window (hlow : 0x40000000 ≤ va) (hhigh : va < 0x40200000) :
    walkFrom (load64 m) va 2 sym.pdpt.toNat true true =
      walkFrom (load64 m) va 0 sym.ptUser.toNat true true := by
  have hgib : index 2 va = 1 := by
    simp only [index, span]
    omega
  have hpage : index 1 va = 0 := by
    simp only [index, span]
    omega
  have he := hm.pdpt (index 2 va) (index_lt 2 va)
  have he' := hm.pd1 (index 1 va) (index_lt 1 va)
  rw [if_neg (by omega), if_pos hgib] at he
  rw [if_pos hpage] at he'
  rw [walk_pdpt (by simp [Symbols.tables]) he (.inr rfl)]
  exact walkFrom_table he' (sym.tables_aligned _ (by simp)) (table_lt _) (by decide) (by decide)
    (by decide)

/-- In the user window the last level decides. -/
theorem walk_ptUser (hlow : 0x40000000 ≤ va) (hhigh : va < 0x40200000) :
    walkFrom (load64 m) va 0 sym.ptUser.toNat true true = addressSpace sym va := by
  have hindex : index 0 va = (va - 0x40000000) / 4096 := by
    simp only [index, span]
    omega
  have he := hm.ptUser (index 0 va) (index_lt 0 va)
  rw [addressSpace]
  by_cases hprogram : va < 0x40001000
  · rw [if_pos (by omega)] at he
    rw [if_pos ⟨hlow, hprogram⟩]
    exact walkFrom_page he sym.userProgramPage_aligned (table_lt _) (by decide) (by decide)
  by_cases hstack : va < 0x40002000
  · rw [if_neg (by omega), if_pos (by omega)] at he
    rw [if_neg (by omega), if_pos (by omega)]
    exact walkFrom_page he sym.userStackPage_aligned (table_lt _) (by decide) (by decide)
  · rw [if_neg (by omega), if_neg (by omega)] at he
    rw [if_neg (by omega), if_neg (by omega), if_pos (by omega)]
    have hphys : 2 ^ 30 + 2 ^ 12 * index 0 va + va % 4096 = va := by omega
    rw [walkFrom_page he (by omega) (by omega) (by decide) (by decide), hphys]
    rfl

/-- The walk computes the address space. -/
theorem translate_eq (va : ℕ) :
    Paging.translate (load64 m) va sym.pml4.toNat = addressSpace sym va := by
  have hcr3 : frame (sym.pml4.toNat + 0) = sym.pml4.toNat :=
    frame_add (sym.tables_aligned _ (by simp)) (table_lt _) (by decide)
  rw [Nat.add_zero] at hcr3
  have htop : index 3 va = va / 2 ^ 39 % 512 := rfl
  have hgib : index 2 va = va / 2 ^ 30 % 512 := rfl
  rw [Paging.translate, hcr3, hm.walk_pml4]
  by_cases hva : va < 2 ^ 32
  · rw [if_pos (.inl (by omega)), if_pos (by omega)]
    by_cases hwindow : 0x40000000 ≤ va ∧ va < 0x40200000
    · rw [hm.walk_window hwindow.1 hwindow.2, hm.walk_ptUser hwindow.1 hwindow.2]
    · rw [hm.walk_low hva hwindow, addressSpace, if_neg (by omega), if_neg (by omega), if_pos hva]
  · have hnone : addressSpace sym va = none := by
      rw [addressSpace, if_neg (by omega), if_neg (by omega), if_neg hva]
    rw [hnone]
    -- above 4 GiB the walk ends at the first or at the second table
    split_ifs with hcanonical hindex
    · rw [Canonical] at hcanonical
      exact hm.walk_pdpt_absent (by omega)
    · rfl
    · rfl

end TablesBuilt

/-- **The page tables of the boot code** translate every address as the address space says. -/
theorem translate_setupLongMode (sym : Symbols) (cpu : Machine)
    (hzero : ∀ t ∈ sym.tables, ∀ i < 4096, cpu.memory (t.toNat + i) = 0) (va : ℕ) :
    (setupLongMode sym cpu).translate va = addressSpace sym va := by
  rw [Machine.translate, if_pos (longMode_setupLongMode sym cpu)]
  exact (tablesBuilt sym cpu.memory hzero).translate_eq va

/-! ## Access -/

/-- A read in ring 3 does not fault. -/
def Machine.UserReadable (cpu : Machine) (va : ℕ) : Prop :=
  ∃ mapping, cpu.translate va = some mapping ∧ mapping.user = true

def Machine.UserWritable (cpu : Machine) (va : ℕ) : Prop :=
  ∃ mapping, cpu.translate va = some mapping ∧ mapping.user = true ∧ mapping.writable = true

/-- Reads and writes of the supervisor lead to the physical address of the same number, and ring 3
has no access. -/
def Machine.SupervisorIdentity (cpu : Machine) (va : ℕ) : Prop :=
  ∃ mapping, cpu.translate va = some mapping ∧ mapping.phys = va ∧ mapping.writable = true ∧
    mapping.user = false

section

variable (sym : Symbols) (cpu : Machine)
  (hzero : ∀ t ∈ sym.tables, ∀ i < 4096, cpu.memory (t.toNat + i) = 0) (va : ℕ)

include hzero

/-- The user can read two pages. -/
theorem userReadable_iff :
    (setupLongMode sym cpu).UserReadable va ↔ 0x40000000 ≤ va ∧ va < 0x40002000 := by
  rw [Machine.UserReadable, translate_setupLongMode sym cpu hzero, addressSpace]
  split_ifs <;> simp <;> omega

/-- The user can write to the second of them. -/
theorem userWritable_iff :
    (setupLongMode sym cpu).UserWritable va ↔ 0x40001000 ≤ va ∧ va < 0x40002000 := by
  rw [Machine.UserWritable, translate_setupLongMode sym cpu hzero, addressSpace]
  split_ifs <;> simp <;> omega

/-- All else below 4 GiB is the kernel's. -/
theorem supervisorIdentity_iff :
    (setupLongMode sym cpu).SupervisorIdentity va ↔
      va < 2 ^ 32 ∧ ¬ (0x40000000 ≤ va ∧ va < 0x40002000) := by
  rw [Machine.SupervisorIdentity, translate_setupLongMode sym cpu hzero, addressSpace]
  split_ifs <;> simp <;> omega

/-- From 4 GiB on nothing is mapped. -/
theorem translate_none_iff : (setupLongMode sym cpu).translate va = none ↔ 2 ^ 32 ≤ va := by
  rw [translate_setupLongMode sym cpu hzero, addressSpace]
  split_ifs <;> simp <;> omega

end

/-- The tables side by side, as the boot code declares them, and the user program behind them. -/
def imageSymbols : Symbols where
  pml4 := 0x00200000
  pdpt := 0x00201000
  pd0 := 0x00202000
  pd1 := 0x00203000
  pd2 := 0x00204000
  pd3 := 0x00205000
  ptUser := 0x00206000
  userStackPage := 0x00207000
  userProgramPage := 0x00208000
  tables_aligned := by
    simp only [List.forall_mem_cons, List.not_mem_nil, false_implies, implies_true]
    decide
  tables_nodup := by decide
  userStackPage_aligned := by decide
  userProgramPage_aligned := by decide

def blankMachine : Machine := ⟨fun _ => 0, 0, 0, 0, 0⟩

end DavOS.Boot
