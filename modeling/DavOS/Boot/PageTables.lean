import DavOS.Lib.Paging
import DavOS.Lib.WordMemory

/-!
# The page tables of the boot code

Reference: `boot/boot.s`, `setup_long_mode`.

The code runs in 32-bit mode without paging, so its addresses are physical and its arithmetic is
that of `UInt32`. Every entry is written as two words, the upper one zero. The addresses of the
tables and of the two user pages are symbols of the image: parameters that are page aligned, with
tables that do not overlap.
-/

namespace DavOS.Boot

open WordMemory

structure Symbols where
  pml4 : UInt32
  pdpt : UInt32
  pd0 : UInt32
  pd1 : UInt32
  pd2 : UInt32
  pd3 : UInt32
  ptUser : UInt32
  userStackPage : UInt32
  userProgramPage : UInt32
  tables_aligned : ∀ t ∈ [pml4, pdpt, pd0, pd1, pd2, pd3, ptUser], 4096 ∣ t.toNat
  tables_nodup : [pml4, pdpt, pd0, pd1, pd2, pd3, ptUser].Nodup
  userStackPage_aligned : 4096 ∣ userStackPage.toNat
  userProgramPage_aligned : 4096 ∣ userProgramPage.toNat

def Symbols.tables (sym : Symbols) : List UInt32 :=
  [sym.pml4, sym.pdpt, sym.pd0, sym.pd1, sym.pd2, sym.pd3, sym.ptUser]

/-- The memory, and the registers that control paging. -/
structure Machine where
  memory : Memory
  cr0 : UInt32
  cr3 : UInt32
  cr4 : UInt32
  efer : UInt32

/-- The two stores of an entry: `movl %eax, (%edi)` and `movl $0, 4(%edi)`. -/
def storeEntry (edi eax : UInt32) (m : Memory) : Memory :=
  store32 (edi + 4).toNat 0 (store32 edi.toNat eax m)

/-- The loops that fill a table, from the entry of `%ecx` on. All five are this one, with their own
shift, `%ebx` and flags. They leave when the counter reaches 512. -/
def mapLoop (shift ebx flags : UInt32) : ℕ → UInt32 → UInt32 → Memory → Memory
  | 0, _, _, m => m
  | rounds + 1, ecx, edi, m =>
    let eax := ((ecx <<< shift) + ebx) ||| flags
    let m := storeEntry edi eax m
    let edi := edi + 8
    let ecx := ecx + 1
    if ecx ≠ 512 then mapLoop shift ebx flags rounds ecx edi m else m

/-- `.Lmap_2m_pd0` to `.Lmap_2m_pd3`: present, writable, large, supervisor. -/
def map2m (table ebx : UInt32) (m : Memory) : Memory := mapLoop 21 ebx 0x83 512 0 table m

/-- `.Lmap_4k_pt_user_identity`: present, writable, supervisor. -/
def map4k (table ebx : UInt32) (m : Memory) : Memory := mapLoop 12 ebx 0x03 512 0 table m

/-- The tables that `setup_long_mode` builds. -/
def buildTables (sym : Symbols) (m : Memory) : Memory :=
  let m := storeEntry sym.pml4 (sym.pdpt ||| 0x07) m
  let m := storeEntry sym.pdpt (sym.pd0 ||| 0x03) m
  let m := storeEntry (sym.pdpt + 8) (sym.pd1 ||| 0x07) m
  let m := storeEntry (sym.pdpt + 16) (sym.pd2 ||| 0x03) m
  let m := storeEntry (sym.pdpt + 24) (sym.pd3 ||| 0x03) m
  let m := map2m sym.pd0 0x00000000 m
  let m := map2m sym.pd1 0x40000000 m
  let m := map2m sym.pd2 0x80000000 m
  let m := map2m sym.pd3 0xC0000000 m
  -- the user window: a page table in place of the first entry of `pd1`
  let m := storeEntry sym.pd1 (sym.ptUser ||| 0x07) m
  let m := map4k sym.ptUser 0x40000000 m
  let m := storeEntry sym.ptUser ((sym.userProgramPage &&& 0xFFFFF000) ||| 0x05) m
  storeEntry (sym.ptUser + 8) ((sym.userStackPage &&& 0xFFFFF000) ||| 0x07) m

/-- `setup_long_mode` up to the far jump: the tables, PAE, long mode, and paging. -/
def setupLongMode (sym : Symbols) (cpu : Machine) : Machine where
  memory := buildTables sym cpu.memory
  cr3 := sym.pml4
  cr4 := cpu.cr4 ||| 0x20
  efer := cpu.efer ||| 0x100
  cr0 := cpu.cr0 ||| 0x80000000

/-- PAE, long mode and paging are on. -/
def Machine.longMode (cpu : Machine) : Bool :=
  cpu.cr4 &&& 0x20 ≠ 0 ∧ cpu.efer &&& 0x100 ≠ 0 ∧ cpu.cr0 &&& 0x80000000 ≠ 0

/-- Where an address leads. Before paging is on, addresses are physical and nothing is protected. -/
def Machine.translate (cpu : Machine) (va : ℕ) : Option Paging.Mapping :=
  if cpu.longMode then Paging.translate (load64 cpu.memory) va cpu.cr3.toNat
  else some ⟨va, true, true⟩

/-- A flag is set after it has been or-ed in. -/
theorem or_and_ne_zero {flag : UInt32} (hflag : flag ≠ 0) (x : UInt32) :
    (x ||| flag) &&& flag ≠ 0 := by
  have habsorb : (x ||| flag) &&& flag = flag := by
    rw [← UInt32.toBitVec_inj]
    ext i
    simpa using Or.inr
  rwa [habsorb]

/-- After `setup_long_mode` the processor is in long mode. -/
theorem longMode_setupLongMode (sym : Symbols) (cpu : Machine) :
    (setupLongMode sym cpu).longMode = true := by
  simp [Machine.longMode, setupLongMode, or_and_ne_zero]

/-! ## Entries of a table -/

/-- The entry of a table, as a number. -/
def entryOf (m : Memory) (table : UInt32) (i : ℕ) : ℕ := load64 m (table.toNat + 8 * i)

section

variable {table table' : UInt32} (htable : 4096 ∣ table.toNat) (htable' : 4096 ∣ table'.toNat)
  {i : ℕ} (hi : i < 512)

include htable

/-- Offsets in a table do not wrap. -/
theorem toNat_add_of_aligned {off : UInt32} (hoff : off.toNat < 4096) :
    (table + off).toNat = table.toNat + off.toNat := by
  have := table.toNat_lt
  rw [UInt32.toNat_add]
  omega

/-- Flags do not overlap with the address of a table. -/
theorem toNat_or_of_aligned {flags : UInt32} (hflags : flags.toNat < 4096) :
    (table ||| flags).toNat = table.toNat + flags.toNat := by
  obtain ⟨b, hb⟩ := htable
  rw [UInt32.toNat_or, hb, show 4096 * b = 2 ^ 12 * b from rfl, Nat.two_pow_add_eq_or_of_lt hflags]

/-- A table starts at a page. -/
theorem and_page_mask : table &&& 0xFFFFF000 = table := by
  have hmask : (0xFFFFF000 : UInt32).toBitVec = BitVec.allOnes 32 <<< 12 := by decide
  have hshift : (table &&& 0xFFFFF000).toBitVec = table.toBitVec >>> 12 <<< 12 := by
    rw [UInt32.toBitVec_and, hmask, BitVec.shiftLeft_ushiftRight]
  have hlt := table.toNat_lt
  rw [← UInt32.toNat_inj, ← UInt32.toNat_toBitVec, hshift, BitVec.toNat_shiftLeft,
    BitVec.toNat_ushiftRight, Nat.shiftRight_eq_div_pow, Nat.shiftLeft_eq, UInt32.toNat_toBitVec]
  omega

include htable' hi

/-- Entries of tables are apart. -/
theorem entry_address_eq_iff {off : ℕ} (hoff : off < 4096) :
    table.toNat + 8 * i = table'.toNat + off ↔ table = table' ∧ 8 * i = off := by
  constructor
  · intro heq
    have hsame : table.toNat = table'.toNat := by omega
    exact ⟨UInt32.toNat_inj.mp hsame, by omega⟩
  · rintro ⟨rfl, hi⟩
    rw [hi]

/-- One entry is written, and no other. -/
theorem entryOf_storeEntry (off : UInt32) (hoff : off.toNat < 4096) (halign : 8 ∣ off.toNat)
    (eax : UInt32) (m : Memory) :
    entryOf (storeEntry (table' + off) eax m) table i =
      if table = table' ∧ 8 * i = off.toNat then eax.toNat else entryOf m table i := by
  have haddr : (table' + off).toNat = table'.toNat + off.toNat := toNat_add_of_aligned htable' hoff
  have hupper : (table' + off + 4).toNat = table'.toNat + off.toNat + 4 := by
    have := table'.toNat_lt
    rw [UInt32.toNat_add, haddr, show (4 : UInt32).toNat = 4 from rfl]
    omega
  rw [entryOf, storeEntry, haddr, hupper, load64_store32_store32 (by omega) (by omega)]
  simp only [entry_address_eq_iff htable htable' hi hoff, entryOf, UInt32.toNat_zero, Nat.mul_zero,
    Nat.add_zero]

/-- A store to the start of a table changes its first entry. -/
theorem entryOf_storeEntry_first (eax : UInt32) (m : Memory) :
    entryOf (storeEntry table' eax m) table i =
      if table = table' ∧ i = 0 then eax.toNat else entryOf m table i := by
  simpa using entryOf_storeEntry htable htable' hi 0 (by decide) (by decide) eax m

omit htable in
/-- Filling a table from the entry `c` on. -/
theorem entryOf_mapLoop (htable : 4096 ∣ table.toNat) (shift ebx flags : UInt32) (rounds c : ℕ)
    (hc : c + rounds = 512) (m : Memory) :
    entryOf (mapLoop shift ebx flags rounds (UInt32.ofNat c) (table' + UInt32.ofNat (8 * c)) m)
        table i =
      if table = table' ∧ c ≤ i then (((UInt32.ofNat i <<< shift) + ebx) ||| flags).toNat
      else entryOf m table i := by
  induction rounds generalizing c m with
  | zero =>
    rw [mapLoop, if_neg]
    omega
  | succ rounds ih =>
    have hoff : (UInt32.ofNat (8 * c)).toNat = 8 * c :=
      UInt32.toNat_ofNat_of_lt' (show 8 * c < 2 ^ 32 by omega)
    have hecx : UInt32.ofNat c + 1 = UInt32.ofNat (c + 1) := by
      rw [← UInt32.toNat_inj]
      simp
    have hedi : table' + UInt32.ofNat (8 * c) + 8 = table' + UInt32.ofNat (8 * (c + 1)) := by
      rw [UInt32.add_assoc, Nat.mul_add]
      simp
    have hstored := entryOf_storeEntry htable htable' hi (UInt32.ofNat (8 * c)) (by omega)
      (by omega) (((UInt32.ofNat c <<< shift) + ebx) ||| flags) m
    have hstop : UInt32.ofNat (c + 1) ≠ 512 ∨ rounds = 0 := by
      rw [ne_eq, ← UInt32.toNat_inj, UInt32.toNat_ofNat_of_lt' (show c + 1 < 2 ^ 32 by omega),
        show (512 : UInt32).toNat = 512 from rfl]
      omega
    -- the test ends the loop in the round in which the rounds end
    have hround : mapLoop shift ebx flags (rounds + 1) (UInt32.ofNat c)
        (table' + UInt32.ofNat (8 * c)) m = mapLoop shift ebx flags rounds (UInt32.ofNat (c + 1))
        (table' + UInt32.ofNat (8 * (c + 1)))
        (storeEntry (table' + UInt32.ofNat (8 * c))
          (((UInt32.ofNat c <<< shift) + ebx) ||| flags) m) := by
      simp only [mapLoop, hecx, hedi]
      obtain hstop | rfl := hstop
      · rw [if_pos hstop]
      · simp only [mapLoop, ite_self]
    rw [hround, ih (c + 1) (by omega), hstored, hoff]
    by_cases hic : i = c
    · subst hic
      by_cases ht : table = table' <;> simp [ht]
    · have hle : c + 1 ≤ i ↔ c ≤ i := by omega
      have hne : ¬ 8 * i = 8 * c := by omega
      simp only [hle, hne, and_false, if_false]

omit htable htable' in
/-- The sum and the flags do not overlap, and nothing is carried out of the word. -/
theorem toNat_mapped_entry (shift ebx flags : UInt32) {k : ℕ} (hshift : shift.toNat = 12 + k)
    (hk : k < 20) (hebx : 4096 ∣ ebx.toNat) (hfits : ebx.toNat + 2 ^ (12 + k) * i < 2 ^ 32)
    (hflags : flags.toNat < 4096) :
    (((UInt32.ofNat i <<< shift) + ebx) ||| flags).toNat =
      ebx.toNat + 2 ^ (12 + k) * i + flags.toNat := by
  have hshifted : (UInt32.ofNat i <<< shift).toNat = 2 ^ (12 + k) * i := by
    rw [UInt32.toNat_shiftLeft, UInt32.toNat_ofNat_of_lt' (show i < 2 ^ 32 by omega), hshift,
      Nat.mod_eq_of_lt (show 12 + k < 32 by omega), Nat.shiftLeft_eq, Nat.mul_comm,
      Nat.mod_eq_of_lt (by omega)]
  have hsum : (UInt32.ofNat i <<< shift + ebx).toNat = ebx.toNat + 2 ^ (12 + k) * i := by
    rw [UInt32.toNat_add, hshifted]
    omega
  have haligned : 4096 ∣ (UInt32.ofNat i <<< shift + ebx).toNat := by
    rw [hsum, Nat.pow_add, Nat.mul_assoc]
    exact Nat.dvd_add hebx (Nat.dvd_mul_right _ _)
  rw [toNat_or_of_aligned haligned hflags, hsum]

/-- After the loop over large pages the table maps 1 GiB from `ebx` on. -/
theorem entryOf_map2m {ebx : UInt32} (hebx : 2 ^ 30 ∣ ebx.toNat) (m : Memory) :
    entryOf (map2m table' ebx m) table i =
      if table = table' then ebx.toNat + 2 ^ 21 * i + 0x83 else entryOf m table i := by
  have hloop := entryOf_mapLoop htable' hi htable 21 ebx 0x83 512 0 rfl m
  have hvalue := toNat_mapped_entry hi 21 ebx 0x83 (k := 9) rfl (by decide) (by omega)
    (by have := ebx.toNat_lt; omega) (by decide)
  simpa [map2m, hvalue] using hloop

/-- After the loop over small pages the table maps 2 MiB from `ebx` on. -/
theorem entryOf_map4k {ebx : UInt32} (hebx : 2 ^ 30 ∣ ebx.toNat) (m : Memory) :
    entryOf (map4k table' ebx m) table i =
      if table = table' then ebx.toNat + 2 ^ 12 * i + 0x03 else entryOf m table i := by
  have hloop := entryOf_mapLoop htable' hi htable 12 ebx 0x03 512 0 rfl m
  have hvalue := toNat_mapped_entry hi 12 ebx 0x03 (k := 0) rfl (by decide) (by omega)
    (by have := ebx.toNat_lt; omega) (by decide)
  simpa [map4k, hvalue] using hloop

end

/-! ## The tables as built -/

/-- What the tables hold: identity mappings of the first 4 GiB in large pages, with a page table for
the first 2 MiB of the second GiB. -/
structure TablesBuilt (sym : Symbols) (m : Memory) : Prop where
  pml4 : ∀ i < 512, entryOf m sym.pml4 i = if i = 0 then sym.pdpt.toNat + 0x07 else 0
  pdpt : ∀ i < 512, entryOf m sym.pdpt i =
    if i = 0 then sym.pd0.toNat + 0x03 else if i = 1 then sym.pd1.toNat + 0x07
    else if i = 2 then sym.pd2.toNat + 0x03 else if i = 3 then sym.pd3.toNat + 0x03 else 0
  pd0 : ∀ i < 512, entryOf m sym.pd0 i = 2 ^ 21 * i + 0x83
  pd1 : ∀ i < 512, entryOf m sym.pd1 i =
    if i = 0 then sym.ptUser.toNat + 0x07 else 2 ^ 30 + 2 ^ 21 * i + 0x83
  pd2 : ∀ i < 512, entryOf m sym.pd2 i = 2 * 2 ^ 30 + 2 ^ 21 * i + 0x83
  pd3 : ∀ i < 512, entryOf m sym.pd3 i = 3 * 2 ^ 30 + 2 ^ 21 * i + 0x83
  ptUser : ∀ i < 512, entryOf m sym.ptUser i =
    if i = 0 then sym.userProgramPage.toNat + 0x05
    else if i = 1 then sym.userStackPage.toNat + 0x07 else 2 ^ 30 + 2 ^ 12 * i + 0x03

/-- The last store to an entry counts. -/
theorem entryOf_buildTables (sym : Symbols) (m : Memory) {t : UInt32} (ht : t ∈ sym.tables) {i : ℕ}
    (hi : i < 512) :
    entryOf (buildTables sym m) t i =
      if t = sym.ptUser ∧ 8 * i = 8 then sym.userStackPage.toNat + 0x07
      else if t = sym.ptUser ∧ i = 0 then sym.userProgramPage.toNat + 0x05
      else if t = sym.ptUser then 2 ^ 30 + 2 ^ 12 * i + 0x03
      else if t = sym.pd1 ∧ i = 0 then sym.ptUser.toNat + 0x07
      else if t = sym.pd3 then 3 * 2 ^ 30 + 2 ^ 21 * i + 0x83
      else if t = sym.pd2 then 2 * 2 ^ 30 + 2 ^ 21 * i + 0x83
      else if t = sym.pd1 then 2 ^ 30 + 2 ^ 21 * i + 0x83
      else if t = sym.pd0 then 0 + 2 ^ 21 * i + 0x83
      else if t = sym.pdpt ∧ 8 * i = 24 then sym.pd3.toNat + 0x03
      else if t = sym.pdpt ∧ 8 * i = 16 then sym.pd2.toNat + 0x03
      else if t = sym.pdpt ∧ 8 * i = 8 then sym.pd1.toNat + 0x07
      else if t = sym.pdpt ∧ i = 0 then sym.pd0.toNat + 0x03
      else if t = sym.pml4 ∧ i = 0 then sym.pdpt.toNat + 0x07
      else entryOf m t i := by
  have halign := sym.tables_aligned t ht
  have haligned := sym.tables_aligned
  simp only [List.mem_cons, List.not_mem_nil, or_false, forall_eq_or_imp, forall_eq] at haligned
  obtain ⟨hpml4, hpdpt, hpd0, hpd1, hpd2, hpd3, hptUser⟩ := haligned
  have hprogram := sym.userProgramPage_aligned
  have hstack := sym.userStackPage_aligned
  unfold buildTables
  rw [entryOf_storeEntry halign hptUser hi 8 (by decide) (by decide),
    entryOf_storeEntry_first halign hptUser hi, entryOf_map4k halign hptUser hi (by decide),
    entryOf_storeEntry_first halign hpd1 hi, entryOf_map2m halign hpd3 hi (by decide),
    entryOf_map2m halign hpd2 hi (by decide), entryOf_map2m halign hpd1 hi (by decide),
    entryOf_map2m halign hpd0 hi (by decide),
    entryOf_storeEntry halign hpdpt hi 24 (by decide) (by decide),
    entryOf_storeEntry halign hpdpt hi 16 (by decide) (by decide),
    entryOf_storeEntry halign hpdpt hi 8 (by decide) (by decide),
    entryOf_storeEntry_first halign hpdpt hi, entryOf_storeEntry_first halign hpml4 hi,
    and_page_mask hprogram, and_page_mask hstack]
  rw [toNat_or_of_aligned hstack (by decide), toNat_or_of_aligned hprogram (by decide),
    toNat_or_of_aligned hptUser (by decide), toNat_or_of_aligned hpd3 (by decide),
    toNat_or_of_aligned hpd2 (by decide), toNat_or_of_aligned hpd1 (by decide),
    toNat_or_of_aligned hpd0 (by decide), toNat_or_of_aligned hpdpt (by decide)]
  rfl

/-- In memory that was zero the tables are built as described. -/
theorem tablesBuilt (sym : Symbols) (m : Memory)
    (hzero : ∀ t ∈ sym.tables, ∀ i < 4096, m (t.toNat + i) = 0) :
    TablesBuilt sym (buildTables sym m) := by
  have hblank : ∀ t ∈ sym.tables, ∀ i < 512, entryOf m t i = 0 := by
    intro t ht i hi
    refine load64_eq_zero fun j hj => ?_
    rw [Nat.add_assoc]
    exact hzero t ht (8 * i + j) (by omega)
  have hmem : ∀ t, t ∈ [sym.pml4, sym.pdpt, sym.pd0, sym.pd1, sym.pd2, sym.pd3, sym.ptUser] →
      t ∈ sym.tables := fun t ht => ht
  have hnodup := sym.tables_nodup
  simp only [List.nodup_cons, List.mem_cons, List.not_mem_nil, not_or, or_false] at hnodup
  have hbuilt := fun t ht i (hi : i < 512) => entryOf_buildTables sym m (hmem t ht) hi
  constructor <;> intro i hi
  case pml4 =>
    rw [hbuilt _ (by simp) i hi, hblank _ (hmem _ (by simp)) i hi]
    simp [hnodup]
  case pdpt =>
    rw [hbuilt _ (by simp) i hi, hblank _ (hmem _ (by simp)) i hi]
    simp only [hnodup, false_and, if_false, true_and]
    split_ifs <;> omega
  case pd0 =>
    rw [hbuilt _ (by simp) i hi]
    simp [hnodup]
  case pd1 =>
    rw [hbuilt _ (by simp) i hi]
    simp [hnodup]
  case pd2 =>
    rw [hbuilt _ (by simp) i hi]
    simp [hnodup, @eq_comm _ sym.pd2 sym.pd1]
  case pd3 =>
    rw [hbuilt _ (by simp) i hi]
    simp [hnodup, @eq_comm _ sym.pd3 sym.pd1]
  case ptUser =>
    rw [hbuilt _ (by simp) i hi]
    simp only [true_and, if_true]
    split_ifs <;> omega

end DavOS.Boot
