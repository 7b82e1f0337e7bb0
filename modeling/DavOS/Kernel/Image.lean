import DavOS.Boot.AddressSpace
import DavOS.Lib.SystemCode

/-!
# The kernel in memory

Reference: `boot/boot.s`, `boot/stubs_amd64.s`, and the variables of `kernel/idt.go`,
`kernel/gdt.go` and `kernel/tss.go`.

The parts of memory that the processor, the entry code and the page tables depend on. The linker
chooses their addresses; they do not overlap and lie below the user window, where virtual and
physical addresses are equal for the supervisor. The variables of the rest of the kernel, such as
the screen and the keyboard buffer, are outside these parts.
-/

namespace DavOS.Kernel

open Amd64

/-- The entry code of `boot/stubs_amd64.s`. -/
inductive Stub
  | int80 | syscallEntry | gpFault | pFault | dFault | irq0 | irq1
deriving DecidableEq

inductive Part
  | idt | gdt | cpuTSS | trapStack | syscallStack
  /-- `__kernel_saved_rsp` to `__syscall_saved_user_rflags` -/
  | saved
  /-- `stack_bottom` to `stack_top` -/
  | bootStack
  | pml4 | pdpt | pd0 | pd1 | pd2 | pd3 | ptUser | userStackPage | userProgramPage
deriving DecidableEq

def Part.size : Part → ℕ
  | .idt => 256 * 16
  | .gdt => 7 * 8
  | .cpuTSS => 104
  | .saved => 11 * 8
  | .bootStack => 16384
  | _ => 4096

structure Addresses where
  sym : Boot.Symbols
  idt : UInt64
  gdt : UInt64
  cpuTSS : UInt64
  trapStack : UInt64
  syscallStack : UInt64
  saved : UInt64
  bootStack : UInt64
  stub : Stub → UInt64

def Addresses.start (K : Addresses) : Part → UInt64
  | .idt => K.idt
  | .gdt => K.gdt
  | .cpuTSS => K.cpuTSS
  | .trapStack => K.trapStack
  | .syscallStack => K.syscallStack
  | .saved => K.saved
  | .bootStack => K.bootStack
  | .pml4 => K.sym.pml4.toUInt64
  | .pdpt => K.sym.pdpt.toUInt64
  | .pd0 => K.sym.pd0.toUInt64
  | .pd1 => K.sym.pd1.toUInt64
  | .pd2 => K.sym.pd2.toUInt64
  | .pd3 => K.sym.pd3.toUInt64
  | .ptUser => K.sym.ptUser.toUInt64
  | .userStackPage => K.sym.userStackPage.toUInt64
  | .userProgramPage => K.sym.userProgramPage.toUInt64

structure Image extends Addresses where
  fits : ∀ p, (toAddresses.start p).toNat + p.size ≤ 0x40000000
  apart : ∀ p q, p ≠ q → (toAddresses.start p).toNat + p.size ≤ (toAddresses.start q).toNat ∨
    (toAddresses.start q).toNat + q.size ≤ (toAddresses.start p).toNat
  stub_lt : ∀ s, (stub s).toNat < 0x40000000
  stub_injective : Function.Injective stub

namespace Image

variable (K : Image)

/-- The first address of a part, as a number. -/
def low (p : Part) : ℕ := (K.start p).toNat

/-- The address right behind a part. -/
def high (p : Part) : ℕ := K.low p + p.size

/-- An address in a part. -/
def In (p : Part) (a : UInt64) : Prop := K.low p ≤ a.toNat ∧ a.toNat < K.high p

variable {K} {p q : Part} {a : UInt64}

/-- Every part is below the user window. -/
theorem high_le (p : Part) : K.high p ≤ 0x40000000 := K.fits p

/-- No two parts overlap. -/
theorem high_le_or (h : p ≠ q) : K.high p ≤ K.low q ∨ K.high q ≤ K.low p := K.apart p q h

/-- An address is in one part at most. -/
theorem In.not_in (h : K.In p a) (hpq : p ≠ q) : ¬K.In q a := by
  have hapart := high_le_or (K := K) hpq
  rw [In] at h ⊢
  omega

/-- Memory is the same in a part. -/
def Keeps (K : Image) (p : Part) (mem mem' : Memory) : Prop := ∀ a, K.In p a → mem' a = mem a

/-- Steps that keep a part compose. -/
theorem Keeps.trans {mem mem' mem'' : Memory} (h : K.Keeps p mem mem')
    (h' : K.Keeps p mem' mem'') : K.Keeps p mem mem'' := fun a ha => (h' a ha).trans (h a ha)

/-- A change inside one part keeps the others. -/
theorem keeps_of_sameOutside {low high : ℕ} {mem mem' : Memory}
    (h : SameOutside low high mem mem') (hlow : K.low q ≤ low) (hhigh : high ≤ K.high q)
    (hpq : p ≠ q) : K.Keeps p mem mem' := by
  intro a ha
  refine h a ?_
  have := ha.not_in hpq
  rw [In] at this
  omega

/-- A word in a part. -/
theorem Keeps.load_eq {mem mem' : Memory} (h : K.Keeps p mem mem') {k : ℕ} (hk : k + 8 ≤ p.size) :
    load (K.start p + .ofNat k) mem' = load (K.start p + .ofNat k) mem := by
  have hfits := K.fits p
  refine load_congr fun j hj => h _ ?_
  rw [In, high, low, UInt64.add_assoc, ← UInt64.ofNat_add,
    LittleEndian.toNat_add_ofNat (by omega)]
  omega

end Image

/-! ## The page tables -/

/-- Memory as the page tables see it. -/
def physical (mem : Memory) : WordMemory.Memory := fun n => mem (.ofNat n)

/-- The parts that the page tables are in. -/
def tableParts : List Part := [.pml4, .pdpt, .pd0, .pd1, .pd2, .pd3, .ptUser]

/-- A page table is a part of the kernel. -/
theorem exists_tablePart (K : Image) {t : UInt32} (ht : t ∈ K.sym.tables) :
    ∃ p ∈ tableParts, K.low p = t.toNat ∧ K.high p = t.toNat + 4096 := by
  have hlow : ∀ p, K.start p = t.toUInt64 → K.low p = t.toNat := by
    intro p hp
    rw [Image.low, hp, UInt32.toNat_toUInt64]
  suffices h : ∃ p ∈ tableParts, K.start p = t.toUInt64 ∧ p.size = 4096 by
    obtain ⟨p, hp, hstart, hsize⟩ := h
    exact ⟨p, hp, hlow p hstart, by rw [Image.high, hlow p hstart, hsize]⟩
  simp only [Boot.Symbols.tables, List.mem_cons, List.not_mem_nil, or_false] at ht
  rcases ht with rfl | rfl | rfl | rfl | rfl | rfl | rfl
  · exact ⟨.pml4, by decide, rfl, rfl⟩
  · exact ⟨.pdpt, by decide, rfl, rfl⟩
  · exact ⟨.pd0, by decide, rfl, rfl⟩
  · exact ⟨.pd1, by decide, rfl, rfl⟩
  · exact ⟨.pd2, by decide, rfl, rfl⟩
  · exact ⟨.pd3, by decide, rfl, rfl⟩
  · exact ⟨.ptUser, by decide, rfl, rfl⟩

/-- Whether the page tables are built depends on their parts only. -/
theorem tablesBuilt_congr {K : Image} {mem mem' : Memory}
    (h : Boot.TablesBuilt K.sym (physical mem))
    (hmem : ∀ p ∈ tableParts, K.Keeps p mem mem') : Boot.TablesBuilt K.sym (physical mem') := by
  refine h.congr fun t ht i hi => ?_
  obtain ⟨p, hp, hlow, hhigh⟩ := exists_tablePart K ht
  have hle := K.high_le p
  have hnat : (UInt64.ofNat (t.toNat + i)).toNat = t.toNat + i :=
    UInt64.toNat_ofNat_of_lt' (show _ < 2 ^ 64 by omega)
  refine hmem p hp _ ?_
  rw [Image.In, hnat]
  omega

/-- A write of the supervisor does not fault: the page tables lead somewhere. They need not allow
writes, since the boot code does not set CR0.WP. -/
def Image.mapped (K : Image) (mem : Memory) (a : UInt64) : Bool :=
  (Paging.translate (WordMemory.load64 (physical mem)) a.toNat K.sym.pml4.toNat).isSome

/-- The first 4 GiB are mapped. -/
theorem mapped_iff {K : Image} {mem : Memory} (h : Boot.TablesBuilt K.sym (physical mem))
    {a : UInt64} : K.mapped mem a = true ↔ a.toNat < 2 ^ 32 := by
  rw [Image.mapped, h.translate_eq, Boot.addressSpace]
  split_ifs <;> simp <;> omega

/-! ## An image -/

/-- Stubs and variables from 1 MiB on, and the page tables and pages of the user behind them. -/
def linkedAddresses : Addresses where
  sym := Boot.imageSymbols
  idt := 0x120000
  gdt := 0x121000
  cpuTSS := 0x121100
  trapStack := 0x122000
  syscallStack := 0x123000
  bootStack := 0x124000
  saved := 0x12A000
  stub
    | .int80 => 0x100000
    | .syscallEntry => 0x100100
    | .gpFault => 0x100200
    | .pFault => 0x100300
    | .dFault => 0x100400
    | .irq0 => 0x100500
    | .irq1 => 0x100600

/-- The linked addresses are below the user window. -/
theorem linkedAddresses_fits (p : Part) :
    (linkedAddresses.start p).toNat + p.size ≤ 0x40000000 := by
  cases p <;> decide

/-- The linked parts do not overlap. -/
theorem linkedAddresses_apart (p q : Part) (h : p ≠ q) :
    (linkedAddresses.start p).toNat + p.size ≤ (linkedAddresses.start q).toNat ∨
      (linkedAddresses.start q).toNat + q.size ≤ (linkedAddresses.start p).toNat := by
  cases p <;> cases q <;> first | exact absurd rfl h | decide

/-- The stubs are below the user window. -/
theorem linkedAddresses_stub_lt (s : Stub) : (linkedAddresses.stub s).toNat < 0x40000000 := by
  cases s <;> decide

/-- The stubs have addresses of their own. -/
theorem linkedAddresses_stub_injective : Function.Injective linkedAddresses.stub := by
  intro s s'
  cases s <;> cases s' <;> decide

def linkedImage : Image where
  toAddresses := linkedAddresses
  fits := linkedAddresses_fits
  apart := linkedAddresses_apart
  stub_lt := linkedAddresses_stub_lt
  stub_injective := linkedAddresses_stub_injective

/-- Zeros, but for the page tables of the boot code. -/
def pagedMemory : Memory := fun a =>
  if 0x200000 ≤ a.toNat ∧ a.toNat < 0x207000 then
    Boot.buildTables Boot.imageSymbols (fun _ => 0) a.toNat
  else 0

/-- In this memory the page tables are built. -/
theorem tablesBuilt_pagedMemory : Boot.TablesBuilt linkedImage.sym (physical pagedMemory) := by
  have hbuilt := Boot.tablesBuilt Boot.imageSymbols (fun _ => 0) fun _ _ _ _ => rfl
  have hrange : ∀ t ∈ Boot.imageSymbols.tables, 0x200000 ≤ t.toNat ∧ t.toNat ≤ 0x206000 := by
    simp only [Boot.Symbols.tables, List.forall_mem_cons, List.not_mem_nil, false_implies,
      implies_true, and_true]
    decide
  refine hbuilt.congr fun t ht i hi => ?_
  obtain ⟨hlow, hhigh⟩ := hrange t ht
  have hnat : (UInt64.ofNat (t.toNat + i)).toNat = t.toNat + i :=
    UInt64.toNat_ofNat_of_lt' (show _ < 2 ^ 64 by omega)
  rw [physical, pagedMemory, hnat, if_pos (by omega)]

/-- In this memory the IDT is empty. -/
theorem pagedMemory_idt {a : UInt64} (ha : linkedImage.In .idt a) : pagedMemory a = 0 := by
  have hlow : linkedImage.low .idt = 0x120000 := rfl
  have hhigh : linkedImage.high .idt = 0x121000 := rfl
  rw [Image.In, hlow, hhigh] at ha
  exact if_neg (by omega)

/-- The descriptor tables are beside the page tables. -/
theorem tablesBuilt_configured {mem : Memory}
    (h : ∀ p, p ≠ .idt → p ≠ .gdt → p ≠ .cpuTSS → linkedImage.Keeps p pagedMemory mem) :
    Boot.TablesBuilt linkedImage.sym (physical mem) := by
  refine tablesBuilt_congr tablesBuilt_pagedMemory fun p hp => h p ?_ ?_ ?_
  all_goals
    rintro rfl
    exact absurd hp (by decide)

end DavOS.Kernel
