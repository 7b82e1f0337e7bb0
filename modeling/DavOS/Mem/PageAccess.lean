import DavOS.Mem.Init
import DavOS.Boot.AddressSpace

/-!
# Access to the pages that are handed out

The kernel uses the address of a page as a pointer to it. Under the page tables of the boot code
this is right for the pages below 4 GiB, apart from the two that the user program has at 1 GiB. The
allocator knows nothing of the page tables, so whether all its pages can be used is up to the memory
map (`allocated_pages_usable_iff`). Its own bitmap it writes at once: where a byte of it is not
mapped, `InitPFA` faults in its first loop and never returns, so a map that it accepts has the
bitmap below 4 GiB (`bitmapFits_of_mapped`).
-/

namespace DavOS.Mem

open DavOS.Boot

/-- The pages that the kernel reaches by their own address, as the only one. -/
def UsablePage (p : ℕ) : Prop := p < 2 ^ 20 ∧ p ≠ 0x40000 ∧ p ≠ 0x40001

instance (p : ℕ) : Decidable (UsablePage p) := inferInstanceAs (Decidable (_ ∧ _))

namespace Allocator

/-- Every byte of the bitmap is mapped, so that the stores of `InitPFA` do not fault. -/
def BitmapMapped (M : Machine) (s : Allocator) : Prop :=
  ∀ off : UInt64, off.toNat < s.bitmapBytes.toNat →
    M.translate (s.bitmapPhys + off).toNat ≠ none

/-- The pages of the bitmap end within the address space. -/
def BitmapFits (s : Allocator) : Prop :=
  s.bitmapPhys.toNat + 4096 * ((s.bitmapBytes.toNat + 4095) / 4096) < 2 ^ 64

section

variable (sym : Symbols) (cpu : Machine)
  (hzero : ∀ t ∈ sym.tables, ∀ i < 4096, cpu.memory (t.toNat + i) = 0)

include hzero

/-- A page is the kernel's as a whole exactly if it is a usable one. -/
theorem supervisorIdentity_page_iff {addr : UInt64} {p : ℕ} (haddr : addr.toNat = 4096 * p) :
    (∀ i < 4096, (setupLongMode sym cpu).SupervisorIdentity (addr.toNat + i)) ↔ UsablePage p := by
  simp only [supervisorIdentity_iff sym cpu hzero, UsablePage]
  constructor
  · intro hall
    have hfirst := hall 0 (by decide)
    omega
  · intro hpage i hi
    omega

/-- **Which pages can be used.** Every page that `AllocPage` returns after `InitPFA` can be used
through its address exactly if no available entry has, behind the bitmap, a page that the page
tables do not map to itself for the supervisor. -/
theorem allocated_pages_usable_iff (pl : Platform) (s₀ : Allocator)
    (hinit : (initPFA pl s₀).1 = true) :
    let s := (initPFA pl s₀).2
    (∀ n, ∀ addr ∈ allocPages n s, ∀ i < 4096,
        (setupLongMode sym cpu).SupervisorIdentity (addr.toNat + i)) ↔
      ∀ e ∈ pl.mmap, e.typ = 1 → ∀ p, s.scanStart.toNat ≤ p → e.Spans p → UsablePage p := by
  intro s
  obtain ⟨-, hpages, haccepted⟩ := accepted_of_initPFA hinit
  constructor
  · intro husable e hmem htyp p hlow hspans
    have he : e ∈ pl.available := Platform.mem_available.mpr ⟨hmem, htyp⟩
    have hfree : p ∈ s.free := by
      refine (haccepted.free p).mpr ⟨?_, hlow, e, he, hspans⟩
      rw [haccepted.totalPages]
      exact spanned_lt_managedPages hpages he hspans
    obtain ⟨addr, haddr, heq⟩ := mem_allocPages _ haccepted.consistent le_rfl hfree
    exact (supervisorIdentity_page_iff sym cpu hzero heq).mp (husable _ addr haddr)
  · intro hpages n addr haddr
    obtain rfl | ⟨p, hp, heq⟩ := allocPages_mem n haccepted.consistent haddr
    · -- address zero reports that there is no page; it is mapped all the same
      exact (supervisorIdentity_page_iff sym cpu hzero (p := 0) rfl).mpr (by decide)
    · obtain ⟨-, hlow, e, he, hspans⟩ := (haccepted.free p).mp hp
      obtain ⟨hmem, htyp⟩ := Platform.mem_available.mp he
      exact (supervisorIdentity_page_iff sym cpu hzero heq).mpr (hpages e hmem htyp p hlow hspans)

/-- A bitmap that is mapped does not reach the end of what the tables map, let alone of the address
space. -/
theorem bitmapFits_of_mapped {s : Allocator} (hbytes : s.bitmapBytes.toNat < 2 ^ 50)
    (hmapped : s.BitmapMapped (setupLongMode sym cpu)) : s.BitmapFits := by
  have hlow : ∀ off : UInt64, off.toNat < s.bitmapBytes.toNat →
      (s.bitmapPhys + off).toNat < 2 ^ 32 := by
    intro off hoff
    have hsome := hmapped off hoff
    rwa [Ne, translate_none_iff sym cpu hzero, not_le] at hsome
  rw [BitmapFits]
  by_cases hempty : s.bitmapBytes.toNat = 0
  · have hphys := s.bitmapPhys.toNat_lt
    omega
  have hfirst : s.bitmapPhys.toNat < 2 ^ 32 := by
    simpa using hlow 0 (by rw [UInt64.toNat_zero]; omega)
  -- otherwise the byte at 4 GiB would be one of the bitmap
  by_contra hwraps
  have hoff : (UInt64.ofNat (2 ^ 32 - s.bitmapPhys.toNat)).toNat = 2 ^ 32 - s.bitmapPhys.toNat :=
    UInt64.toNat_ofNat_of_lt' (by omega)
  have hlast := hlow (.ofNat (2 ^ 32 - s.bitmapPhys.toNat)) (by omega)
  rw [UInt64.toNat_add, hoff] at hlast
  omega

end

/-- On the small platform all pages can be used. -/
theorem smallPlatform_pages_usable :
    (initPFA smallPlatform blankAllocator).1 = true ∧
      ∀ addr ∈ allocPages 2 (initPFA smallPlatform blankAllocator).2, ∀ i < 4096,
        (setupLongMode imageSymbols blankMachine).SupervisorIdentity (addr.toNat + i) := by
  refine ⟨smallPlatform_initialised, ?_⟩
  refine (allocated_pages_usable_iff imageSymbols blankMachine (fun _ _ _ _ => rfl) smallPlatform
    blankAllocator smallPlatform_initialised).mpr ?_ 2
  intro e he _ p _ hspans
  obtain rfl := List.mem_singleton.mp he
  have hstop : MMapEntry.stop ⟨0x00100000, 0, 0x00020000, 0, 1⟩ = 0x00120000 := by decide
  have hhigh := hspans.2
  rw [hstop, show (0x00120000 : UInt64).toNat = 0x00120000 from rfl] at hhigh
  exact ⟨by omega, by omega, by omega⟩

/-- An available entry that the kernel and the bitmap take up, and one with the first page of the
user window. -/
def windowPlatform : Platform where
  mmap := [⟨0x00100000, 0, 0x0000A000, 0, 1⟩, ⟨0x40000000, 0, 0x00001000, 0, 1⟩]
  kernelEnd := 0x00101000
  bootstrapEnd := 0
  mmap_length := by decide

/-- Behind the bitmap of `windowPlatform` there is one page. -/
theorem free_windowPlatform {s : Allocator} (haccepted : Accepted windowPlatform s) :
    s.free = {0x40000} := by
  have hscan : s.scanStart.toNat = 0x10A := haccepted.scanStart_eq (by decide)
  have htotal : s.totalPages.toNat = 0x40001 := by
    rw [haccepted.totalPages]
    decide
  ext p
  rw [haccepted.free p, hscan, htotal, Finset.mem_singleton]
  constructor
  · rintro ⟨-, hlow, e, he, hbase, hstop⟩
    obtain rfl | rfl : e = ⟨0x00100000, 0, 0x0000A000, 0, 1⟩ ∨
        e = ⟨0x40000000, 0, 0x00001000, 0, 1⟩ := by
      simpa [windowPlatform] using (Platform.mem_available.mp he).1
    · have heq : (MMapEntry.stop ⟨0x00100000, 0, 0x0000A000, 0, 1⟩).toNat = 0x10A000 := by decide
      omega
    · have hfirst : (MMapEntry.base ⟨0x40000000, 0, 0x00001000, 0, 1⟩).toNat = 0x40000000 := by
        decide
      have hlast : (MMapEntry.stop ⟨0x40000000, 0, 0x00001000, 0, 1⟩).toNat = 0x40001000 := by
        decide
      omega
  · rintro rfl
    refine ⟨by decide, by decide, ⟨0x40000000, 0, 0x00001000, 0, 1⟩, ?_, by decide⟩
    exact Platform.mem_available.mpr ⟨.tail _ (.head _), rfl⟩

/-- The first page that is handed out there is, through its address, the page of the user program:
the kernel may not write to it, and ring 3 may read it. -/
theorem user_program_page_handed_out :
    (initPFA windowPlatform blankAllocator).1 = true ∧
      (initPFA windowPlatform blankAllocator).2.allocPage.1 = 0x40000000 ∧
      (setupLongMode imageSymbols blankMachine).translate 0x40000000 =
        some ⟨imageSymbols.userProgramPage.toNat, false, true⟩ := by
  have hne : windowPlatform.maxAvailableEnd ≠ 0 := by decide
  obtain ⟨hok, haccepted⟩ := initPFA_accepted hne (by decide) blankAllocator
  refine ⟨hok, ?_, ?_⟩
  · have hfree := free_windowPlatform haccepted
    have hne : (initPFA windowPlatform blankAllocator).2.free.Nonempty := by simp [hfree]
    have hmin : (initPFA windowPlatform blankAllocator).2.free.min' hne = 0x40000 := by simp [hfree]
    rw [← UInt64.toNat_inj, (haccepted.consistent.allocPage_nonempty hne).1, hmin]
    rfl
  · rw [translate_setupLongMode imageSymbols blankMachine (fun _ _ _ _ => rfl)]
    rfl

end Allocator

end DavOS.Mem
