import DavOS.Fs.Table
import DavOS.Mem.PageAccess

/-!
# Who owns a page

The file system on top of the page frame allocator, with other clients that allocate and free pages
of their own. A page that is managed is free, or belongs to one file, or to one client; each call
moves at most one page from one to another, so their number does not change
(`pages_owned_once`).

The allocator keeps its bitmap in the same memory as the files. The bitmap lies in front of the
pages that are handed out, since its end does not wrap around (`BitmapFits`): a bitmap that does
would have bytes that the page tables do not map, and `InitPFA` writes all of them.
-/

namespace DavOS.Mem.Allocator

variable {s s' : Allocator}

/-! ## The bitmap and the pages behind it -/

/-- The bitmap lies in front of the pages that are handed out, and has a bit for each page. -/
structure Reserved (s : Allocator) : Prop where
  before : ∀ off : UInt64, off.toNat < s.bitmapBytes.toNat →
    (s.bitmapPhys + off).toNat < 4096 * s.scanStart.toNat
  bits : s.totalPages.toNat ≤ 8 * s.bitmapBytes.toNat
  scanStart_pos : 0 < s.scanStart.toNat

/-- The place of the bitmap is part of the layout. -/
theorem Reserved.of_sameLayout (hs : Reserved s) (hlayout : SameLayout s s') : Reserved s' := by
  obtain ⟨hbefore, hbits, hpos⟩ := hs
  refine ⟨?_, ?_, ?_⟩
  · rw [hlayout.bitmapBytes, hlayout.bitmapPhys, hlayout.scanStart]
    exact hbefore
  · rw [hlayout.totalPages, hlayout.bitmapBytes]
    exact hbits
  · rw [hlayout.scanStart]
    exact hpos

/-- `InitPFA` reserves the bitmap, if its end does not run over the end of the address space. -/
theorem reserved_of_accepted {pl : Platform} (hpages : managedPages pl ≠ 0) (hs : Accepted pl s)
    (hfits : BitmapFits s) : Reserved s := by
  have hsize := toNat_bitmapSize pl
  have hend := toNat_bitmapEnd pl
  have hscan := hs.scanStart
  have hpos : (managedPages pl).toNat ≠ 0 := by
    rwa [ne_eq, ← UInt64.toNat_inj] at hpages
  rw [← hs.bitmapPhys, ← hs.bitmapBytes] at hend
  rw [← hs.bitmapBytes, ← hs.totalPages] at hsize
  rw [← hs.totalPages] at hpos
  rw [BitmapFits] at hfits
  refine ⟨?_, by omega, by omega⟩
  intro off hoff
  rw [UInt64.toNat_add]
  omega

/-- A store behind the bitmap changes no bit. -/
theorem Consistent.store (hs : Consistent s) (hreserved : Reserved s) {memory : UInt64 → UInt8}
    (hkept : ∀ a : UInt64, a.toNat < 4096 * s.scanStart.toNat → memory a = s.memory a) :
    Consistent { s with memory } ∧ ({ s with memory } : Allocator).free = s.free := by
  have hfree : ({ s with memory } : Allocator).free = s.free := by
    refine Finset.filter_congr fun p hp => ?_
    have hlt : p < s.totalPages.toNat := Finset.mem_range.mp hp
    have hbyte : (UInt64.ofNat p >>> 3).toNat < s.bitmapBytes.toNat := by
      have hbits := hreserved.bits
      rw [PackedBits.toNat_shiftRight_three,
        UInt64.toNat_ofNat_of_lt' (hlt.trans s.totalPages.toNat_lt)]
      omega
    have hread : ({ s with memory } : Allocator).bitmapByte (UInt64.ofNat p >>> 3) =
        s.bitmapByte (UInt64.ofNat p >>> 3) := hkept _ (hreserved.before _ hbyte)
    rw [bitmapGet, hread]
    exact Iff.rfl
  refine ⟨⟨hs.pfaReady, ?_, ?_, hs.totalPages_lt⟩, hfree⟩
  · have hcounted := hs.counted
    rw [Counted] at hcounted ⊢
    rw [hfree]
    exact hcounted
  · rw [hfree]
    exact hs.scanStart_le

/-! ## Pages change hands -/

/-- `AllocPage` hands out a page that nobody owns, or changes nothing. -/
theorem Consistent.allocPage_cases (hs : Consistent s) (hpos : 0 < s.scanStart.toNat) :
    s.allocPage = (0, s) ∨
      (s.allocPage.1 ≠ 0 ∧ Consistent s.allocPage.2 ∧ SameLayout s s.allocPage.2 ∧
        Returnable s.allocPage.2 s.allocPage.1 ∧
        (∀ a, Returnable s a → Returnable s.allocPage.2 a ∧ a ≠ s.allocPage.1) ∧
        s.allocPage.2.free.card + 1 = s.free.card) := by
  rcases s.free.eq_empty_or_nonempty with hempty | hne
  · exact .inl (hs.allocPage_empty hempty)
  right
  obtain ⟨haddr, hconsistent, hlayout, hfree⟩ := hs.allocPage_nonempty hne
  have hmem := s.free.min'_mem hne
  have hlow := hs.scanStart_le _ hmem
  have hhigh := (mem_free.mp hmem).1
  set p := s.free.min' hne
  have hpage : s.allocPage.1.toNat / 4096 = p := by omega
  refine ⟨?_, hconsistent, hlayout, ?_, ?_, ?_⟩
  · rw [ne_eq, ← UInt64.toNat_inj, haddr]
    change ¬ 4096 * p = 0
    omega
  · refine ⟨by omega, ?_, ?_, ?_⟩
    · rw [hlayout.scanStart, hpage]
      exact hlow
    · rw [hlayout.totalPages, hpage]
      exact hhigh
    · rw [hfree, hpage]
      exact Finset.notMem_erase p _
  · rintro a ⟨haligned, hlow', hhigh', hused⟩
    refine ⟨⟨haligned, ?_, ?_, ?_⟩, ?_⟩
    · rwa [hlayout.scanStart]
    · rwa [hlayout.totalPages]
    · rw [hfree]
      exact fun h => hused (Finset.mem_of_mem_erase h)
    · rintro rfl
      rw [hpage] at hused
      exact hused hmem
  · rw [hfree, Finset.card_erase_of_mem hmem]
    have := Finset.card_pos.mpr hne
    omega

/-- `FreePage` takes back a page that somebody owns. -/
theorem Consistent.freePage_returnable (hs : Consistent s) {addr : UInt64}
    (haddr : Returnable s addr) :
    (s.freePage addr).1 = true ∧ Consistent (s.freePage addr).2 ∧
      SameLayout s (s.freePage addr).2 ∧
      (∀ a, Returnable s a → a ≠ addr → Returnable (s.freePage addr).2 a) ∧
      (s.freePage addr).2.free.card = s.free.card + 1 := by
  obtain ⟨hnot, -⟩ | ⟨-, hok, hconsistent, hlayout, hfree⟩ := hs.freePage_cases addr
  · exact absurd haddr hnot
  refine ⟨hok, hconsistent, hlayout, ?_, ?_⟩
  · rintro a ⟨haligned, hlow, hhigh, hused⟩ hne
    refine ⟨haligned, by rwa [hlayout.scanStart], by rwa [hlayout.totalPages], ?_⟩
    rw [hfree, Finset.mem_insert]
    rintro (heq | hmem)
    · have haligned' := haddr.1
      exact hne (UInt64.toNat_inj.mp (by omega))
    · exact hused hmem
  · rw [hfree, Finset.card_insert_of_notMem haddr.2.2.2]

end DavOS.Mem.Allocator

namespace DavOS.Fs

open DavOS.Mem

/-- The allocator of the kernel, and its memory. -/
def allocatorMachine : Machine Allocator where
  pfaReady := fun s => s.pfaReady
  allocPage := Allocator.allocPage
  freePage := Allocator.freePage
  load := fun s a => s.memory a
  store := fun a b s => { s with memory := Function.update s.memory a b }

/-- Copying into a page behind the bitmap changes the memory there only. -/
theorem copyBytes_allocator (dst data : UInt64) (n : ℕ) (s : Allocator) :
    ∃ memory : UInt64 → UInt8, copyBytes allocatorMachine dst data n s = { s with memory } ∧
      ∀ a, (∀ i < n, a ≠ dst + UInt64.ofNat i) → memory a = s.memory a := by
  induction n with
  | zero => exact ⟨s.memory, rfl, fun _ _ => rfl⟩
  | succ n ih =>
    obtain ⟨memory, heq, hkept⟩ := ih
    refine ⟨Function.update memory (dst + UInt64.ofNat n) (memory (data + UInt64.ofNat n)), ?_, ?_⟩
    · rw [copyBytes_succ, heq]
      rfl
    · intro a ha
      rw [Function.update_of_ne (ha n (by omega))]
      exact hkept a fun i hi => ha i (by omega)

/-- Copying to a page in use changes neither the bitmap nor the counter. -/
theorem copyBytes_returnable {s : Allocator} (hs : s.Consistent) (hreserved : s.Reserved)
    {page : UInt64} (hpage : s.Returnable page) (data : UInt64) {n : ℕ} (hn : n ≤ 4096) :
    (copyBytes allocatorMachine page data n s).Consistent ∧
      Allocator.SameLayout s (copyBytes allocatorMachine page data n s) ∧
      (copyBytes allocatorMachine page data n s).free = s.free := by
  obtain ⟨memory, heq, hkept⟩ := copyBytes_allocator page data n s
  obtain ⟨haligned, hlow, hhigh, -⟩ := hpage
  have htotal := hs.totalPages_lt
  have hbefore : ∀ a : UInt64, a.toNat < 4096 * s.scanStart.toNat → memory a = s.memory a := by
    intro a ha
    refine hkept a fun i hi hai => ?_
    have hnat := congrArg UInt64.toNat hai
    rw [UInt64.toNat_add, UInt64.toNat_ofNat_of_lt' (show i < 2 ^ 64 by omega)] at hnat
    omega
  obtain ⟨hconsistent, hfree⟩ := hs.store hreserved hbefore
  rw [heq]
  exact ⟨hconsistent, ⟨rfl, rfl, rfl, rfl, rfl⟩, hfree⟩

/-! ## The system -/

/-- The file system with the allocator, and the pages that other clients hold. -/
structure System where
  fs : FileSystem Allocator
  held : Finset UInt64

inductive Action
  | write (name : NameArray) (nameLen : ℤ) (data : UInt64) (dataLen : UInt32)
  | remove (name : NameArray) (nameLen : ℤ)
  | allocPage
  | freePage (addr : UInt64)

/-- A call of the file system, or of the allocator by another client. -/
def System.step (sys : System) : Action → System
  | .write name nameLen data dataLen =>
    { sys with fs := (sys.fs.write allocatorMachine name nameLen data dataLen).2 }
  | .remove name nameLen => { sys with fs := (sys.fs.remove allocatorMachine name nameLen).2 }
  | .allocPage =>
    { fs := { sys.fs with machine := sys.fs.machine.allocPage.2 }
      held := if sys.fs.machine.allocPage.1 = 0 then sys.held
        else insert sys.fs.machine.allocPage.1 sys.held }
  | .freePage addr =>
    { fs := { sys.fs with machine := (sys.fs.machine.freePage addr).2 }
      held := if (sys.fs.machine.freePage addr).1 then sys.held.erase addr else sys.held }

/-- Clients free only pages that they were handed. -/
def System.Permits (sys : System) : Action → Prop
  | .freePage addr => addr ∈ sys.held
  | _ => True

/-- The states that permitted calls lead to. -/
inductive System.Reaches (sys : System) : System → Prop
  | refl : Reaches sys sys
  | step {sys' : System} (h : Reaches sys sys') (action : Action) (haction : sys'.Permits action) :
    Reaches sys (sys'.step action)

def usedSlots (files : Fin maxFiles → FileEntry) : Finset (Fin maxFiles) :=
  Finset.univ.filter fun i => (files i).used = true

/-- Every page has one owner, and the numbers of pages that are free, in files, and held add up. -/
structure Owned (total : ℕ) (sys : System) : Prop where
  consistent : sys.fs.machine.Consistent
  reserved : sys.fs.machine.Reserved
  named : Named sys.fs.files
  file : ∀ i, (sys.fs.files i).used = true → sys.fs.machine.Returnable (sys.fs.files i).page
  client : ∀ a ∈ sys.held, sys.fs.machine.Returnable a
  distinct : ∀ i j, (sys.fs.files i).used = true → (sys.fs.files j).used = true →
    (sys.fs.files i).page = (sys.fs.files j).page → i = j
  apart : ∀ i, (sys.fs.files i).used = true → (sys.fs.files i).page ∉ sys.held
  count : sys.fs.machine.free.card + (usedSlots sys.fs.files).card + sys.held.card = total

section

variable {files : Fin maxFiles → FileEntry} {i : Fin maxFiles} {e : FileEntry}

/-- A slot is in `usedSlots` if its entry is in use. -/
theorem mem_usedSlots {j : Fin maxFiles} : j ∈ usedSlots files ↔ (files j).used = true := by
  simp [usedSlots]

/-- A new file takes a slot. -/
theorem card_usedSlots_created (hi : (files i).used = false) (he : e.used = true) :
    (usedSlots (Function.update files i e)).card = (usedSlots files).card + 1 := by
  have hinsert : usedSlots (Function.update files i e) = insert i (usedSlots files) := by
    ext j
    rw [Finset.mem_insert, mem_usedSlots, mem_usedSlots]
    by_cases hj : j = i
    · simp [hj, he]
    · simp [hj]
  rw [hinsert, Finset.card_insert_of_notMem (by simp [mem_usedSlots, hi])]

/-- A cleared entry gives one back. -/
theorem card_usedSlots_cleared (hi : (files i).used = true) (he : e.used = false) :
    (usedSlots (Function.update files i e)).card + 1 = (usedSlots files).card := by
  have herase : usedSlots (Function.update files i e) = (usedSlots files).erase i := by
    ext j
    rw [Finset.mem_erase, mem_usedSlots, mem_usedSlots]
    by_cases hj : j = i
    · simp [hj, he]
    · simp [hj]
  have hmem : i ∈ usedSlots files := mem_usedSlots.mpr hi
  rw [herase, Finset.card_erase_of_mem hmem]
  have := Finset.card_pos.mpr ⟨i, hmem⟩
  omega

end

namespace Owned

variable {total : ℕ} {sys : System}

/-- Calls that change the memory of the pages, and no page's owner. -/
theorem of_machine (hs : Owned total sys) {files : Fin maxFiles → FileEntry} {m : Allocator}
    (hnamed : Named files)
    (hfiles : ∀ j, (files j).used = (sys.fs.files j).used ∧ (files j).page = (sys.fs.files j).page)
    (hconsistent : m.Consistent) (hlayout : Allocator.SameLayout sys.fs.machine m)
    (hfree : m.free = sys.fs.machine.free) :
    Owned total { sys with fs := ⟨files, m⟩ } := by
  have hreturnable : ∀ a, sys.fs.machine.Returnable a → m.Returnable a := by
    rintro a ⟨haligned, hlow, hhigh, hused⟩
    exact ⟨haligned, by rwa [hlayout.scanStart], by rwa [hlayout.totalPages], by rwa [hfree]⟩
  have hslots : usedSlots files = usedSlots sys.fs.files := by
    ext j
    rw [mem_usedSlots, mem_usedSlots, (hfiles j).1]
  refine ⟨hconsistent, hs.reserved.of_sameLayout hlayout, hnamed, ?_, ?_, ?_, ?_, ?_⟩
  · intro j hj
    simp only [hfiles j] at hj ⊢
    exact hreturnable _ (hs.file j hj)
  · intro a ha
    exact hreturnable a (hs.client a ha)
  · intro j k hj hk heq
    simp only [hfiles j, hfiles k] at hj hk heq
    exact hs.distinct j k hj hk heq
  · intro j hj
    simp only [hfiles j] at hj ⊢
    exact hs.apart j hj
  · simp only [hfree, hslots]
    exact hs.count

/-- Writing to a file keeps the owners. -/
theorem fill (hs : Owned total sys) {i : Fin maxFiles} (hused : (sys.fs.files i).used = true)
    (data : UInt64) {dataLen : UInt32} (hlen : dataLen.toNat ≤ 4096) :
    Owned total { sys with fs := sys.fs.fill allocatorMachine i data dataLen } := by
  obtain ⟨hconsistent, hlayout, hfree⟩ :=
    copyBytes_returnable hs.consistent hs.reserved (hs.file i hused) data hlen
  refine hs.of_machine (hs.named.resize (by rwa [UInt32.toNat_toUInt64])) ?_ hconsistent hlayout
    hfree
  intro j
  by_cases hj : j = i
  · subst hj
    simp
  · simp [Function.update_of_ne hj]

/-- A file gets a page that nobody owned. -/
theorem create (hs : Owned total sys) {i : Fin maxFiles} (hi : (sys.fs.files i).used = false)
    {e : FileEntry} (he : e.used = true) (hpage : e.page = sys.fs.machine.allocPage.1)
    (hnonzero : sys.fs.machine.allocPage.1 ≠ 0)
    (hnamed : Named (Function.update sys.fs.files i e)) :
    Owned total
      { sys with fs := ⟨Function.update sys.fs.files i e, sys.fs.machine.allocPage.2⟩ } := by
  obtain hnone | ⟨-, hconsistent, hlayout, hnew, hothers, hcard⟩ :=
    hs.consistent.allocPage_cases hs.reserved.scanStart_pos
  · rw [hnone] at hnonzero
    exact absurd rfl hnonzero
  have hcount := hs.count
  have hslots := card_usedSlots_created hi he
  refine ⟨hconsistent, hs.reserved.of_sameLayout hlayout, hnamed, ?_, ?_, ?_, ?_, ?_⟩
  · refine (Function.forall_update_iff sys.fs.files fun _ e => e.used = true →
      sys.fs.machine.allocPage.2.Returnable e.page).mpr ⟨fun _ => hpage.symm ▸ hnew, ?_⟩
    exact fun j _ hj => (hothers _ (hs.file j hj)).1
  · intro a ha
    exact (hothers a (hs.client a ha)).1
  · intro j k hj hk heq
    by_contra hne
    refine pairwise_update (R := fun a b => a.page ≠ b.page) (fun _ _ => Ne.symm) ?_ ?_ hj hk hne
      heq
    · exact fun j k hj hk hne heq => hne (hs.distinct j k hj hk heq)
    · exact fun _ k _ hk heq => (hothers _ (hs.file k hk)).2 (heq.symm.trans hpage)
  · refine (Function.forall_update_iff sys.fs.files fun _ e => e.used = true →
      e.page ∉ sys.held).mpr ⟨?_, fun j _ => hs.apart j⟩
    exact fun _ hheld => (hothers _ (hs.client _ hheld)).2 hpage
  · simp only
    omega

/-- The page of a file goes back. -/
theorem clear (hs : Owned total sys) {i : Fin maxFiles} (hi : (sys.fs.files i).used = true) :
    Owned total { sys with fs := ⟨Function.update sys.fs.files i (sys.fs.files i).cleared,
      (sys.fs.machine.freePage (sys.fs.files i).page).2⟩ } := by
  obtain ⟨-, hconsistent, hlayout, hothers, hcard⟩ :=
    hs.consistent.freePage_returnable (hs.file i hi)
  have hcount := hs.count
  have hslots : (usedSlots (Function.update sys.fs.files i (sys.fs.files i).cleared)).card + 1 =
      (usedSlots sys.fs.files).card := card_usedSlots_cleared hi rfl
  refine ⟨hconsistent, hs.reserved.of_sameLayout hlayout, hs.named.clear, ?_, ?_, ?_, ?_, ?_⟩
  · intro j hj
    obtain ⟨hji, hsame⟩ := used_update_cleared hj
    simp only [hsame] at hj ⊢
    exact hothers _ (hs.file j hj) fun heq => hji (hs.distinct j i hj hi heq)
  · intro a ha
    refine hothers a (hs.client a ha) ?_
    rintro rfl
    exact hs.apart i hi ha
  · intro j k hj hk heq
    obtain ⟨-, hjsame⟩ := used_update_cleared hj
    obtain ⟨-, hksame⟩ := used_update_cleared hk
    simp only [hjsame, hksame] at hj hk heq
    exact hs.distinct j k hj hk heq
  · intro j hj
    obtain ⟨-, hsame⟩ := used_update_cleared hj
    simp only [hsame] at hj ⊢
    exact hs.apart j hj
  · simp only
    omega

/-- `Write` moves at most one page, from the free ones to the file. -/
theorem write (hs : Owned total sys) (name : NameArray) (nameLen : ℤ) (data : UInt64)
    (dataLen : UInt32) : Owned total (sys.step (.write name nameLen data dataLen)) := by
  have hlen : (clamp dataLen).toNat ≤ 4096 := by
    rw [toNat_clamp]
    exact Nat.min_le_right ..
  have hwritten := FileSystem.written allocatorMachine sys.fs name nameLen data dataLen
  simp only [System.step]
  generalize sys.fs.write allocatorMachine name nameLen data dataLen = r at hwritten ⊢
  cases hwritten with
  | badName => exact hs
  | full => exact hs
  | notReady => exact hs
  | noPage _ _ hzero =>
    -- no page is handed out, and then nothing has changed
    obtain hnone | ⟨hnonzero, -⟩ := hs.consistent.allocPage_cases hs.reserved.scanStart_pos
    · simp only [allocatorMachine, hnone]
      exact hs
    · exact absurd hzero hnonzero
  | overwrote _ hi => exact hs.fill (FileSystem.used_of_findByName hi) data hlen
  | created hvalid habsent hi hready hnonzero =>
    rename_i i
    have hcreated := hs.create hi (e := (sys.fs.files i).created name nameLen
      sys.fs.machine.allocPage.1 (clamp dataLen).toUInt64) rfl rfl hnonzero
      (hs.named.create hvalid habsent _ (by rwa [UInt32.toNat_toUInt64]))
    have hpage := hcreated.file i (by simp only [Function.update_self]; rfl)
    simp only [Function.update_self] at hpage
    obtain ⟨hconsistent, hlayout, hfree⟩ :=
      copyBytes_returnable hcreated.consistent hcreated.reserved hpage data hlen
    exact hcreated.of_machine hcreated.named (fun _ => ⟨rfl, rfl⟩) hconsistent hlayout hfree

/-- No page that is in use has the address 0. -/
theorem page_ne_zero (hs : Owned total sys) {a : UInt64} (ha : sys.fs.machine.Returnable a) :
    a ≠ 0 := by
  rintro rfl
  have hlow := ha.2.1
  have hpos := hs.reserved.scanStart_pos
  simp only [UInt64.toNat_zero] at hlow
  omega

/-- `Remove` gives the page of the file back. -/
theorem remove (hs : Owned total sys) (name : NameArray) (nameLen : ℤ) :
    Owned total (sys.step (.remove name nameLen)) := by
  simp only [System.step, FileSystem.remove]
  cases hfind : sys.fs.findByName name nameLen with
  | none => exact hs
  | some i =>
    have hused := FileSystem.used_of_findByName hfind
    simp only [hused, true_and]
    rw [if_pos (hs.page_ne_zero (hs.file i hused))]
    exact hs.clear hused

/-- A client takes a page. -/
theorem allocPage (hs : Owned total sys) : Owned total (sys.step .allocPage) := by
  simp only [System.step]
  obtain hnone | ⟨hnonzero, hconsistent, hlayout, hnew, hothers, hcard⟩ :=
    hs.consistent.allocPage_cases hs.reserved.scanStart_pos
  · rw [hnone, if_pos rfl]
    exact hs
  rw [if_neg hnonzero]
  have hcount := hs.count
  have hnot : sys.fs.machine.allocPage.1 ∉ sys.held :=
    fun hheld => (hothers _ (hs.client _ hheld)).2 rfl
  refine ⟨hconsistent, hs.reserved.of_sameLayout hlayout, hs.named, ?_, ?_, hs.distinct, ?_, ?_⟩
  · intro j hj
    exact (hothers _ (hs.file j hj)).1
  · intro a ha
    obtain rfl | ha := Finset.mem_insert.mp ha
    · exact hnew
    · exact (hothers a (hs.client a ha)).1
  · intro j hj hmem
    obtain heq | hmem := Finset.mem_insert.mp hmem
    · exact (hothers _ (hs.file j hj)).2 heq
    · exact hs.apart j hj hmem
  · simp only [Finset.card_insert_of_notMem hnot]
    omega

/-- A client gives a page back. -/
theorem freePage (hs : Owned total sys) {addr : UInt64} (haddr : addr ∈ sys.held) :
    Owned total (sys.step (.freePage addr)) := by
  obtain ⟨hok, hconsistent, hlayout, hothers, hcard⟩ :=
    hs.consistent.freePage_returnable (hs.client addr haddr)
  have hcount := hs.count
  have hpos := Finset.card_pos.mpr ⟨addr, haddr⟩
  simp only [System.step, hok, if_true]
  refine ⟨hconsistent, hs.reserved.of_sameLayout hlayout, hs.named, ?_, ?_, hs.distinct, ?_, ?_⟩
  · intro j hj
    exact hothers _ (hs.file j hj) fun heq => hs.apart j hj (heq.symm ▸ haddr)
  · intro a ha
    exact hothers a (hs.client a (Finset.mem_of_mem_erase ha)) (Finset.ne_of_mem_erase ha)
  · intro j hj hmem
    exact hs.apart j hj (Finset.mem_of_mem_erase hmem)
  · simp only [Finset.card_erase_of_mem haddr]
    omega

/-- Any run keeps the owners. -/
theorem reaches (hs : Owned total sys) {sys' : System} (h : sys.Reaches sys') :
    Owned total sys' := by
  induction h with
  | refl => exact hs
  | step _ action haction ih =>
    cases action with
    | write name nameLen data dataLen => exact ih.write name nameLen data dataLen
    | remove name nameLen => exact ih.remove name nameLen
    | allocPage => exact ih.allocPage
    | freePage addr => exact ih.freePage haction

/-- Right after `InitPFA` and `Init`, all pages are free. -/
theorem start {pl : Platform} {s : Allocator} (hpages : Allocator.managedPages pl ≠ 0)
    (hs : Allocator.Accepted pl s) (hfits : s.BitmapFits) (files : Fin maxFiles → FileEntry) :
    Owned s.free.card ⟨FileSystem.init ⟨files, s⟩, ∅⟩ where
  consistent := hs.consistent
  reserved := Allocator.reserved_of_accepted hpages hs hfits
  named := ⟨by simp [FileSystem.init], by simp [FileSystem.init], by simp [FileSystem.init]⟩
  file := by simp [FileSystem.init]
  client := by simp
  distinct := by simp [FileSystem.init]
  apart := by simp
  count := by simp [FileSystem.init, usedSlots]

end Owned

/-- The bit of a page that somebody owns is set. -/
theorem bitmapGet_of_returnable {s : Allocator} {a : UInt64} (ha : s.Returnable a) :
    s.bitmapGet (a / Mem.pageSize) = true := by
  obtain ⟨-, -, hhigh, hused⟩ := ha
  have hpage : (a / Mem.pageSize).toNat = a.toNat / 4096 := UInt64.toNat_div ..
  have hlt : a / Mem.pageSize < s.totalPages := by
    rw [UInt64.lt_iff_toNat_lt, hpage]
    exact hhigh
  by_contra hclear
  rw [← hpage, Allocator.toNat_mem_free hlt] at hused
  exact hused (by simpa using hclear)

/-- A bitmap that is mapped ends within the address space. -/
theorem bitmapFits_of_accepted (sym : Boot.Symbols) (cpu : Boot.Machine)
    (hzero : ∀ t ∈ sym.tables, ∀ i < 4096, cpu.memory (t.toNat + i) = 0) {pl : Platform}
    {s : Allocator} (hs : Allocator.Accepted pl s)
    (hmapped : s.BitmapMapped (Boot.setupLongMode sym cpu)) : s.BitmapFits := by
  refine Allocator.bitmapFits_of_mapped sym cpu hzero ?_ hmapped
  have hsize := Allocator.toNat_bitmapSize pl
  have hpages := Allocator.managedPages_lt pl
  rw [hs.bitmapBytes]
  omega

/-- **Every page has one owner.** After `InitPFA` and `Init`, in every state that calls of the file
system and of clients lead to, the names of the files are distinct and so are their pages, which are
marked as used and held by no client; and the free pages, the pages of files, and the pages of
clients are as many together as there were free pages at the start. `InitPFA` accepts a map if it
returns true, and it returns at all only if its stores to the bitmap hit memory that the page tables
of the boot code map. -/
theorem pages_owned_once (sym : Boot.Symbols) (cpu : Boot.Machine)
    (hzero : ∀ t ∈ sym.tables, ∀ i < 4096, cpu.memory (t.toNat + i) = 0) (pl : Platform)
    (s₀ : Allocator) (files : Fin maxFiles → FileEntry)
    (hinit : (Allocator.initPFA pl s₀).1 = true)
    (hstores : (Allocator.initPFA pl s₀).2.BitmapMapped (Boot.setupLongMode sym cpu))
    {sys : System}
    (hsys : System.Reaches ⟨FileSystem.init ⟨files, (Allocator.initPFA pl s₀).2⟩, ∅⟩ sys) :
    (∀ i j, (sys.fs.files i).used = true → (sys.fs.files j).used = true → i ≠ j →
      (sys.fs.files i).bytes ≠ (sys.fs.files j).bytes ∧
        (sys.fs.files i).page ≠ (sys.fs.files j).page) ∧
    (∀ i, (sys.fs.files i).used = true →
      (1 ≤ (sys.fs.files i).nameLen.toNat ∧ (sys.fs.files i).nameLen.toNat ≤ 16) ∧
      (sys.fs.files i).size.toNat ≤ 4096 ∧ (sys.fs.files i).page ≠ 0 ∧
      sys.fs.machine.bitmapGet ((sys.fs.files i).page / Mem.pageSize) = true ∧
      (sys.fs.files i).page ∉ sys.held) ∧
    sys.fs.machine.freePages.toNat + (usedSlots sys.fs.files).card + sys.held.card =
      (Allocator.initPFA pl s₀).2.freePages.toNat := by
  obtain ⟨-, hpages, haccepted⟩ := Allocator.accepted_of_initPFA hinit
  have hfits := bitmapFits_of_accepted sym cpu hzero haccepted hstores
  have hs := (Owned.start hpages haccepted hfits files).reaches hsys
  refine ⟨?_, ?_, ?_⟩
  · intro i j hi hj hne
    exact ⟨fun heq => hne (hs.named.distinct i j hi hj heq),
      fun heq => hne (hs.distinct i j hi hj heq)⟩
  · intro i hi
    have hpage := hs.file i hi
    exact ⟨hs.named.nameLen i hi, hs.named.size i hi, hs.page_ne_zero hpage,
      bitmapGet_of_returnable hpage, hs.apart i hi⟩
  · have hcount := hs.count
    rwa [← show _ = _ from hs.consistent.counted, ← show _ = _ from haccepted.consistent.counted]
      at hcount

/-- The bitmap of the small platform is in the page behind its kernel. -/
theorem smallPlatform_bitmapMapped :
    (Allocator.initPFA Allocator.smallPlatform Allocator.blankAllocator).2.BitmapMapped
      (Boot.setupLongMode Boot.imageSymbols Boot.blankMachine) := by
  obtain ⟨-, -, haccepted⟩ := Allocator.accepted_of_initPFA Allocator.smallPlatform_initialised
  have hphys : (Allocator.findBitmap Allocator.smallPlatform
      (Allocator.bitmapSize Allocator.smallPlatform)).toNat = 0x101000 := by decide
  have hbytes : (Allocator.bitmapSize Allocator.smallPlatform).toNat = 0x24 := by decide
  intro off hoff
  rw [haccepted.bitmapBytes, hbytes] at hoff
  rw [haccepted.bitmapPhys, Ne, Boot.translate_none_iff _ _ (fun _ _ _ _ => rfl), UInt64.toNat_add,
    hphys]
  omega

/-- On the small platform, a file and a client with one page each leave the other pages free. -/
theorem smallPlatform_pages_counted :
    ∃ sys : System, System.Reaches ⟨FileSystem.init ⟨fun _ => ⟨false, 0, fun _ => 0, 0, 0⟩,
        (Allocator.initPFA Allocator.smallPlatform Allocator.blankAllocator).2⟩, ∅⟩ sys ∧
      sys.fs.machine.freePages.toNat + (usedSlots sys.fs.files).card + sys.held.card =
        (Allocator.initPFA Allocator.smallPlatform Allocator.blankAllocator).2.freePages.toNat := by
  refine ⟨_,
    .step (.step .refl (.write (fun _ => 0x61) 1 0x00001000 8) trivial) .allocPage trivial, ?_⟩
  obtain ⟨-, -, hcount⟩ := pages_owned_once Boot.imageSymbols Boot.blankMachine
    (fun _ _ _ _ => rfl) Allocator.smallPlatform Allocator.blankAllocator
    (fun _ => ⟨false, 0, fun _ => 0, 0, 0⟩) Allocator.smallPlatform_initialised
    smallPlatform_bitmapMapped
    (.step (.step .refl (.write (fun _ => 0x61) 1 0x00001000 8) trivial) .allocPage trivial)
  exact hcount

end DavOS.Fs
