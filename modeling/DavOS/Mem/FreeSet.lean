import DavOS.Mem.Allocator
import Mathlib.Data.Finset.Max
import Mathlib.Order.Interval.Finset.Nat

/-!
# The set of free pages

What the bitmap means is the set of pages below `totalPages` whose bit is clear (`Allocator.free`).
Each operation is described by what it does to that set: marking a page inserts or erases it, and
marking a range does so for the pages of the range (`markLoop_spec`). The counter `freePages` is the
number of its elements throughout (`Counted`).
-/

namespace DavOS.Mem.Allocator

/-! ## Bits -/

/-- `bitmapGet` reads a packed bit. -/
theorem bitmapGet_eq (s : Allocator) (page : UInt64) :
    s.bitmapGet page = PackedBits.get s.bitmapByte page := rfl

/-- `bitmapSet` sets a packed bit. -/
theorem bitmapByte_bitmapSet (s : Allocator) (page : UInt64) (used : Bool) :
    (s.bitmapSet page used).bitmapByte = PackedBits.set s.bitmapByte page used := by
  funext off
  have hinj : s.bitmapPhys + off = s.bitmapPhys + page >>> 3 ↔ off = page >>> 3 :=
    UInt64.add_right_inj _
  simp only [bitmapSet, storeBitmapByte, PackedBits.set, bitmapByte, hinj]
  rfl

/-- Setting the bit of a page changes that page only. -/
theorem bitmapGet_bitmapSet (s : Allocator) (page q : UInt64) (used : Bool) :
    (s.bitmapSet page used).bitmapGet q = if q = page then used else s.bitmapGet q := by
  rw [bitmapGet_eq, bitmapByte_bitmapSet, PackedBits.get_set, bitmapGet_eq]

/-- Two states agree on everything but the bitmap and the counter. -/
structure SameLayout (s s' : Allocator) : Prop where
  pfaReady : s'.pfaReady = s.pfaReady
  totalPages : s'.totalPages = s.totalPages
  bitmapPhys : s'.bitmapPhys = s.bitmapPhys
  bitmapBytes : s'.bitmapBytes = s.bitmapBytes
  scanStart : s'.scanStart = s.scanStart

/-- A state has its own layout. -/
theorem SameLayout.refl (s : Allocator) : SameLayout s s := ⟨rfl, rfl, rfl, rfl, rfl⟩

/-- Steps that keep the layout compose. -/
theorem SameLayout.trans {s s' s'' : Allocator} (h : SameLayout s s') (h' : SameLayout s' s'') :
    SameLayout s s'' :=
  ⟨h'.pfaReady.trans h.pfaReady, h'.totalPages.trans h.totalPages,
    h'.bitmapPhys.trans h.bitmapPhys, h'.bitmapBytes.trans h.bitmapBytes,
    h'.scanStart.trans h.scanStart⟩

/-! ## The free pages -/

/-- The pages below `totalPages` whose bit is clear. -/
def free (s : Allocator) : Finset ℕ :=
  (Finset.range s.totalPages.toNat).filter fun p => s.bitmapGet (UInt64.ofNat p) = false

/-- A page is free if it is managed and its bit is clear. -/
theorem mem_free {s : Allocator} {p : ℕ} :
    p ∈ s.free ↔ p < s.totalPages.toNat ∧ s.bitmapGet (UInt64.ofNat p) = false := by
  rw [free, Finset.mem_filter, Finset.mem_range]

/-- For a managed page the bit decides. -/
theorem toNat_mem_free {s : Allocator} {page : UInt64} (h : page < s.totalPages) :
    page.toNat ∈ s.free ↔ s.bitmapGet page = false := by
  rw [mem_free, UInt64.ofNat_toNat]
  exact and_iff_right h

/-- There are no more free pages than managed ones. -/
theorem card_free_le (s : Allocator) : s.free.card ≤ s.totalPages.toNat := by
  refine (Finset.card_filter_le _ _).trans ?_
  rw [Finset.card_range]

/-- The counter is right. -/
def Counted (s : Allocator) : Prop := s.freePages.toNat = s.free.card

/-! ## Marking one page -/

/-- The page `q` is free in `s'` exactly if `target` says so, and the other pages as in `s`. -/
def FreeBut (q : ℕ) (target : Bool) (s s' : Allocator) : Prop :=
  ∀ p, p ∈ s'.free ↔ if p = q then target = true else p ∈ s.free

/-- Nothing has to be done for a page that is already as wanted. -/
theorem FreeBut.refl {q : ℕ} {target : Bool} {s : Allocator} (h : q ∈ s.free ↔ target = true) :
    FreeBut q target s s := by
  intro p
  split
  · rename_i hp
    rw [hp, h]
  · rfl

/-- Freeing a page inserts it. -/
theorem FreeBut.insert {q : ℕ} {s s' : Allocator} (h : FreeBut q true s s') :
    s'.free = insert q s.free := by
  ext p
  rw [h p, Finset.mem_insert]
  split <;> simp_all

/-- Using a page erases it. -/
theorem FreeBut.erase {q : ℕ} {s s' : Allocator} (h : FreeBut q false s s') :
    s'.free = s.free.erase q := by
  ext p
  rw [h p, Finset.mem_erase]
  split <;> simp_all

/-- Writing the bit of one page changes the freeness of that page only. -/
theorem freeBut_bitmapSet {s : Allocator} {page : UInt64} (h : page < s.totalPages)
    (used : Bool) : FreeBut page.toNat (!used) s (s.bitmapSet page used) := by
  intro p
  have htotal : (s.bitmapSet page used).totalPages = s.totalPages := rfl
  rw [mem_free, mem_free, htotal, bitmapGet_bitmapSet]
  have hlt : page.toNat < s.totalPages.toNat := h
  by_cases hp : p < s.totalPages.toNat
  · have heq : UInt64.ofNat p = page ↔ p = page.toNat := by
      rw [← UInt64.toNat_inj, UInt64.toNat_ofNat_of_lt' (hp.trans s.totalPages.toNat_lt)]
    simp only [hp, true_and, heq]
    split <;> simp
  · have hne : p ≠ page.toNat := by omega
    simp only [hp, false_and, if_neg hne]

/-- `mark` makes a page free, for `target = true`, or used, and keeps the counter right. -/
def Marks (mark : UInt64 → Allocator → Allocator) (target : Bool) : Prop :=
  ∀ s page, page < s.totalPages → SameLayout s (mark page s) ∧
    (Counted s → Counted (mark page s)) ∧
    ∀ p, p ∈ (mark page s).free ↔ if p = page.toNat then target = true else p ∈ s.free

/-- `markFree` makes a page free and counts it, if it was not free before. -/
theorem marks_markFree : Marks markFree true := by
  intro s page hpage
  rw [markFree]
  by_cases hget : s.bitmapGet page = true
  swap
  · rw [if_neg hget]
    have hmem : page.toNat ∈ s.free := (toNat_mem_free hpage).mpr (by simpa using hget)
    exact ⟨.refl s, id, FreeBut.refl (iff_of_true hmem rfl)⟩
  rw [if_pos hget]
  refine ⟨⟨rfl, rfl, rfl, rfl, rfl⟩, ?_, freeBut_bitmapSet hpage false⟩
  intro hcounted
  have hnot : page.toNat ∉ s.free := by
    rw [toNat_mem_free hpage, hget]
    simp
  have hfree : (s.bitmapSet page false).free = insert page.toNat s.free :=
    (freeBut_bitmapSet hpage false).insert
  have hbound : (insert page.toNat s.free).card ≤ s.totalPages.toNat := by
    rw [← hfree]
    exact card_free_le _
  have hmax := s.totalPages.toNat_lt
  rw [Finset.card_insert_of_notMem hnot] at hbound
  change (s.freePages + 1).toNat = (s.bitmapSet page false).free.card
  rw [hfree, Finset.card_insert_of_notMem hnot, UInt64.toNat_add, hcounted]
  exact Nat.mod_eq_of_lt (lt_of_le_of_lt hbound hmax)

/-- `markUsed` makes a page used and counts it, if it was free before. -/
theorem marks_markUsed : Marks markUsed false := by
  intro s page hpage
  rw [markUsed]
  by_cases hget : s.bitmapGet page = true
  · rw [if_neg (not_not.mpr hget)]
    have hmem : page.toNat ∉ s.free := by
      rw [toNat_mem_free hpage, hget]
      simp
    exact ⟨.refl s, id, FreeBut.refl (iff_of_false hmem (by simp))⟩
  rw [if_pos hget]
  refine ⟨⟨rfl, rfl, rfl, rfl, rfl⟩, ?_, freeBut_bitmapSet hpage true⟩
  intro hcounted
  have hmem : page.toNat ∈ s.free := (toNat_mem_free hpage).mpr (by simpa using hget)
  have hfree : (s.bitmapSet page true).free = s.free.erase page.toNat :=
    (freeBut_bitmapSet hpage true).erase
  have hpos : 0 < s.free.card := Finset.card_pos.mpr ⟨_, hmem⟩
  have hpos' : s.freePages > 0 := by
    rw [gt_iff_lt, UInt64.lt_iff_toNat_lt, hcounted]
    exact hpos
  change (if s.freePages > 0 then s.freePages - 1 else s.freePages).toNat =
    (s.bitmapSet page true).free.card
  rw [if_pos hpos', hfree, Finset.card_erase_of_mem hmem, UInt64.toNat_sub_of_le]
  · rw [hcounted]
    rfl
  · exact hpos'

/-! ## Marking a range -/

/-- The managed pages from `first` up to `last` are marked, and nothing else changes. -/
def Marked (target : Bool) (first last : ℕ) (s s' : Allocator) : Prop :=
  SameLayout s s' ∧ (Counted s → Counted s') ∧
    ∀ p, p ∈ s'.free ↔
      if first ≤ p ∧ p < last ∧ p < s.totalPages.toNat then target = true else p ∈ s.free

/-- An empty range marks nothing. -/
theorem Marked.none (target : Bool) {first last : ℕ} {s : Allocator}
    (h : last ≤ first ∨ s.totalPages.toNat ≤ first) : Marked target first last s s := by
  refine ⟨.refl s, id, fun p => ?_⟩
  rw [if_neg (by omega)]

/-- **The pages a marking loop reaches** are those from `first` up to `last` that are managed. -/
theorem markLoop_spec {mark : UInt64 → Allocator → Allocator} {target : Bool}
    (hmark : Marks mark target) {stop : UInt64} {last : ℕ} (hstop : stop.toNat = 4096 * last)
    (rounds : ℕ) {addr : UInt64} {first : ℕ} (haddr : addr.toNat = 4096 * first) (s : Allocator)
    (hrounds : s.totalPages.toNat ≤ first + rounds) :
    Marked target first last s (markLoop mark stop rounds addr s) := by
  induction rounds generalizing addr first s with
  | zero => exact .none target (.inr (by omega))
  | succ rounds ih =>
    rw [markLoop]
    by_cases hlt : addr < stop
    swap
    · rw [if_neg hlt]
      rw [UInt64.lt_iff_toNat_lt] at hlt
      exact .none target (.inl (by omega))
    rw [if_pos hlt]
    rw [UInt64.lt_iff_toNat_lt] at hlt
    have hpage : (addr / pageSize).toNat = first := by
      rw [UInt64.toNat_div, haddr]
      exact Nat.mul_div_cancel_left _ (by decide)
    by_cases htotal : addr / pageSize ≥ s.totalPages
    · rw [if_pos htotal]
      rw [ge_iff_le, UInt64.le_iff_toNat_le, hpage] at htotal
      exact .none target (.inr htotal)
    rw [if_neg htotal]
    have hmanaged : addr / pageSize < s.totalPages := UInt64.not_le.mp htotal
    obtain ⟨hlayout, hcounted, hfree⟩ := hmark s (addr / pageSize) hmanaged
    -- both addresses are page-aligned, so the next one does not overflow
    have hnext : (addr + pageSize).toNat = 4096 * (first + 1) := by
      have hmax := stop.toNat_lt
      rw [UInt64.toNat_add, haddr, show pageSize.toNat = 4096 from rfl]
      omega
    rw [UInt64.lt_iff_toNat_lt, hpage] at hmanaged
    obtain ⟨hlayout', hcounted', hfree'⟩ := ih hnext (mark (addr / pageSize) s)
      (by rw [hlayout.totalPages]; omega)
    refine ⟨hlayout.trans hlayout', hcounted' ∘ hcounted, fun p => ?_⟩
    rw [hfree', hfree p, hpage, hlayout.totalPages]
    by_cases hp : p = first
    · rw [if_neg (by omega), if_pos hp, if_pos (by omega)]
    · rw [if_neg hp]
      have hrange : first + 1 ≤ p ∧ p < last ∧ p < s.totalPages.toNat ↔
          first ≤ p ∧ p < last ∧ p < s.totalPages.toNat := by omega
      simp only [hrange]

/-! ## Alignment -/

/-- `alignDown` rounds down to a page. -/
theorem toNat_alignDown (v : UInt64) : (alignDown v pageSize).toNat = 4096 * (v.toNat / 4096) := by
  have hmask : (~~~(pageSize - 1)).toBitVec = BitVec.allOnes 64 <<< 12 := by decide
  exact PackedBits.toNat_and_of_mask hmask v

/-- `alignUp` rounds up to a page, as long as the sum does not wrap. -/
theorem toNat_alignUp {v : UInt64} (h : v.toNat + 4095 < 2 ^ 64) :
    (alignUp v pageSize).toNat = 4096 * ((v.toNat + 4095) / 4096) := by
  have hsum : (v + (pageSize - 1)).toNat = v.toNat + 4095 := by
    rw [UInt64.toNat_add, show (pageSize - 1).toNat = 4095 from rfl]
    omega
  have hdown := toNat_alignDown (v + (pageSize - 1))
  rw [hsum] at hdown
  exact hdown

/-- The pages that `markFreeRange` makes free lie in the range as a whole. -/
theorem markFreeRange_spec (startPhys endPhys : UInt64) (hend : endPhys.toNat + 4095 < 2 ^ 64)
    (s : Allocator) :
    Marked true ((startPhys.toNat + 4095) / 4096) (endPhys.toNat / 4096) s
      (s.markFreeRange startPhys endPhys) := by
  rw [markFreeRange]
  by_cases hempty : endPhys ≤ startPhys
  · rw [if_pos hempty]
    rw [UInt64.le_iff_toNat_le] at hempty
    exact .none true (.inl (by omega))
  · rw [if_neg hempty]
    have hlt : startPhys.toNat < endPhys.toNat := UInt64.not_le.mp hempty
    exact markLoop_spec marks_markFree (toNat_alignDown _) _ (toNat_alignUp (by omega)) s
      (Nat.le_add_left _ _)

/-- The pages that `markUsedRange` makes used overlap the range. -/
theorem markUsedRange_spec (startPhys endPhys : UInt64) (hend : endPhys.toNat + 4095 < 2 ^ 64)
    (hstart : startPhys < endPhys ∨ startPhys = 0) (s : Allocator) :
    Marked false (startPhys.toNat / 4096) ((endPhys.toNat + 4095) / 4096) s
      (s.markUsedRange startPhys endPhys) := by
  rw [markUsedRange]
  by_cases hempty : endPhys ≤ startPhys
  · rw [if_pos hempty]
    obtain hlt | rfl := hstart
    · exact absurd hempty (UInt64.not_le.mpr hlt)
    · have hzero : endPhys.toNat = 0 := Nat.le_zero.mp hempty
      exact .none false (.inl (by rw [hzero]; decide))
  · rw [if_neg hempty]
    exact markLoop_spec marks_markUsed (toNat_alignUp hend) _ (toNat_alignDown _) s
      (Nat.le_add_left _ _)

/-! ## Handing out and taking back -/

/-- The step to the next page does not wrap. -/
theorem toNat_add_one {page : UInt64} {s : Allocator} (h : page < s.totalPages) :
    (page + 1).toNat = page.toNat + 1 := by
  have hmax := s.totalPages.toNat_lt
  rw [UInt64.lt_iff_toNat_lt] at h
  rw [UInt64.toNat_add, show (1 : UInt64).toNat = 1 from rfl]
  omega

/-- The scan finds nothing if no page from `page` on is free. -/
theorem allocLoop_none (rounds : ℕ) {page : UInt64} {s : Allocator}
    (hnone : ∀ p ∈ s.free, p < page.toNat) : allocLoop rounds page s = (0, s) := by
  induction rounds generalizing page with
  | zero => rfl
  | succ rounds ih =>
    rw [allocLoop]
    by_cases hlt : page < s.totalPages
    swap
    · rw [if_neg hlt]
    rw [if_pos hlt]
    have hused : s.bitmapGet page = true := by
      by_contra hfree
      have hmem := (toNat_mem_free hlt).mpr (by simpa using hfree)
      exact lt_irrefl _ (hnone _ hmem)
    rw [if_neg (not_not.mpr hused)]
    apply ih
    intro p hp
    have := hnone p hp
    rw [toNat_add_one hlt]
    omega

/-- The scan takes the first free page from `page` on, if it has enough rounds to reach it. -/
theorem allocLoop_some (rounds : ℕ) {page : UInt64} {s : Allocator} {p : ℕ} (hp : p ∈ s.free)
    (hle : page.toNat ≤ p) (hmin : ∀ q ∈ s.free, page.toNat ≤ q → p ≤ q)
    (hrounds : p < page.toNat + rounds) :
    allocLoop rounds page s = (UInt64.ofNat p * pageSize, s.markUsed (UInt64.ofNat p)) := by
  obtain ⟨htotal, hclear⟩ := mem_free.mp hp
  induction rounds generalizing page with
  | zero => omega
  | succ rounds ih =>
    have hlt : page < s.totalPages := lt_of_le_of_lt hle htotal
    rw [allocLoop, if_pos hlt]
    by_cases hpage : page.toNat = p
    · obtain rfl : UInt64.ofNat p = page := by rw [← hpage, UInt64.ofNat_toNat]
      have hfree : ¬ s.bitmapGet (UInt64.ofNat p) = true := by simp [hclear]
      rw [if_pos hfree, markUsed, if_pos hfree]
    · have hused : s.bitmapGet page = true := by
        by_contra hfree
        have hmem := (toNat_mem_free hlt).mpr (by simpa using hfree)
        exact hpage (le_antisymm hle (hmin _ hmem le_rfl))
      rw [if_neg (not_not.mpr hused)]
      have hnext := toNat_add_one hlt
      apply ih
      · omega
      · intro q hq hqle
        exact hmin q hq (by omega)
      · omega

/-- What holds of the allocator between two calls, wherever its bitmap lies. -/
structure Consistent (s : Allocator) : Prop where
  pfaReady : s.pfaReady = true
  counted : Counted s
  scanStart_le : ∀ p ∈ s.free, s.scanStart.toNat ≤ p
  totalPages_lt : s.totalPages.toNat < 2 ^ 52

/-- Marking pages keeps the invariant as long as none becomes free before the start of the scan. -/
theorem Consistent.marked {s s' : Allocator} (hs : Consistent s) (hlayout : SameLayout s s')
    (hcounted : Counted s → Counted s') (hfree : ∀ p ∈ s'.free, s.scanStart.toNat ≤ p) :
    Consistent s' where
  pfaReady := hlayout.pfaReady.trans hs.pfaReady
  counted := hcounted hs.counted
  scanStart_le := by
    rw [hlayout.scanStart]
    exact hfree
  totalPages_lt := by
    rw [hlayout.totalPages]
    exact hs.totalPages_lt

/-- Without free pages the answer is 0 and nothing changes. -/
theorem Consistent.allocPage_empty {s : Allocator} (hs : Consistent s) (hempty : s.free = ∅) :
    s.allocPage = (0, s) := by
  rw [allocPage, if_neg (not_not.mpr hs.pfaReady)]
  exact allocLoop_none _ (by simp [hempty])

/-- `AllocPage` hands out the least free page. -/
theorem Consistent.allocPage_nonempty {s : Allocator} (hs : Consistent s)
    (hne : s.free.Nonempty) :
    s.allocPage.1.toNat = 4096 * s.free.min' hne ∧ Consistent s.allocPage.2 ∧
      SameLayout s s.allocPage.2 ∧ s.allocPage.2.free = s.free.erase (s.free.min' hne) := by
  set p := s.free.min' hne with hp
  have hmem : p ∈ s.free := s.free.min'_mem hne
  have hle := hs.scanStart_le p hmem
  have hlt := (mem_free.mp hmem).1
  have htotal := hs.totalPages_lt
  have hpage : (UInt64.ofNat p).toNat = p :=
    UInt64.toNat_ofNat_of_lt' (hlt.trans s.totalPages.toNat_lt)
  have halloc : s.allocPage = (UInt64.ofNat p * pageSize, s.markUsed (UInt64.ofNat p)) := by
    rw [allocPage, if_neg (not_not.mpr hs.pfaReady)]
    exact allocLoop_some _ hmem hle (fun q hq _ => s.free.min'_le q hq) (by omega)
  have haddr : (UInt64.ofNat p * pageSize).toNat = 4096 * p := by
    rw [UInt64.toNat_mul, hpage, show pageSize.toNat = 4096 from rfl]
    omega
  obtain ⟨hlayout, hcounted, hfree⟩ := marks_markUsed s (UInt64.ofNat p)
    (UInt64.lt_iff_toNat_lt.mpr (by omega))
  rw [hpage] at hfree
  have herase : (s.markUsed (UInt64.ofNat p)).free = s.free.erase p := FreeBut.erase hfree
  rw [halloc]
  refine ⟨haddr, hs.marked hlayout hcounted ?_, hlayout, herase⟩
  intro q hq
  rw [herase] at hq
  exact hs.scanStart_le q (Finset.mem_of_mem_erase hq)

/-- `AllocPage` returns the page at which it starts to search, if that page is free. -/
theorem Consistent.allocPage_scanStart {s : Allocator} (hs : Consistent s)
    (hmem : s.scanStart.toNat ∈ s.free) : s.allocPage.1.toNat = 4096 * s.scanStart.toNat := by
  have hne : s.free.Nonempty := ⟨_, hmem⟩
  have hmin : s.free.min' hne = s.scanStart.toNat :=
    le_antisymm (s.free.min'_le _ hmem) (hs.scanStart_le _ (s.free.min'_mem hne))
  rw [(hs.allocPage_nonempty hne).1, hmin]

/-- The addresses that `FreePage` takes back. -/
def Returnable (s : Allocator) (addr : UInt64) : Prop :=
  4096 ∣ addr.toNat ∧ s.scanStart.toNat ≤ addr.toNat / 4096 ∧
    addr.toNat / 4096 < s.totalPages.toNat ∧ addr.toNat / 4096 ∉ s.free

/-- `FreePage` refuses and changes nothing, or the page becomes free. -/
theorem Consistent.freePage_cases {s : Allocator} (hs : Consistent s) (addr : UInt64) :
    (¬ Returnable s addr ∧ s.freePage addr = (false, s)) ∨
      (Returnable s addr ∧ (s.freePage addr).1 = true ∧ Consistent (s.freePage addr).2 ∧
        SameLayout s (s.freePage addr).2 ∧
        (s.freePage addr).2.free = insert (addr.toNat / 4096) s.free) := by
  have hpage : (addr / pageSize).toNat = addr.toNat / 4096 := UInt64.toNat_div _ _
  have hoffset : addr % pageSize = 0 ↔ 4096 ∣ addr.toNat := by
    rw [← UInt64.toNat_inj, UInt64.toNat_mod]
    exact (Nat.dvd_iff_mod_eq_zero ..).symm
  have hready : ¬ ¬ s.pfaReady = true := not_not.mpr hs.pfaReady
  -- the tests of the source in its order; each that fails contradicts one part of `Returnable`
  by_cases haligned : addr % pageSize = 0
  swap
  · refine .inl ⟨fun h => haligned (hoffset.mpr h.1), ?_⟩
    rw [freePage, if_neg hready, if_pos haligned]
  by_cases hrange : addr / pageSize < s.scanStart ∨ addr / pageSize ≥ s.totalPages
  · refine .inl ⟨?_, ?_⟩
    · rw [UInt64.lt_iff_toNat_lt, ge_iff_le, UInt64.le_iff_toNat_le, hpage] at hrange
      rintro ⟨-, hlow, hhigh, -⟩
      omega
    · rw [freePage, if_neg hready, if_neg (not_not.mpr haligned), if_pos hrange]
  obtain ⟨hlow, hhigh⟩ := not_or.mp hrange
  replace hlow := UInt64.not_lt.mp hlow
  replace hhigh := UInt64.not_le.mp hhigh
  have hmem := toNat_mem_free hhigh
  rw [hpage] at hmem
  by_cases hused : s.bitmapGet (addr / pageSize) = true
  swap
  · refine .inl ⟨fun h => h.2.2.2 (hmem.mpr (by simpa using hused)), ?_⟩
    rw [freePage, if_neg hready, if_neg (not_not.mpr haligned), if_neg hrange, if_pos hused]
  have hresult : s.freePage addr = (true, s.markFree (addr / pageSize)) := by
    rw [freePage, if_neg hready, if_neg (not_not.mpr haligned), if_neg hrange,
      if_neg (not_not.mpr hused), markFree, if_pos hused]
  obtain ⟨hlayout, hcounted, hfree⟩ := marks_markFree s (addr / pageSize) hhigh
  rw [hpage] at hfree
  have hinsert : (s.markFree (addr / pageSize)).free = insert (addr.toNat / 4096) s.free :=
    FreeBut.insert hfree
  rw [UInt64.le_iff_toNat_le, hpage] at hlow
  rw [UInt64.lt_iff_toNat_lt, hpage] at hhigh
  refine .inr ⟨⟨hoffset.mp haligned, hlow, hhigh, fun h => ?_⟩, ?_⟩
  · simp [hmem.mp h] at hused
  rw [hresult]
  refine ⟨rfl, hs.marked hlayout hcounted ?_, hlayout, hinsert⟩
  intro p hp
  rw [hinsert] at hp
  obtain rfl | hp := Finset.mem_insert.mp hp
  · exact hlow
  · exact hs.scanStart_le p hp

/-! ## The allocator with its bitmap behind page zero -/

/-- What holds of the allocator between two calls, once it is initialised. -/
structure Ready (s : Allocator) : Prop where
  pfaReady : s.pfaReady = true
  counted : Counted s
  scanStart_pos : 0 < s.scanStart.toNat
  scanStart_le : ∀ p ∈ s.free, s.scanStart.toNat ≤ p
  totalPages_le : s.totalPages.toNat ≤ 2 ^ 40

/-- An initialised allocator is consistent. -/
theorem Ready.consistent {s : Allocator} (hs : Ready s) : Consistent s :=
  ⟨hs.pfaReady, hs.counted, hs.scanStart_le, hs.totalPages_le.trans_lt (by decide)⟩

/-- It stays initialised while the layout is kept. -/
theorem Ready.of_sameLayout {s s' : Allocator} (hs : Ready s) (hlayout : SameLayout s s')
    (hs' : Consistent s') : Ready s' where
  pfaReady := hs'.pfaReady
  counted := hs'.counted
  scanStart_pos := by
    rw [hlayout.scanStart]
    exact hs.scanStart_pos
  scanStart_le := hs'.scanStart_le
  totalPages_le := by
    rw [hlayout.totalPages]
    exact hs.totalPages_le

/-- Without free pages the answer is 0 and nothing changes. -/
theorem allocPage_empty {s : Allocator} (hs : Ready s) (hempty : s.free = ∅) :
    s.allocPage = (0, s) :=
  hs.consistent.allocPage_empty hempty

/-- With page zero reserved, the address of a page that is handed out does not report failure. -/
theorem allocPage_nonempty {s : Allocator} (hs : Ready s) (hne : s.free.Nonempty) :
    s.allocPage.1.toNat = 4096 * s.free.min' hne ∧ s.allocPage.1 ≠ 0 ∧ Ready s.allocPage.2 ∧
      SameLayout s s.allocPage.2 ∧ s.allocPage.2.free = s.free.erase (s.free.min' hne) := by
  obtain ⟨haddr, hconsistent, hlayout, hfree⟩ := hs.consistent.allocPage_nonempty hne
  refine ⟨haddr, ?_, hs.of_sameLayout hlayout hconsistent, hlayout, hfree⟩
  intro hzero
  have hle := hs.scanStart_le _ (s.free.min'_mem hne)
  have hpos := hs.scanStart_pos
  have hzero' : s.allocPage.1.toNat = 0 := congrArg UInt64.toNat hzero
  omega

/-- `FreePage` refuses and changes nothing, or the page becomes free. -/
theorem freePage_cases {s : Allocator} (hs : Ready s) (addr : UInt64) :
    (¬ Returnable s addr ∧ s.freePage addr = (false, s)) ∨
      (Returnable s addr ∧ (s.freePage addr).1 = true ∧ Ready (s.freePage addr).2 ∧
        SameLayout s (s.freePage addr).2 ∧
        (s.freePage addr).2.free = insert (addr.toNat / 4096) s.free) := by
  obtain hrefused | ⟨hreturn, hok, hconsistent, hlayout, hfree⟩ :=
    hs.consistent.freePage_cases addr
  · exact .inl hrefused
  · exact .inr ⟨hreturn, hok, hs.of_sameLayout hlayout hconsistent, hlayout, hfree⟩

end DavOS.Mem.Allocator
