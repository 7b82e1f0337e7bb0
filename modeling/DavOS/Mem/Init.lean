import DavOS.Mem.FreeSet

/-!
# What `InitPFA` makes free

After `InitPFA` succeeds, on any memory map, the free pages are those from `scanStart` on that lie
in one available entry, between its base and its end as the allocator computes it (`Accepted`). For
memory maps whose available entries end at or below `2 ^ 52` no address computation overflows.
`InitPFA` then succeeds if there is available memory at all, and `scanStart` is behind everything
that is reserved: low memory, the kernel and the bitmap (`Initialised`).
-/

namespace DavOS.Mem

/-- The available entries and the kernel end in the part of the address space that is used. -/
structure Platform.Bounded (pl : Platform) : Prop where
  available : ∀ e ∈ pl.mmap, e.typ = 1 → e.base.toNat + e.length.toNat ≤ 2 ^ 52
  kernel : pl.kernelEndPhys.toNat < 2 ^ 52

/-- The whole page lies in the entry. -/
def MMapEntry.Covers (e : MMapEntry) (p : ℕ) : Prop :=
  e.base.toNat ≤ 4096 * p ∧ 4096 * (p + 1) ≤ e.base.toNat + e.length.toNat

instance (e : MMapEntry) (p : ℕ) : Decidable (e.Covers p) :=
  inferInstanceAs (Decidable (_ ∧ _))

/-- The whole page lies between the base and the end of the entry as the allocator computes it. It
takes an entry that runs over the end of the address space to be empty. -/
def MMapEntry.Spans (e : MMapEntry) (p : ℕ) : Prop :=
  e.base.toNat ≤ 4096 * p ∧ 4096 * (p + 1) ≤ e.stop.toNat

instance (e : MMapEntry) (p : ℕ) : Decidable (e.Spans p) :=
  inferInstanceAs (Decidable (_ ∧ _))

/-- An entry whose computed bounds span a page covers it. -/
theorem MMapEntry.Spans.covers {e : MMapEntry} {p : ℕ} (h : e.Spans p) : e.Covers p := by
  obtain ⟨hbase, hstop⟩ := h
  have hle : e.stop.toNat ≤ e.base.toNat + e.length.toNat := by
    rw [MMapEntry.stop, UInt64.toNat_add]
    exact Nat.mod_le _ _
  exact ⟨hbase, hstop.trans hle⟩

variable {pl : Platform}

/-- The available entries are those of type 1. -/
theorem Platform.mem_available {e : MMapEntry} : e ∈ pl.available ↔ e ∈ pl.mmap ∧ e.typ = 1 := by
  rw [Platform.available, List.mem_filter, decide_eq_true_eq]

/-- The end of an available entry of a bounded platform does not wrap. -/
theorem Platform.Bounded.stop (hpl : pl.Bounded) {e : MMapEntry} (he : e ∈ pl.available) :
    e.stop.toNat = e.base.toNat + e.length.toNat ∧ e.stop.toNat ≤ 2 ^ 52 := by
  obtain ⟨hmem, htyp⟩ := Platform.mem_available.mp he
  have hbound := hpl.available e hmem htyp
  have hstop : e.stop.toNat = e.base.toNat + e.length.toNat := by
    rw [MMapEntry.stop, UInt64.toNat_add]
    omega
  exact ⟨hstop, by omega⟩

/-- So the computed bounds are the true ones. -/
theorem Platform.Bounded.spans_iff (hpl : pl.Bounded) {e : MMapEntry} (he : e ∈ pl.available)
    {p : ℕ} : e.Spans p ↔ e.Covers p := by
  rw [MMapEntry.Spans, MMapEntry.Covers, (hpl.stop he).1]

/-! ## The highest end -/

/-- The loop of `maxAvailableEnd` keeps the greatest of the ends and of what it started with. -/
theorem foldl_max_spec (l : List MMapEntry) (init : UInt64) :
    let r := l.foldl (fun maxEnd e => if e.stop > maxEnd then e.stop else maxEnd) init
    init ≤ r ∧ (∀ e ∈ l, e.stop ≤ r) ∧ (r = init ∨ ∃ e ∈ l, r = e.stop) := by
  induction l generalizing init with
  | nil => exact ⟨UInt64.le_refl _, by simp, .inl rfl⟩
  | cons e l ih =>
    obtain ⟨hinit, hall, hsome⟩ := ih (if e.stop > init then e.stop else init)
    rw [List.foldl_cons]
    have hle : init ≤ (if e.stop > init then e.stop else init) ∧
        e.stop ≤ (if e.stop > init then e.stop else init) := by
      split
      · rename_i hgt
        exact ⟨UInt64.le_of_lt hgt, UInt64.le_refl _⟩
      · rename_i hgt
        exact ⟨UInt64.le_refl _, UInt64.not_lt.mp hgt⟩
    refine ⟨UInt64.le_trans hle.1 hinit, ?_, ?_⟩
    · intro e' he'
      obtain rfl | he' := List.mem_cons.mp he'
      · exact UInt64.le_trans hle.2 hinit
      · exact hall e' he'
    · obtain hsame | ⟨e', he', heq⟩ := hsome
      · rw [hsame]
        split
        · exact .inr ⟨e, by simp, rfl⟩
        · exact .inl rfl
      · exact .inr ⟨e', by simp [he'], heq⟩

/-- The end of the available memory is at most `2 ^ 52`. -/
theorem Platform.Bounded.maxAvailableEnd_le (hpl : pl.Bounded) :
    pl.maxAvailableEnd.toNat ≤ 2 ^ 52 := by
  obtain ⟨-, -, hzero | ⟨e, he, heq⟩⟩ := foldl_max_spec pl.available 0
  · rw [Platform.maxAvailableEnd, hzero]
    decide
  · rw [Platform.maxAvailableEnd, heq]
    exact (hpl.stop he).2

/-- It is 0 exactly if all available entries are empty at address 0. -/
theorem Platform.Bounded.maxAvailableEnd_eq_zero_iff (hpl : pl.Bounded) :
    pl.maxAvailableEnd = 0 ↔
      ∀ e ∈ pl.mmap, e.typ = 1 → e.base.toNat + e.length.toNat = 0 := by
  obtain ⟨-, hall, hsome⟩ := foldl_max_spec pl.available 0
  constructor
  · intro hzero e he htyp
    have hmem := Platform.mem_available.mpr ⟨he, htyp⟩
    have hle : e.stop ≤ pl.maxAvailableEnd := hall e hmem
    rw [hzero, UInt64.le_iff_toNat_le, (hpl.stop hmem).1] at hle
    exact Nat.le_zero.mp hle
  · intro hzero
    obtain hsame | ⟨e, he, heq⟩ := hsome
    · exact hsame
    · obtain ⟨hmem, htyp⟩ := Platform.mem_available.mp he
      rw [Platform.maxAvailableEnd, heq, ← UInt64.toNat_inj, (hpl.stop he).1, hzero e hmem htyp]
      rfl

namespace Allocator

/-! ## The place of the bitmap -/

/-- A bitmap that is placed in an entry starts at a rounded address between the end of the kernel
and the end of the entry. -/
theorem placeBitmap_some {kend bitmapBytes start : UInt64} {e : MMapEntry}
    (h : placeBitmap kend bitmapBytes e = some start) :
    ∃ v : UInt64, start = alignUp v pageSize ∧ kend ≤ v ∧ v ≤ e.stop := by
  simp only [placeBitmap] at h
  by_cases hskip : e.stop ≤ e.base ∨ e.stop ≤ kend
  · rw [if_pos hskip] at h
    simp at h
  rw [if_neg hskip] at h
  obtain ⟨hbase, hkend⟩ := not_or.mp hskip
  by_cases hfits : alignUp (if e.base < kend then kend else e.base) pageSize + bitmapBytes ≤ e.stop
  swap
  · rw [if_neg hfits] at h
    simp at h
  rw [if_pos hfits] at h
  refine ⟨_, (Option.some.inj h).symm, ?_⟩
  split
  · exact ⟨UInt64.le_refl _, UInt64.le_of_lt (UInt64.not_le.mp hkend)⟩
  · rename_i hlt
    exact ⟨UInt64.not_lt.mp hlt, UInt64.le_of_lt (UInt64.not_le.mp hbase)⟩

/-- `alignUp` gives a page boundary, even if it wraps. -/
theorem dvd_alignUp (v : UInt64) : 4096 ∣ (alignUp v pageSize).toNat :=
  ⟨_, toNat_alignDown (v + (pageSize - 1))⟩

/-- The bitmap starts at a page that is a rounded address `v`: the end of the kernel, or an address
behind it in an available entry. -/
theorem findBitmap_eq (pl : Platform) (bitmapBytes : UInt64) :
    ∃ v : UInt64, findBitmap pl bitmapBytes = alignUp v pageSize ∧ pl.kernelEndPhys ≤ v ∧
      (v = pl.kernelEndPhys ∨ ∃ e ∈ pl.available, v ≤ e.stop) := by
  rw [findBitmap]
  split
  · exact ⟨_, rfl, UInt64.le_refl _, .inl rfl⟩
  · rename_i hne
    rcases hfind : pl.available.findSome? (placeBitmap pl.kernelEndPhys bitmapBytes) with _ | start
    · simp [hfind] at hne
    obtain ⟨e, he, hplace⟩ := List.exists_of_findSome?_eq_some hfind
    obtain ⟨v, rfl, hle, hstop⟩ := placeBitmap_some hplace
    exact ⟨v, rfl, hle, .inr ⟨e, he, hstop⟩⟩

/-- The bitmap starts at a page boundary. -/
theorem dvd_findBitmap (pl : Platform) (bitmapBytes : UInt64) :
    4096 ∣ (findBitmap pl bitmapBytes).toNat := by
  obtain ⟨v, heq, -⟩ := findBitmap_eq pl bitmapBytes
  rw [heq]
  exact dvd_alignUp v

/-- The bitmap starts behind the kernel. -/
theorem findBitmap_spec (hpl : pl.Bounded) (bitmapBytes : UInt64) :
    pl.kernelEndPhys.toNat ≤ (findBitmap pl bitmapBytes).toNat ∧
      (findBitmap pl bitmapBytes).toNat ≤ 2 ^ 52 + 4096 := by
  obtain ⟨v, heq, hle, hv⟩ := findBitmap_eq pl bitmapBytes
  have hkernel := hpl.kernel
  have hmax : v.toNat ≤ 2 ^ 52 := by
    obtain rfl | ⟨e, he, hstop⟩ := hv
    · exact hkernel.le
    · exact (UInt64.le_iff_toNat_le.mp hstop).trans (hpl.stop he).2
  rw [UInt64.le_iff_toNat_le] at hle
  rw [heq, toNat_alignUp (by omega)]
  omega

/-! ## The extent of the bitmap -/

/-- The number of pages that `InitPFA` computes from the memory map. -/
def managedPages (pl : Platform) : UInt64 := (pl.maxAvailableEnd + (pageSize - 1)) / pageSize

/-- The size in bytes of the bitmap for them. -/
def bitmapSize (pl : Platform) : UInt64 := (managedPages pl + 7) / 8

/-- The end of the pages of the bitmap, and of all that `InitPFA` reserves. -/
def bitmapEnd (pl : Platform) : UInt64 :=
  findBitmap pl (bitmapSize pl) + alignUp (bitmapSize pl) pageSize / pageSize * pageSize

/-- The number of pages fits, whatever the memory map says. -/
theorem managedPages_lt (pl : Platform) : (managedPages pl).toNat < 2 ^ 52 := by
  have hmax := (pl.maxAvailableEnd + (pageSize - 1)).toNat_lt
  rw [managedPages, UInt64.toNat_div, show pageSize.toNat = 4096 from rfl]
  omega

/-- With no page to manage, the highest end is zero or rounding it up overflows. -/
theorem maxAvailableEnd_lt (hpages : managedPages pl ≠ 0) :
    pl.maxAvailableEnd.toNat + 4095 < 2 ^ 64 := by
  by_contra hover
  apply hpages
  have hmax := pl.maxAvailableEnd.toNat_lt
  rw [← UInt64.toNat_inj, managedPages, UInt64.toNat_div, UInt64.toNat_add,
    show (pageSize - 1).toNat = 4095 from rfl, show pageSize.toNat = 4096 from rfl]
  change _ = 0
  omega

/-- The number of pages is the end of the available memory in pages, rounded up. -/
theorem toNat_managedPages (hpages : managedPages pl ≠ 0) :
    (managedPages pl).toNat = (pl.maxAvailableEnd.toNat + 4095) / 4096 := by
  have hmax := maxAvailableEnd_lt hpages
  rw [managedPages, UInt64.toNat_div, UInt64.toNat_add, show (pageSize - 1).toNat = 4095 from rfl,
    show pageSize.toNat = 4096 from rfl]
  omega

/-- The pages of an available entry are managed. -/
theorem spanned_lt_managedPages (hpages : managedPages pl ≠ 0) {e : MMapEntry}
    (he : e ∈ pl.available) {p : ℕ} (hspans : e.Spans p) : p < (managedPages pl).toNat := by
  obtain ⟨-, hall, -⟩ := foldl_max_spec pl.available 0
  have hstop : e.stop.toNat ≤ pl.maxAvailableEnd.toNat := UInt64.le_iff_toNat_le.mp (hall e he)
  have hhigh := hspans.2
  rw [toNat_managedPages hpages]
  omega

/-- The bitmap has a bit for each page. -/
theorem toNat_bitmapSize (pl : Platform) :
    (bitmapSize pl).toNat = ((managedPages pl).toNat + 7) / 8 := by
  have hle := managedPages_lt pl
  rw [bitmapSize, UInt64.toNat_div, UInt64.toNat_add, show (7 : UInt64).toNat = 7 from rfl,
    show (8 : UInt64).toNat = 8 from rfl]
  omega

/-- The pages of the bitmap may run over the end of the address space. -/
theorem toNat_bitmapEnd (pl : Platform) :
    (bitmapEnd pl).toNat = ((findBitmap pl (bitmapSize pl)).toNat +
      4096 * (((bitmapSize pl).toNat + 4095) / 4096)) % 2 ^ 64 := by
  have hle := managedPages_lt pl
  have hsize := toNat_bitmapSize pl
  rw [bitmapEnd, UInt64.toNat_add, UInt64.toNat_mul, UInt64.toNat_div, toNat_alignUp (by omega),
    show pageSize.toNat = 4096 from rfl]
  omega

/-- The bitmap ends at a page boundary. -/
theorem dvd_bitmapEnd (pl : Platform) : 4096 ∣ (bitmapEnd pl).toNat := by
  have haligned := dvd_findBitmap pl (bitmapSize pl)
  rw [toNat_bitmapEnd]
  omega

/-- On a bounded platform with available memory there are pages. -/
theorem managedPages_ne_zero (hpl : pl.Bounded) (hne : pl.maxAvailableEnd ≠ 0) :
    managedPages pl ≠ 0 := by
  have hmax := hpl.maxAvailableEnd_le
  have hpos : 0 < pl.maxAvailableEnd.toNat :=
    Nat.pos_of_ne_zero fun h => hne (UInt64.toNat_inj.mp h)
  intro hzero
  have hnat : (managedPages pl).toNat = 0 := congrArg UInt64.toNat hzero
  rw [managedPages, UInt64.toNat_div, UInt64.toNat_add, show (pageSize - 1).toNat = 4095 from rfl,
    show pageSize.toNat = 4096 from rfl] at hnat
  omega

/-- On a bounded platform there are at most `2 ^ 40` pages. -/
theorem managedPages_le (hpl : pl.Bounded) : (managedPages pl).toNat ≤ 2 ^ 40 := by
  have hmax := hpl.maxAvailableEnd_le
  rw [managedPages, UInt64.toNat_div, UInt64.toNat_add, show (pageSize - 1).toNat = 4095 from rfl,
    show pageSize.toNat = 4096 from rfl]
  omega

/-- On a bounded platform the end of the bitmap does not wrap. -/
theorem toNat_bitmapEnd_of_bounded (hpl : pl.Bounded) :
    (bitmapEnd pl).toNat = (findBitmap pl (bitmapSize pl)).toNat +
      4096 * (((bitmapSize pl).toNat + 4095) / 4096) := by
  have hle := managedPages_le hpl
  have hsize := toNat_bitmapSize pl
  obtain ⟨-, hphys⟩ := findBitmap_spec hpl (bitmapSize pl)
  rw [toNat_bitmapEnd]
  omega

/-! ## The bitmap before any page is free -/

/-- A store changes one byte of the bitmap. -/
theorem bitmapByte_storeBitmapByte (s : Allocator) (off off' : UInt64) (b : UInt8) :
    (s.storeBitmapByte off b).bitmapByte off' = if off' = off then b else s.bitmapByte off' := by
  simp only [storeBitmapByte, bitmapByte, UInt64.add_right_inj]

/-- After `n` rounds the loop has filled `n` bytes of the bitmap. -/
theorem fillLoop_spec (n : ℕ) (s : Allocator) :
    let s' := (List.range n).foldl (fun s i => s.storeBitmapByte (UInt64.ofNat i) 0xFF) s
    SameLayout s s' ∧ s'.freePages = s.freePages ∧
      ∀ off : UInt64, off.toNat < n → s'.bitmapByte off = 0xFF := by
  induction n with
  | zero => exact ⟨.refl s, rfl, by simp⟩
  | succ n ih =>
    rw [List.range_succ, List.foldl_append]
    obtain ⟨hlayout, hcount, hbytes⟩ := ih
    refine ⟨hlayout.trans ⟨rfl, rfl, rfl, rfl, rfl⟩, hcount, ?_⟩
    intro off hoff
    rw [List.foldl_cons, List.foldl_nil, bitmapByte_storeBitmapByte]
    split
    · rfl
    · rename_i hne
      apply hbytes
      refine lt_of_le_of_ne (Nat.le_of_lt_succ hoff) ?_
      rintro rfl
      exact hne (UInt64.ofNat_toNat).symm

/-- After the fill no page is free. -/
theorem fillBitmap_spec {s : Allocator} (hbytes : s.totalPages.toNat ≤ 8 * s.bitmapBytes.toNat)
    (hcount : s.freePages = 0) :
    SameLayout s s.fillBitmap ∧ Counted s.fillBitmap ∧ s.fillBitmap.free = ∅ := by
  obtain ⟨hlayout, hfree, hfill⟩ := fillLoop_spec s.bitmapBytes.toNat s
  have hempty : s.fillBitmap.free = ∅ := by
    rw [Finset.eq_empty_iff_forall_notMem]
    intro p hp
    obtain ⟨htotal, hclear⟩ := mem_free.mp hp
    replace htotal : p < s.totalPages.toNat := hlayout.totalPages ▸ htotal
    have hpage : (UInt64.ofNat p).toNat = p :=
      UInt64.toNat_ofNat_of_lt' (htotal.trans s.totalPages.toNat_lt)
    have hbyte : s.fillBitmap.bitmapByte (UInt64.ofNat p >>> 3) = 0xFF := by
      apply hfill
      rw [PackedBits.toNat_shiftRight_three, hpage]
      omega
    rw [bitmapGet_eq, PackedBits.get_of_full hbyte] at hclear
    simp at hclear
  refine ⟨hlayout, ?_, hempty⟩
  rw [Counted, hempty, show s.fillBitmap.freePages = 0 from hfree.trans hcount]
  rfl

/-! ## The available entries -/

/-- Marking an entry frees the pages that it spans. -/
theorem markFreeRange_entry {e : MMapEntry} (hstop : e.stop.toNat + 4095 < 2 ^ 64)
    (s : Allocator) :
    let s' := s.markFreeRange e.base e.stop
    SameLayout s s' ∧ (Counted s → Counted s') ∧
      ∀ p, p ∈ s'.free ↔ p ∈ s.free ∨ p < s.totalPages.toNat ∧ e.Spans p := by
  obtain ⟨hlayout, hcounted, hfree⟩ := markFreeRange_spec e.base e.stop hstop s
  refine ⟨hlayout, hcounted, fun p => ?_⟩
  have hspans : (e.base.toNat + 4095) / 4096 ≤ p ∧ p < e.stop.toNat / 4096 ∧
      p < s.totalPages.toNat ↔ p < s.totalPages.toNat ∧ e.Spans p := by
    rw [MMapEntry.Spans]
    omega
  rw [hfree]
  simp only [hspans]
  split <;> simp_all

/-- The loop over the entries frees the pages that one of them spans, by induction on the list. -/
theorem freeAvailable_spec (l : List MMapEntry)
    (hl : ∀ e ∈ l, e.stop.toNat + 4095 < 2 ^ 64) (s : Allocator) :
    let s' := l.foldl (fun s e => s.markFreeRange e.base e.stop) s
    SameLayout s s' ∧ (Counted s → Counted s') ∧
      ∀ p, p ∈ s'.free ↔ p ∈ s.free ∨ p < s.totalPages.toNat ∧ ∃ e ∈ l, e.Spans p := by
  induction l generalizing s with
  | nil => exact ⟨.refl s, id, by simp⟩
  | cons e l ih =>
    obtain ⟨hlayout, hcounted, hfree⟩ := markFreeRange_entry (hl e (by simp)) s
    obtain ⟨hlayout', hcounted', hfree'⟩ :=
      ih (fun e' he' => hl e' (by simp [he'])) (s.markFreeRange e.base e.stop)
    refine ⟨hlayout.trans hlayout', hcounted' ∘ hcounted, fun p => ?_⟩
    rw [List.foldl_cons, hfree', hfree, hlayout.totalPages, List.exists_mem_cons_iff,
      or_assoc, ← and_or_left]

/-! ## Initialisation -/

/-- What `InitPFA` leaves behind on any memory map that it accepts. -/
structure Accepted (pl : Platform) (s : Allocator) : Prop where
  consistent : Consistent s
  totalPages : s.totalPages = managedPages pl
  bitmapPhys : s.bitmapPhys = findBitmap pl (bitmapSize pl)
  bitmapBytes : s.bitmapBytes = bitmapSize pl
  scanStart : s.scanStart.toNat * 4096 = (bitmapEnd pl).toNat
  free : ∀ p, p ∈ s.free ↔ p < s.totalPages.toNat ∧ s.scanStart.toNat ≤ p ∧
    ∃ e ∈ pl.available, e.Spans p

/-- The scan starts at the page behind the bitmap. -/
theorem Accepted.scanStart_eq {s : Allocator} (h : Accepted pl s) {page : ℕ}
    (hend : (bitmapEnd pl).toNat = page * 4096) : s.scanStart.toNat = page :=
  Nat.eq_of_mul_eq_mul_right (by decide) (h.scanStart.trans hend)

/-- Without available memory `initPFA` fails. -/
theorem initPFA_empty (hzero : pl.maxAvailableEnd = 0) (s : Allocator) :
    (initPFA pl s).1 = false := by
  rw [initPFA, if_pos hzero]

/-- The state before the bitmap is filled. -/
def laidOut (pl : Platform) (s : Allocator) : Allocator :=
  { s with
    pfaReady := false
    freePages := 0
    totalPages := managedPages pl
    bitmapBytes := bitmapSize pl
    bitmapPhys := findBitmap pl (bitmapSize pl) }

/-- The state that a successful `initPFA` leaves, stage by stage. -/
theorem initPFA_eq (hne : pl.maxAvailableEnd ≠ 0) (hpages : managedPages pl ≠ 0) (s : Allocator) :
    initPFA pl s = (true,
      { (pl.available.foldl (fun s e => s.markFreeRange e.base e.stop)
          (laidOut pl s).fillBitmap).markUsedRange 0 (bitmapEnd pl) with
        scanStart := bitmapEnd pl / pageSize
        pfaReady := true }) := by
  simp only [initPFA, if_neg hne, ← managedPages.eq_def, if_neg hpages]
  rfl

/-- The free pages after the three passes over the bitmap. -/
theorem passes_spec (hpages : managedPages pl ≠ 0) (s : Allocator) :
    let s' := (pl.available.foldl (fun s e => s.markFreeRange e.base e.stop)
      (laidOut pl s).fillBitmap).markUsedRange 0 (bitmapEnd pl)
    SameLayout (laidOut pl s) s' ∧ Counted s' ∧
      ∀ p, p ∈ s'.free ↔ p < (managedPages pl).toNat ∧ (bitmapEnd pl).toNat / 4096 ≤ p ∧
        ∃ e ∈ pl.available, e.Spans p := by
  intro s'
  have hsize := toNat_bitmapSize pl
  have haligned := dvd_bitmapEnd pl
  have hmax := (bitmapEnd pl).toNat_lt
  have hends : ∀ e ∈ pl.available, e.stop.toNat + 4095 < 2 ^ 64 := by
    intro e he
    have hle : e.stop ≤ pl.maxAvailableEnd := (foldl_max_spec pl.available 0).2.1 e he
    rw [UInt64.le_iff_toNat_le] at hle
    have := maxAvailableEnd_lt hpages
    omega
  obtain ⟨hlayout₁, hcounted₁, hfree₁⟩ := fillBitmap_spec (s := laidOut pl s)
    (by change (managedPages pl).toNat ≤ 8 * (bitmapSize pl).toNat; omega) rfl
  obtain ⟨hlayout₂, hcounted₂, hfree₂⟩ :=
    freeAvailable_spec pl.available hends (laidOut pl s).fillBitmap
  set s₂ := pl.available.foldl (fun s e => s.markFreeRange e.base e.stop) (laidOut pl s).fillBitmap
  obtain ⟨hlayout₃, hcounted₃, hfree₃⟩ :=
    markUsedRange_spec 0 (bitmapEnd pl) (by omega) (.inr rfl) s₂
  have htotal₁ : (laidOut pl s).fillBitmap.totalPages = managedPages pl := hlayout₁.totalPages
  have htotal₂ : s₂.totalPages = managedPages pl := hlayout₂.totalPages.trans htotal₁
  refine ⟨(hlayout₁.trans hlayout₂).trans hlayout₃, hcounted₃ (hcounted₂ hcounted₁), fun p => ?_⟩
  -- the reserved range ends at a page, so rounding up its end changes nothing
  have hreserved : (0 : UInt64).toNat / 4096 ≤ p ∧ p < ((bitmapEnd pl).toNat + 4095) / 4096 ∧
      p < s₂.totalPages.toNat ↔ ¬ (bitmapEnd pl).toNat / 4096 ≤ p ∧
        p < (managedPages pl).toNat := by
    rw [htotal₂, show (0 : UInt64).toNat = 0 from rfl]
    omega
  rw [hfree₃]
  simp only [hreserved, hfree₂, hfree₁, htotal₁, Finset.notMem_empty, false_or]
  split
  · rename_i h
    simp [h.1]
  · rename_i h
    constructor
    · rintro ⟨hlt, hspans⟩
      exact ⟨hlt, not_not.mp fun hp => h ⟨hp, hlt⟩, hspans⟩
    · rintro ⟨hlt, -, hspans⟩
      exact ⟨hlt, hspans⟩

/-- **`InitPFA` on any memory map.** It succeeds if there is a page to manage. -/
theorem initPFA_accepted (hne : pl.maxAvailableEnd ≠ 0) (hpages : managedPages pl ≠ 0)
    (s : Allocator) : (initPFA pl s).1 = true ∧ Accepted pl (initPFA pl s).2 := by
  obtain ⟨hlayout, hcounted, hfree⟩ := passes_spec hpages s
  have hscan : (bitmapEnd pl / pageSize).toNat = (bitmapEnd pl).toNat / 4096 := UInt64.toNat_div _ _
  have haligned := dvd_bitmapEnd pl
  rw [initPFA_eq hne hpages]
  set s' := (pl.available.foldl (fun s e => s.markFreeRange e.base e.stop)
    (laidOut pl s).fillBitmap).markUsedRange 0 (bitmapEnd pl)
  have htotal : s'.totalPages = managedPages pl := hlayout.totalPages
  have hconsistent : Consistent
      { s' with
        scanStart := bitmapEnd pl / pageSize
        pfaReady := true } := by
    refine ⟨rfl, hcounted, ?_, ?_⟩
    · intro p hp
      rw [hscan]
      exact ((hfree p).mp hp).2.1
    · rw [htotal]
      exact managedPages_lt pl
  refine ⟨rfl, hconsistent, htotal, hlayout.bitmapPhys, hlayout.bitmapBytes, ?_, fun p => ?_⟩
  · rw [hscan]
    omega
  · rw [hscan, htotal]
    exact hfree p

/-- What a successful `initPFA` has established. -/
theorem accepted_of_initPFA {s : Allocator} (hinit : (initPFA pl s).1 = true) :
    pl.maxAvailableEnd ≠ 0 ∧ managedPages pl ≠ 0 ∧ Accepted pl (initPFA pl s).2 := by
  have hne : pl.maxAvailableEnd ≠ 0 := by
    intro hzero
    simp [initPFA_empty hzero] at hinit
  have hpages : managedPages pl ≠ 0 := by
    intro hzero
    simp [initPFA, if_neg hne, ← managedPages.eq_def, hzero] at hinit
  exact ⟨hne, hpages, (initPFA_accepted hne hpages s).2⟩

/-- What `InitPFA` leaves behind. -/
structure Initialised (pl : Platform) (s : Allocator) : Prop where
  ready : Ready s
  kernel : pl.kernelEndPhys.toNat ≤ s.bitmapPhys.toNat
  aligned : 4096 ∣ s.bitmapPhys.toNat
  bitmapBytes : s.bitmapBytes.toNat = (s.totalPages.toNat + 7) / 8
  scanStart : s.scanStart.toNat * 4096 =
    s.bitmapPhys.toNat + 4096 * ((s.bitmapBytes.toNat + 4095) / 4096)
  free : ∀ p, p ∈ s.free ↔ p < s.totalPages.toNat ∧ s.scanStart.toNat ≤ p ∧
    ∃ e ∈ pl.available, e.Covers p

/-- **`InitPFA` on a memory map with available memory.** -/
theorem initPFA_spec (hpl : pl.Bounded) (hne : pl.maxAvailableEnd ≠ 0) (s : Allocator) :
    (initPFA pl s).1 = true ∧ Initialised pl (initPFA pl s).2 := by
  obtain ⟨hok, hinit⟩ := initPFA_accepted hne (managedPages_ne_zero hpl hne) s
  obtain ⟨hkernel, -⟩ := findBitmap_spec hpl (bitmapSize pl)
  have hsize := toNat_bitmapSize pl
  have hend := toNat_bitmapEnd_of_bounded hpl
  have hscan := hinit.scanStart
  have hpos : managedPages pl ≠ 0 := managedPages_ne_zero hpl hne
  rw [Ne, ← UInt64.toNat_inj, show (0 : UInt64).toNat = 0 from rfl] at hpos
  refine ⟨hok, ⟨hinit.consistent.pfaReady, hinit.consistent.counted, by omega,
    hinit.consistent.scanStart_le, ?_⟩, ?_, ?_, ?_, ?_, fun p => ?_⟩
  · rw [hinit.totalPages]
    exact managedPages_le hpl
  · rw [hinit.bitmapPhys]
    exact hkernel
  · rw [hinit.bitmapPhys]
    exact dvd_findBitmap pl _
  · rw [hinit.bitmapBytes, hinit.totalPages]
    exact hsize
  · rw [hinit.bitmapPhys, hinit.bitmapBytes]
    omega
  · rw [hinit.free p]
    refine and_congr_right fun _ => and_congr_right fun _ => exists_congr fun e =>
      and_congr_right fun he => hpl.spans_iff he

/-! ## Pages handed out after the initialisation -/

/-- The results of `n` calls of `AllocPage`. -/
def allocPages : ℕ → Allocator → List UInt64
  | 0, _ => []
  | n + 1, s => s.allocPage.1 :: allocPages n s.allocPage.2

/-- A page that is handed out was free, or the answer is 0. -/
theorem allocPages_mem (n : ℕ) {s : Allocator} (hs : Consistent s) {addr : UInt64}
    (haddr : addr ∈ allocPages n s) : addr = 0 ∨ ∃ p ∈ s.free, addr.toNat = 4096 * p := by
  induction n generalizing s with
  | zero => simp [allocPages] at haddr
  | succ n ih =>
    rcases s.free.eq_empty_or_nonempty with hempty | hne
    · have halloc := hs.allocPage_empty hempty
      rw [allocPages, halloc] at haddr
      obtain rfl | haddr := List.mem_cons.mp haddr
      · exact .inl rfl
      · exact ih hs haddr
    · obtain ⟨hresult, hnext, -, hfree⟩ := hs.allocPage_nonempty hne
      rw [allocPages] at haddr
      obtain rfl | haddr := List.mem_cons.mp haddr
      · exact .inr ⟨_, s.free.min'_mem hne, hresult⟩
      · obtain hzero | ⟨p, hp, heq⟩ := ih hnext haddr
        · exact .inl hzero
        · rw [hfree] at hp
          exact .inr ⟨p, Finset.mem_of_mem_erase hp, heq⟩

/-- Enough calls hand out every free page. -/
theorem mem_allocPages (n : ℕ) {s : Allocator} (hs : Consistent s) (hcard : s.free.card ≤ n) {p : ℕ}
    (hp : p ∈ s.free) : ∃ addr ∈ allocPages n s, addr.toNat = 4096 * p := by
  induction n generalizing s with
  | zero =>
    have hpos : 0 < s.free.card := Finset.card_pos.mpr ⟨p, hp⟩
    omega
  | succ n ih =>
    have hne : s.free.Nonempty := ⟨p, hp⟩
    obtain ⟨hresult, hnext, -, hfree⟩ := hs.allocPage_nonempty hne
    rw [allocPages]
    by_cases hmin : p = s.free.min' hne
    · exact ⟨_, List.mem_cons_self .., by rw [hresult, ← hmin]⟩
    · have hcard' : s.allocPage.2.free.card ≤ n := by
        rw [hfree, Finset.card_erase_of_mem (s.free.min'_mem hne)]
        omega
      obtain ⟨addr, haddr, heq⟩ :=
        ih hnext hcard' (by rw [hfree]; exact Finset.mem_erase.mpr ⟨hmin, hp⟩)
      exact ⟨addr, List.mem_cons_of_mem _ haddr, heq⟩

/-- **`InitPFA` computes the safe free pages.** It fails exactly if no available entry has a
non-zero end. After it succeeds, a page is free exactly if it is behind the reserved part of the
memory and lies as a whole in one available entry. The reserved part begins at address zero and ends
with the pages of the bitmap, which come after the kernel; so no page that is handed out next
overlaps it. -/
theorem initPFA_frees_safe_pages (pl : Platform) (hpl : pl.Bounded) (s₀ : Allocator) :
    ((initPFA pl s₀).1 = false ↔
      ∀ e ∈ pl.mmap, e.typ = 1 → e.base.toNat + e.length.toNat = 0) ∧
    ((initPFA pl s₀).1 = true →
      let s := (initPFA pl s₀).2
      (∀ p < s.totalPages.toNat, s.bitmapGet (UInt64.ofNat p) = false ↔
        s.scanStart.toNat ≤ p ∧ ∃ e ∈ pl.mmap, e.typ = 1 ∧ e.Covers p) ∧
      s.scanStart.toNat * 4096 =
        s.bitmapPhys.toNat + 4096 * ((s.bitmapBytes.toNat + 4095) / 4096) ∧
      s.bitmapBytes.toNat = (s.totalPages.toNat + 7) / 8 ∧
      pl.kernelEndPhys.toNat ≤ s.bitmapPhys.toNat ∧ 4096 ∣ s.bitmapPhys.toNat ∧
      ∀ n, ∀ addr ∈ allocPages n s, addr ≠ 0 →
        s.scanStart.toNat * 4096 ≤ addr.toNat ∧ pl.kernelEndPhys.toNat ≤ addr.toNat ∧
        s.bitmapPhys.toNat + s.bitmapBytes.toNat ≤ addr.toNat ∧
        ∃ e ∈ pl.mmap, e.typ = 1 ∧ e.base.toNat ≤ addr.toNat ∧
          addr.toNat + 4096 ≤ e.base.toNat + e.length.toNat) := by
  rw [← hpl.maxAvailableEnd_eq_zero_iff]
  by_cases hzero : pl.maxAvailableEnd = 0
  · have hfail := initPFA_empty hzero s₀
    exact ⟨iff_of_true hfail hzero, fun h => by simp [hfail] at h⟩
  obtain ⟨hok, hinit⟩ := initPFA_spec hpl hzero s₀
  refine ⟨iff_of_false (by simp [hok]) hzero, fun _ => ?_⟩
  set s := (initPFA pl s₀).2
  have hscan := hinit.scanStart
  have hkernel := hinit.kernel
  refine ⟨?_, hscan, hinit.bitmapBytes, hkernel, hinit.aligned, ?_⟩
  · intro p hp
    have hmem := hinit.free p
    simp only [mem_free, hp, true_and, Platform.mem_available, and_assoc] at hmem
    exact hmem
  · intro n addr haddr hne
    obtain rfl | ⟨p, hp, heq⟩ := allocPages_mem n hinit.ready.consistent haddr
    · simp at hne
    obtain ⟨-, hle, e, he, hlow, hhigh⟩ := (hinit.free p).mp hp
    obtain ⟨hmem, htyp⟩ := Platform.mem_available.mp he
    exact ⟨by omega, by omega, by omega, e, hmem, htyp, by omega, by omega⟩

/-- One available entry of 32 pages from 1 MiB on, with the kernel in its first page. -/
def smallPlatform : Platform where
  mmap := [⟨0x00100000, 0, 0x00020000, 0, 1⟩]
  kernelEnd := 0x00101000
  bootstrapEnd := 0
  mmap_length := by decide

/-- The small platform is bounded. -/
theorem smallPlatform_bounded : smallPlatform.Bounded where
  available := by
    intro e he _
    obtain rfl := List.mem_singleton.mp he
    decide
  kernel := by decide

def blankAllocator : Allocator := ⟨false, 0, 0, 0, 0, 0, fun _ => 0⟩

/-- `InitPFA` succeeds on the small platform. -/
theorem smallPlatform_initialised : (initPFA smallPlatform blankAllocator).1 = true :=
  (initPFA_spec smallPlatform_bounded (by decide) blankAllocator).1

/-- The next pages that the small platform hands out are behind its kernel. -/
theorem smallPlatform_frees_safe_pages :
    (initPFA smallPlatform blankAllocator).1 = true ∧
      ∀ addr ∈ allocPages 2 (initPFA smallPlatform blankAllocator).2, addr ≠ 0 →
        0x00101000 ≤ addr.toNat := by
  obtain ⟨-, hsafe⟩ :=
    initPFA_frees_safe_pages smallPlatform smallPlatform_bounded blankAllocator
  obtain ⟨-, -, -, -, -, halloc⟩ := hsafe smallPlatform_initialised
  refine ⟨smallPlatform_initialised, ?_⟩
  intro addr haddr hne
  exact (halloc 2 addr haddr hne).2.1

end Allocator

end DavOS.Mem
