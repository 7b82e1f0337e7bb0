import DavOS.Fat16.Formatted
import DavOS.Fat16.Frame
import Mathlib.Data.Finset.Card
import Mathlib.Order.Interval.Finset.Nat

/-!
# Refused files

`createFile` refuses a file at three points. Two of them come before anything has been written. The
third, a full directory, comes after the cluster of the file has been marked: the FAT stays changed,
and each such refusal costs a cluster (`Formatted.unchanged_iff`).
-/

namespace DavOS.Fat16

/-- The arguments of `createFile`. -/
structure Request where
  name : FileName
  data : Sector
  dataLen : UInt32

def Request.call (r : Request) (v : Volume Image) : Except String Unit × Volume Image :=
  createFile working r.name r.data r.dataLen v

/-- The volume after `format`, `init` and any calls of `createFile`. -/
def afterRequests (v₀ : Volume Image) (requests : List Request) : Volume Image :=
  requests.foldl (fun v r => (r.call v).2) (Archive.ofFormat v₀).volume

/-- The last request is made on the volume that the others leave. -/
theorem afterRequests_concat (v₀ : Volume Image) (requests : List Request) (r : Request) :
    afterRequests v₀ (requests ++ [r]) = (r.call (afterRequests v₀ requests)).2 := by
  rw [afterRequests, List.foldl_append]
  rfl

/-- The clusters that a file may still get. -/
def freeClusters (g : Geometry) (d : Contents) : Finset ℕ :=
  (Finset.range g.fatEntries).filter fun c => 2 ≤ c ∧ fatEntry g d c = 0

/-- Without a first free cluster there is none. -/
theorem freeClusters_eq_empty {g : Geometry} {d : Contents} (h : firstFree g d = none) :
    freeClusters g d = ∅ := by
  refine Finset.filter_eq_empty_iff.mpr ?_
  rintro c hc ⟨htwo, hzero⟩
  exact firstFree_eq_none.mp h c (Finset.mem_range.mp hc) htwo hzero

/-- A volume with the geometry that `format` writes. -/
structure Formatted (v : Volume Image) : Prop where
  geometry : v.geometry = formatGeometry
  initialized : v.initialized = true

namespace Formatted

variable {v v' : Volume Image} {c : UInt16}

/-- A volume that has just been formatted satisfies `Formatted`. -/
theorem ofFormat (v₀ : Volume Image) : Formatted (Archive.ofFormat v₀).volume := by
  obtain ⟨-, -, hholds⟩ := Archive.init_format v₀
  exact ⟨hholds.geometry, hholds.initialized⟩

/-- `Formatted` is about the mount only. -/
theorem sameMount (hv : Formatted v) (h : SameMount v v') : Formatted v' :=
  ⟨h.geometry.trans hv.geometry, h.initialized.trans hv.initialized⟩

/-- A request keeps the mount. -/
theorem call (hv : Formatted v) (r : Request) : Formatted (r.call v).2 := by
  have hcreate := creation hv.initialized r.name r.data r.dataLen
  rw [Request.call]
  generalize createFile working r.name r.data r.dataLen v = result at hcreate
  cases hcreate with
  | duplicate _ hv' => exact hv.sameMount hv'.toSameMount
  | noCluster _ _ hv' => exact hv.sameMount hv'.toSameMount
  | directoryFull _ _ _ _ hmount _ => exact hv.sameMount hmount
  | created _ _ _ _ hmount _ _ _ => exact hv.sameMount hmount

/-- So does any number of requests. -/
theorem afterRequests (v₀ : Volume Image) (requests : List Request) :
    Formatted (afterRequests v₀ requests) := by
  refine List.foldlRecOn requests _ (ofFormat v₀) fun v hv r _ => ?_
  exact hv.call r

/-- The cluster that is marked for a file was free. -/
theorem firstFree_eq (hv : Formatted v) (hc : freeCluster v.geometry v.disk.sectors = c)
    (hne : c ≠ 0) : firstFree v.geometry v.disk.sectors = some c.toNat := by
  obtain ⟨c₀, hfirst, rfl⟩ := freeCluster_ne_zero hc hne
  obtain ⟨hlt, -, -, -⟩ := firstFree_eq_some.mp hfirst
  rw [hv.geometry, formatGeometry_fatEntries] at hlt
  rw [hfirst, toNat_ofNat_cluster hlt]

/-- The search returns 0 exactly if there is no free cluster. -/
theorem freeCluster_eq_zero_iff (hv : Formatted v) :
    freeCluster v.geometry v.disk.sectors = 0 ↔ firstFree v.geometry v.disk.sectors = none := by
  rw [freeCluster]
  cases hfirst : firstFree v.geometry v.disk.sectors with
  | none => simp
  | some c₀ =>
    obtain ⟨hlt, htwo, -, -⟩ := firstFree_eq_some.mp hfirst
    rw [hv.geometry, formatGeometry_fatEntries] at hlt
    have hnat := toNat_ofNat_cluster hlt
    refine iff_of_false ?_ (by simp)
    intro hzero
    rw [Option.map_some, Option.getD_some] at hzero
    rw [hzero, show (0 : UInt16).toNat = 0 from rfl] at hnat
    omega

/-- Marking a cluster leaves the directory as it is. -/
theorem slot_markUsed (hv : Formatted v) (hc : c.toNat < v.geometry.fatEntries) :
    ∀ k < v.geometry.slots, slot v.geometry (markUsed v.geometry v.disk.sectors c) k =
      slot v.geometry v.disk.sectors k := by
  rw [hv.geometry] at hc ⊢
  intro k hk
  exact Fat16.slot_markUsed located_formatGeometry formatGeometry_numFATs.ge hc hk

/-- Marking a free cluster takes it from the free ones. -/
theorem freeClusters_markUsed (hv : Formatted v)
    (hfirst : firstFree v.geometry v.disk.sectors = some c.toNat) :
    c.toNat ∈ freeClusters v.geometry v.disk.sectors ∧
      freeClusters v.geometry (markUsed v.geometry v.disk.sectors c) =
        (freeClusters v.geometry v.disk.sectors).erase c.toNat := by
  obtain ⟨hlt, htwo, hzero, -⟩ := firstFree_eq_some.mp hfirst
  rw [hv.geometry] at hlt hzero ⊢
  refine ⟨by simp [freeClusters, hlt, htwo, hzero], ?_⟩
  ext j
  simp only [freeClusters, Finset.mem_erase, Finset.mem_filter, Finset.mem_range]
  by_cases hj : j < formatGeometry.fatEntries
  · rw [fatEntry_markUsed located_formatGeometry hlt hj]
    by_cases hjc : j = c.toNat
    · simp [hjc]
    · simp [hj, hjc]
  · simp [hj]

/-- A file in the directory leaves the FAT as it is. -/
theorem freeClusters_place (hv : Formatted v) {d : Contents} {k : ℕ} (hk : k < v.geometry.slots)
    {n : FileName} {data : Sector} {dataLen : UInt32} :
    freeClusters v.geometry (place v.geometry d k n c data dataLen) =
      freeClusters v.geometry d := by
  rw [hv.geometry] at hk ⊢
  refine Finset.filter_congr fun j hj => ?_
  rw [fatEntry_place located_formatGeometry (by decide) hk (Finset.mem_range.mp hj)]

/-- **A refused file changes nothing** unless the directory is full while a cluster is free. -/
theorem unchanged_iff (hv : Formatted v) (r : Request) :
    ((r.call v).1 ≠ .ok () → (r.call v).2.disk.sectors = v.disk.sectors ∧
      (freeClusters (r.call v).2.geometry (r.call v).2.disk.sectors).card =
        (freeClusters v.geometry v.disk.sectors).card) ↔
      Duplicate v.geometry v.disk.sectors r.name ∨ firstFree v.geometry v.disk.sectors = none ∨
        freeSlot v.geometry v.disk.sectors ≠ none := by
  have hcreate := creation hv.initialized r.name r.data r.dataLen
  rw [Request.call]
  generalize createFile working r.name r.data r.dataLen v = result at hcreate
  cases hcreate with
  | duplicate hdup hv' =>
    refine iff_of_true (fun _ => ⟨hv'.sectors, ?_⟩) (.inl hdup)
    rw [hv'.sectors, hv'.geometry]
  | noCluster hdup hfree hv' =>
    refine iff_of_true (fun _ => ⟨hv'.sectors, ?_⟩)
      (.inr (.inl (hv.freeCluster_eq_zero_iff.mp hfree)))
    rw [hv'.sectors, hv'.geometry]
  | directoryFull hdup hc hne hslot hmount hv' =>
    have hfirst := hv.firstFree_eq hc hne
    obtain ⟨hlt, -, -, -⟩ := firstFree_eq_some.mp hfirst
    obtain ⟨hmem, herase⟩ := hv.freeClusters_markUsed hfirst
    rw [freeSlot_congr (hv.slot_markUsed hlt)] at hslot
    refine iff_of_false ?_ ?_
    · intro hkept
      obtain ⟨-, hcard⟩ := hkept (by simp)
      rw [hmount.geometry, hv', herase] at hcard
      exact absurd hcard (Finset.card_erase_lt_of_mem hmem).ne
    · rintro (hdup' | hnone | hfree)
      · exact hdup hdup'
      · rw [hnone] at hfirst
        cases hfirst
      · exact hfree hslot
  | created hdup hc hne hslot hmount hv' hlog hwrites =>
    refine iff_of_true (fun herror => absurd rfl herror) (.inr (.inr ?_))
    have hfirst := hv.firstFree_eq hc hne
    obtain ⟨hlt, -, -, -⟩ := firstFree_eq_some.mp hfirst
    rw [← freeSlot_congr (hv.slot_markUsed hlt), hslot]
    simp

/-- A call takes one cluster at most. -/
theorem card_freeClusters_call (hv : Formatted v) (r : Request) :
    (freeClusters v.geometry v.disk.sectors).card ≤
      (freeClusters (r.call v).2.geometry (r.call v).2.disk.sectors).card + 1 := by
  have hcreate := creation hv.initialized r.name r.data r.dataLen
  rw [Request.call]
  generalize createFile working r.name r.data r.dataLen v = result at hcreate
  cases hcreate with
  | duplicate hdup hv' =>
    rw [hv'.sectors, hv'.geometry]
    exact Nat.le_succ _
  | noCluster hdup hfree hv' =>
    rw [hv'.sectors, hv'.geometry]
    exact Nat.le_succ _
  | directoryFull hdup hc hne hslot hmount hv' =>
    obtain ⟨hmem, herase⟩ := hv.freeClusters_markUsed (hv.firstFree_eq hc hne)
    rw [hmount.geometry, hv', herase, Finset.card_erase_add_one hmem]
  | created hdup hc hne hslot hmount hv' hlog hwrites =>
    obtain ⟨hmem, herase⟩ := hv.freeClusters_markUsed (hv.firstFree_eq hc hne)
    obtain ⟨hk, -, -⟩ := freeSlot_eq_some.mp hslot
    rw [hmount.geometry, hv', freeClusters_place hv hk, herase, Finset.card_erase_add_one hmem]

end Formatted

/-- **When a refused file changes nothing.** After `format`, `init` and any calls of `createFile`, a
call that fails leaves all sectors and the number of free clusters as they are, exactly if the name
exists, or no cluster is free, or a slot of the directory is free. -/
theorem refusal_changes_nothing_iff (v₀ : Volume Image) (requests : List Request) (r : Request) :
    let v := afterRequests v₀ requests
    ((r.call v).1 ≠ .ok () → (r.call v).2.disk.sectors = v.disk.sectors ∧
      (freeClusters (r.call v).2.geometry (r.call v).2.disk.sectors).card =
        (freeClusters v.geometry v.disk.sectors).card) ↔
      Duplicate v.geometry v.disk.sectors r.name ∨ firstFree v.geometry v.disk.sectors = none ∨
        freeSlot v.geometry v.disk.sectors ≠ none :=
  (Formatted.afterRequests v₀ requests).unchanged_iff r

/-! ## A full directory -/

/-- The name `F`, with a number in two of its bytes. -/
def numberedName (k : ℕ) : FileName where
  name := ![0x46, UInt8.ofNat (k / 256), UInt8.ofNat k, 0x20, 0x20, 0x20, 0x20, 0x20]
  ext := ![0x20, 0x20, 0x20]

/-- A numbered name marks neither an end nor a deleted entry. -/
theorem visible_numberedName (k : ℕ) :
    (numberedName k).name 0 ≠ 0x00 ∧ (numberedName k).name 0 ≠ 0xE5 := by
  simp [numberedName]

/-- A file of no bytes fits into a sector. -/
theorem empty_fits : (0 : UInt32) ≤ 512 := by decide

/-- An empty file of that name. -/
def numbered (k : ℕ) : NewFile where
  name := numberedName k
  data := Block.zero
  dataLen := 0
  visible := visible_numberedName k
  fits := empty_fits

def NewFile.request (f : NewFile) : Request := ⟨f.name, f.data, f.dataLen⟩

/-- Numbered files have names of their own. -/
theorem numbered_name_inj {j k : ℕ} (hj : j < 65536) (hk : k < 65536)
    (h : (numbered j).name = (numbered k).name) : j = k := by
  have hhigh : UInt8.ofNat (j / 256) = UInt8.ofNat (k / 256) := congrArg (·.name 1) h
  have hlow : UInt8.ofNat j = UInt8.ofNat k := congrArg (·.name 2) h
  rw [← UInt8.toNat_inj, UInt8.toNat_ofNat', UInt8.toNat_ofNat'] at hhigh hlow
  omega

/-- The next numbered name is new. -/
theorem numbered_not_mem {m k : ℕ} (hm : m ≤ k) (hk : k < 65536) :
    (numbered k).name ∉ ((List.range m).map numbered).map NewFile.name := by
  intro hmem
  rw [List.map_map, List.mem_map] at hmem
  obtain ⟨j, hj, hname⟩ := hmem
  have hlt := List.mem_range.mp hj
  have heq := numbered_name_inj (by omega) hk hname
  omega

/-- As long as there is room, each of the numbered files is created. -/
theorem afterRequests_numbered (v₀ : Volume Image) {m : ℕ} (hm : m ≤ 512) :
    ∃ (s : Archive) (used : ℕ), s.Holds used ∧ s.files = (List.range m).map numbered ∧
      s.volume = afterRequests v₀ ((List.range m).map fun k => (numbered k).request) := by
  induction m with
  | zero =>
    obtain ⟨-, -, hholds⟩ := Archive.init_format v₀
    exact ⟨_, 2, hholds, rfl, rfl⟩
  | succ m ih =>
    obtain ⟨s, used, hholds, hfiles, hvolume⟩ := ih (by omega)
    obtain ⟨hok, used', hholds'⟩ := hholds.createFile (numbered m)
    have hnew : (numbered m).name ∉ s.files.map NewFile.name := by
      rw [hfiles]
      exact numbered_not_mem le_rfl (by omega)
    have hlength : s.files.length < 512 := by
      rw [hfiles, List.length_map, List.length_range]
      omega
    have hcreated := hok.mpr ⟨hnew, hlength⟩
    rcases hcall : createFile working (numbered m).name (numbered m).data (numbered m).dataLen
      s.volume with ⟨result, v⟩
    rw [hcall] at hcreated
    obtain rfl : result = .ok () := hcreated
    rw [Archive.step, hcall] at hholds'
    refine ⟨_, used', hholds', ?_, ?_⟩
    · rw [List.range_succ, List.map_append, hfiles]
      rfl
    · rw [List.range_succ, List.map_append, List.map_singleton, afterRequests_concat, ← hvolume,
        NewFile.request, Request.call, hcall]

/-- Every call takes one cluster at most. -/
theorem card_freeClusters_afterRequests (v₀ : Volume Image) (requests : List Request) :
    (freeClusters (Archive.ofFormat v₀).volume.geometry
        (Archive.ofFormat v₀).volume.disk.sectors).card ≤
      (freeClusters (afterRequests v₀ requests).geometry
        (afterRequests v₀ requests).disk.sectors).card + requests.length := by
  induction requests using List.reverseRecOn with
  | nil =>
    have hnil : afterRequests v₀ [] = (Archive.ofFormat v₀).volume := rfl
    rw [hnil]
    exact Nat.le_add_right _ _
  | append_singleton requests r ih =>
    have hcall := (Formatted.afterRequests v₀ requests).card_freeClusters_call r
    rw [afterRequests_concat, List.length_append, List.length_singleton]
    omega

/-- After `format` there are more free clusters than slots. -/
theorem card_freeClusters_ofFormat (v₀ : Volume Image) :
    512 < (freeClusters (Archive.ofFormat v₀).volume.geometry
      (Archive.ofFormat v₀).volume.disk.sectors).card := by
  obtain ⟨-, -, hholds⟩ := Archive.init_format v₀
  have hsubset : Finset.Ico 2 1000 ⊆ freeClusters (Archive.ofFormat v₀).volume.geometry
      (Archive.ofFormat v₀).volume.disk.sectors := by
    intro c hc
    obtain ⟨htwo, hlt⟩ := Finset.mem_Ico.mp hc
    rw [hholds.geometry, freeClusters, Finset.mem_filter, Finset.mem_range,
      formatGeometry_fatEntries, hholds.fat.entry c htwo (by omega), if_neg (by omega)]
    exact ⟨by omega, htwo, rfl⟩
  have hcard := Finset.card_le_card hsubset
  rw [Nat.card_Ico] at hcard
  omega

/-- A blank disk. -/
def blankDisk : Volume Image := ⟨formatGeometry, false, Block.zero, ⟨fun _ => Block.zero, []⟩⟩

/-- 512 files fill the directory. -/
def fullDirectory : Volume Image :=
  afterRequests blankDisk ((List.range 512).map fun k => (numbered k).request)

/-- The next file is refused, and a cluster is lost. -/
theorem refused_file_loses_cluster :
    ((numbered 512).request.call fullDirectory).1 = .error "FAT16: Root directory full\n" ∧
      ((numbered 512).request.call fullDirectory).2.disk.sectors ≠ fullDirectory.disk.sectors ∧
      (freeClusters ((numbered 512).request.call fullDirectory).2.geometry
          ((numbered 512).request.call fullDirectory).2.disk.sectors).card + 1 =
        (freeClusters fullDirectory.geometry fullDirectory.disk.sectors).card := by
  have hv : Formatted fullDirectory := .afterRequests _ _
  obtain ⟨s, used, hholds, hfiles, hvolume⟩ := afterRequests_numbered blankDisk (m := 512) le_rfl
  rw [← fullDirectory] at hvolume
  have hlength : s.files.length = 512 := by rw [hfiles, List.length_map, List.length_range]
  have hstored := hholds.stored
  rw [hvolume] at hstored
  have hcreate := creation hv.initialized (numbered 512).name (numbered 512).data
    (numbered 512).dataLen
  rw [NewFile.request, Request.call]
  generalize createFile working (numbered 512).name (numbered 512).data (numbered 512).dataLen
    fullDirectory = result at hcreate
  cases hcreate with
  | duplicate hdup hv' =>
    rw [hv.geometry, hstored.duplicate_iff] at hdup
    obtain ⟨f, hf, hname⟩ := hdup
    rw [hfiles] at hf
    exact absurd (List.mem_map.mpr ⟨f, hf, hname⟩) (numbered_not_mem le_rfl (by decide))
  | noCluster hdup hfree hv' =>
    have hcount := card_freeClusters_afterRequests blankDisk
      ((List.range 512).map fun k => (numbered k).request)
    have hmany := card_freeClusters_ofFormat blankDisk
    rw [← fullDirectory, List.length_map, List.length_range,
      freeClusters_eq_empty (hv.freeCluster_eq_zero_iff.mp hfree), Finset.card_empty] at hcount
    omega
  | directoryFull hdup hc hne hslot hmount hv' =>
    obtain ⟨hmem, herase⟩ := hv.freeClusters_markUsed (hv.firstFree_eq hc hne)
    refine ⟨rfl, ?_, by rw [hmount.geometry, hv', herase, Finset.card_erase_add_one hmem]⟩
    intro hsame
    rw [← hsame, hv', herase] at hmem
    exact Finset.notMem_erase _ _ hmem
  | created hdup hc hne hslot hmount hv' hlog hwrites =>
    obtain ⟨hlt, -, -, -⟩ := firstFree_eq_some.mp (hv.firstFree_eq hc hne)
    rw [freeSlot_congr (hv.slot_markUsed hlt), hv.geometry, hstored.freeSlot_eq,
      if_neg (by omega)] at hslot
    cases hslot

end DavOS.Fat16
