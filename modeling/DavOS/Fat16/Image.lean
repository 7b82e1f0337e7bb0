import DavOS.Fat16.Mount
import DavOS.Lib.RowSearch

/-!
# Volumes on a disk that works

A disk whose transfers all succeed, and which remembers them. On such a disk the buffer of the
driver and the order of its reads do not matter: what `createFile` and `readFile` do is a function
of the geometry and of the contents of the disk (`creation`, `readFile_working`), read as a root
directory of numbered slots and a FAT of numbered entries.
-/

namespace DavOS.Fat16

inductive Access where
  | read (lba : UInt32)
  | write (lba : UInt32)
  deriving DecidableEq

abbrev Contents := UInt32 → Sector

/-- A disk and its transfers, the last one first. -/
structure Image where
  sectors : Contents
  log : List Access

/-- The sector that a transfer writes. -/
def Access.written : Access → Option UInt32
  | .read _ => none
  | .write lba => some lba

/-- The sectors that were written, the last one first. -/
def writes (log : List Access) : List UInt32 := log.filterMap Access.written

@[simp] theorem writes_read (lba : UInt32) (log : List Access) :
    writes (.read lba :: log) = writes log := rfl

@[simp] theorem writes_write (lba : UInt32) (log : List Access) :
    writes (.write lba :: log) = lba :: writes log := rfl

/-- A read returns the bytes last written. -/
def working : Disk Image where
  readSector lba d := (some (d.sectors lba), { d with log := .read lba :: d.log })
  writeSector lba s d := (true, ⟨Function.update d.sectors lba s, .write lba :: d.log⟩)

/-! ## The directory and the FAT -/

/-- An entry of the root directory, counted from its start. -/
def slot (g : Geometry) (d : Contents) (k : ℕ) : DirEntry :=
  entry (d (g.rootStart + .ofNat (k / 16))) (k % 16)

/-- Slot `sec * 16 + i` is entry `i` of sector `sec`. -/
theorem slot_mul_add {g : Geometry} {d : Contents} {sec i : ℕ} (hi : i < 16) :
    slot g d (sec * 16 + i) = entry (d (g.rootStart + .ofNat sec)) i := by
  rw [slot, show (sec * 16 + i) / 16 = sec by omega, show (sec * 16 + i) % 16 = i by omega]

def Geometry.slots (g : Geometry) : ℕ := g.rootSectors.toNat * 16

def fatEntry (g : Geometry) (d : Contents) (c : ℕ) : UInt16 :=
  (d (g.fatStart + .ofNat (c / 256))).get16 (c % 256 * 2)

def Geometry.fatEntries (g : Geometry) : ℕ := g.fatSz16.toNat * 256

def firstFree (g : Geometry) (d : Contents) : Option ℕ :=
  (List.range g.fatEntries).find? fun c => 2 ≤ c ∧ fatEntry g d c = 0

/-- The cluster for a new file: the first free one narrowed to 16 bits, or 0. -/
def freeCluster (g : Geometry) (d : Contents) : UInt16 := ((firstFree g d).map .ofNat).getD 0

def freeSlot (g : Geometry) (d : Contents) : Option ℕ :=
  (List.range g.slots).find? fun k => IsEnd (slot g d k) ∨ IsDeleted (slot g d k)

/-- The slot of a name: the first one with this name before the end marker. -/
def lookup (g : Geometry) (d : Contents) (n : FileName) : Option ℕ :=
  ((List.range g.slots).find? fun k =>
    IsEnd (slot g d k) ∨ ¬IsDeleted (slot g d k) ∧ HasName n (slot g d k)).filter
      fun k => ¬IsEnd (slot g d k)

/-- Some sector of the directory has the name before an end marker of that sector. -/
def Duplicate (g : Geometry) (d : Contents) (n : FileName) : Prop :=
  ∃ sec < g.rootSectors.toNat, holdsDuplicate n (d (g.rootStart + .ofNat sec)) = true

/-- The disk with a cluster marked as the end of a chain, in both FATs. -/
def markUsed (g : Geometry) (d : Contents) (c : UInt16) : Contents :=
  let sec := UInt32.ofNat (c.toNat / 256)
  let s := (d (g.fatStart + sec)).put16 (c.toNat % 256 * 2) 0xFFFF
  Function.update (Function.update d (g.fatStart + sec) s)
    (g.fatStart + g.fatSz16.toUInt32 + sec) s

/-- The disk with the entry of a new file in slot `k` and its data in cluster `c`. -/
def place (g : Geometry) (d : Contents) (k : ℕ) (n : FileName) (c : UInt16) (data : Sector)
    (dataLen : UInt32) : Contents :=
  let lba := g.rootStart + .ofNat (k / 16)
  Function.update (Function.update d lba (putEntry (d lba) (k % 16) n c dataLen))
    (g.clusterToSector c) (padded data dataLen)

section Lookups

variable {g : Geometry} {d : Contents} {n : FileName} {k : ℕ}

/-- What the first free cluster is. -/
theorem firstFree_eq_some {c : ℕ} : firstFree g d = some c ↔
    c < g.fatEntries ∧ 2 ≤ c ∧ fatEntry g d c = 0 ∧ ∀ j, 2 ≤ j → j < c → fatEntry g d j ≠ 0 := by
  rw [firstFree, List.find?_range_eq_some]
  simp only [decide_eq_true_eq, List.mem_range, Bool.not_eq_true', decide_eq_false_iff_not, not_and]
  tauto

/-- There is none if all entries of the FAT are in use. -/
theorem firstFree_eq_none : firstFree g d = none ↔
    ∀ c < g.fatEntries, 2 ≤ c → fatEntry g d c ≠ 0 := by
  rw [firstFree, List.find?_range_eq_none]
  simp only [Bool.not_eq_true', decide_eq_false_iff_not, not_and, ne_eq]

/-- What the first free slot is. -/
theorem freeSlot_eq_some : freeSlot g d = some k ↔
    k < g.slots ∧ (IsEnd (slot g d k) ∨ IsDeleted (slot g d k)) ∧
      ∀ j < k, ¬IsEnd (slot g d j) ∧ ¬IsDeleted (slot g d j) := by
  rw [freeSlot, List.find?_range_eq_some]
  simp only [decide_eq_true_eq, List.mem_range, Bool.not_eq_true', decide_eq_false_iff_not, not_or]
  tauto

/-- There is none if all slots are in use. -/
theorem freeSlot_eq_none : freeSlot g d = none ↔
    ∀ k < g.slots, ¬IsEnd (slot g d k) ∧ ¬IsDeleted (slot g d k) := by
  rw [freeSlot, List.find?_range_eq_none]
  simp only [Bool.not_eq_true', decide_eq_false_iff_not, not_or]

/-- `readFile` passes over a slot in its search for a name. -/
def Passes (g : Geometry) (d : Contents) (n : FileName) (j : ℕ) : Prop :=
  ¬IsEnd (slot g d j) ∧ (IsDeleted (slot g d j) ∨ ¬HasName n (slot g d j))

/-- What the slot of a name is: the first one with that name, before any end marker. -/
theorem lookup_eq_some : lookup g d n = some k ↔
    k < g.slots ∧ ¬IsEnd (slot g d k) ∧ ¬IsDeleted (slot g d k) ∧ HasName n (slot g d k) ∧
      ∀ j < k, Passes g d n j := by
  rw [lookup, Option.filter_eq_some_iff, List.find?_range_eq_some]
  simp only [decide_eq_true_eq, List.mem_range, Bool.not_eq_true', decide_eq_false_iff_not, not_or,
    not_and_or, not_not, Passes]
  tauto

/-- The check for a duplicate, in one sector: it does not look behind an end marker. -/
theorem holdsDuplicate_iff {buf : Sector} : holdsDuplicate n buf = true ↔
    ∃ i < 16, (¬IsDeleted (entry buf i) ∧ ¬IsLabel (entry buf i) ∧ HasName n (entry buf i)) ∧
      ∀ j ≤ i, ¬IsEnd (entry buf j) := by
  rw [holdsDuplicate, entries, RowSearch.any_takeWhile_range]
  simp only [decide_eq_true_eq]

end Lookups

/-! ## Scans -/

/-- Calls that only read. -/
structure ReadOnly (v v' : Volume Image) : Prop extends SameMount v v' where
  sectors : v'.disk.sectors = v.disk.sectors

/-- Nothing has changed. -/
theorem ReadOnly.refl (v : Volume Image) : ReadOnly v v := ⟨⟨rfl, rfl⟩, rfl⟩

/-- Reads compose. -/
theorem ReadOnly.trans {v v' v'' : Volume Image} (h : ReadOnly v v') (h' : ReadOnly v' v'') :
    ReadOnly v v'' :=
  ⟨h.toSameMount.trans h'.toSameMount, h'.sectors.trans h.sectors⟩

def Scan.ofOption {β : Type} : Option β → Scan β
  | some b => .found b
  | none => .exhausted

/-- On a disk that works, a pass gives the first answer and writes nothing. -/
theorem scan_working {β : Type} {start : UInt32} {f : ℕ → Sector → Option β} {secs : List ℕ}
    {v v' : Volume Image} {r : Scan β} (h : scan working start f secs v = (r, v')) :
    r = .ofOption (secs.findSome? fun sec => f sec (v.disk.sectors (start + .ofNat sec))) ∧
      ReadOnly v v' ∧ writes v'.disk.log = writes v.disk.log := by
  induction secs generalizing v with
  | nil =>
    obtain ⟨rfl, rfl⟩ := Prod.mk.inj h
    exact ⟨rfl, .refl v, rfl⟩
  | cons sec rest ih =>
    rw [List.findSome?_cons]
    simp only [scan, readSector, working] at h
    cases hf : f sec (v.disk.sectors (start + .ofNat sec)) with
    | some b =>
      simp only [hf] at h
      obtain ⟨rfl, rfl⟩ := Prod.mk.inj h
      exact ⟨rfl, ⟨⟨rfl, rfl⟩, rfl⟩, rfl⟩
    | none =>
      simp only [hf] at h
      obtain ⟨hr, hv', hlog⟩ := ih h
      exact ⟨hr, ⟨⟨hv'.geometry, hv'.initialized⟩, hv'.sectors⟩, hlog⟩

/-- The pass for an existing name. -/
theorem findSome?_duplicate (g : Geometry) (d : Contents) (n : FileName) :
    ((List.range g.rootSectors.toNat).findSome? fun sec =>
      if holdsDuplicate n (d (g.rootStart + .ofNat sec)) then some () else none) = none ↔
      ¬Duplicate g d n := by
  rw [List.findSome?_eq_none_iff, Duplicate]
  simp

/-- The search of the FAT. -/
theorem findSome?_freeIn (g : Geometry) (d : Contents) :
    ((List.range g.fatSz16.toNat).findSome? fun sec =>
      freeIn sec (d (g.fatStart + .ofNat sec))) = (firstFree g d).map .ofNat := by
  have hfreeIn : ∀ sec buf, freeIn sec buf = ((List.range 256).find? fun i =>
      2 ≤ sec * 256 + i ∧ buf.get16 (i * 2) = 0).map fun i => .ofNat (sec * 256 + i) := by
    intro sec buf
    rw [← RowSearch.findSome?_ite, freeIn]
    congr 1
    funext i
    by_cases hlt : sec * 256 + i < 2
    · simp [hlt, show ¬2 ≤ sec * 256 + i by omega]
    · simp [hlt, show 2 ≤ sec * 256 + i by omega]
  simp only [hfreeIn]
  rw [RowSearch.findSome?_rows (show 0 < 256 by decide) _
    (fun sec i => 2 ≤ sec * 256 + i ∧ (d (g.fatStart + .ofNat sec)).get16 (i * 2) = 0)
    fun sec i => UInt16.ofNat (sec * 256 + i)]
  simp only [Nat.div_add_mod']
  rfl

/-- The search for a free entry. -/
theorem findSome?_freeEntry (g : Geometry) (d : Contents) :
    ((List.range g.rootSectors.toNat).findSome? fun sec =>
      (freeEntry (d (g.rootStart + .ofNat sec))).map (sec, ·)) =
      (freeSlot g d).map fun k => (k / 16, k % 16) := by
  simp only [freeEntry]
  rw [RowSearch.findSome?_rows (show 0 < 16 by decide) _
    (fun sec i => IsEnd (entry (d (g.rootStart + .ofNat sec)) i) ∨
      IsDeleted (entry (d (g.rootStart + .ofNat sec)) i)) fun sec i => (sec, i)]
  rfl

/-- The search of `readFile`. -/
theorem findSome?_searchEntry (g : Geometry) (d : Contents) (n : FileName) :
    ((List.range g.rootSectors.toNat).findSome? fun sec =>
      searchEntry n (d (g.rootStart + .ofNat sec))) =
      ((List.range g.slots).find? fun k =>
        IsEnd (slot g d k) ∨ ¬IsDeleted (slot g d k) ∧ HasName n (slot g d k)).map (slot g d) := by
  simp only [searchEntry, entries, List.find?_map]
  rw [RowSearch.findSome?_rows (show 0 < 16 by decide) _
    (fun sec => (fun e => decide (IsEnd e ∨ ¬IsDeleted e ∧ HasName n e)) ∘
      entry (d (g.rootStart + .ofNat sec)))
    fun sec i => entry (d (g.rootStart + .ofNat sec)) i]
  rfl

/-! ## The calls -/

variable {v : Volume Image}

/-- The volume after `init`. -/
def Volume.mounted (v : Volume Image) : Volume Image where
  geometry := .ofBoot (v.disk.sectors 0)
  initialized := true
  fatBuf := v.disk.sectors 0
  disk := { v.disk with log := .read 0 :: v.disk.log }

/-- On a disk that works, a boot sector that is accepted is mounted. -/
theorem init_working (hboot : Mountable (v.disk.sectors 0)) :
    init working v = (.ok (), v.mounted) :=
  init_of_mountable rfl hboot

/-- On a disk that works, the first free cluster is found. -/
theorem findFreeCluster_working {c : UInt16} {v' : Volume Image}
    (h : findFreeCluster working v = (c, v')) :
    c = freeCluster v.geometry v.disk.sectors ∧ ReadOnly v v' ∧
      writes v'.disk.log = writes v.disk.log := by
  rcases hscan : scan working v.geometry.fatStart freeIn (List.range v.geometry.fatSz16.toNat) v
    with ⟨r, v₁⟩
  obtain ⟨rfl, hv₁, hlog⟩ := scan_working hscan
  rw [findFreeCluster, hscan, findSome?_freeIn] at h
  rw [freeCluster]
  cases hfree : firstFree v.geometry v.disk.sectors with
  | none =>
    rw [hfree] at h
    obtain ⟨rfl, rfl⟩ := Prod.mk.inj h
    exact ⟨rfl, hv₁, hlog⟩
  | some c₀ =>
    rw [hfree] at h
    obtain ⟨rfl, rfl⟩ := Prod.mk.inj h
    exact ⟨rfl, hv₁, hlog⟩

/-- The sector of the FAT that holds the entry of a cluster. -/
def Geometry.fatSector (g : Geometry) (c : UInt16) : UInt32 :=
  g.fatStart + .ofNat (c.toNat / 256)

/-- The sector of the second FAT that does, if there is a second one. -/
def Geometry.mirrorSector (g : Geometry) (c : UInt16) : UInt32 :=
  g.fatStart + g.fatSz16.toUInt32 + .ofNat (c.toNat / 256)

/-- The sector of the directory that holds a slot. -/
def Geometry.slotSector (g : Geometry) (k : ℕ) : UInt32 := g.rootStart + .ofNat (k / 16)

/-- On a disk that works, a cluster is marked in both FATs. -/
theorem setFATEntry_working {c : UInt16} {ok : Bool} {v' : Volume Image}
    (h : setFATEntry working c 0xFFFF v = (ok, v')) :
    ok = true ∧ SameMount v v' ∧ v'.disk.sectors = markUsed v.geometry v.disk.sectors c ∧
      writes v'.disk.log =
        v.geometry.mirrorSector c :: v.geometry.fatSector c :: writes v.disk.log := by
  have hsector : c.toNat * 2 / 512 = c.toNat / 256 := by omega
  simp only [setFATEntry, readSector, writeSector, working] at h
  obtain ⟨rfl, rfl⟩ := Prod.mk.inj h
  refine ⟨rfl, ⟨rfl, rfl⟩, ?_, ?_⟩
  · rw [markUsed, hsector, show c.toNat * 2 % 512 = c.toNat % 256 * 2 by omega]
  · rw [writes_write, writes_write, writes_read, hsector, Geometry.mirrorSector,
      Geometry.fatSector]

/-- What `readFile` finds is in the slot of the name. -/
theorem readFile_working (h : v.initialized = true) (n : FileName) :
    ((readFile working n v).1 = (lookup v.geometry v.disk.sectors n).map fun k =>
      (size (slot v.geometry v.disk.sectors k), v.disk.sectors (v.geometry.clusterToSector
        (cluster (slot v.geometry v.disk.sectors k))))) ∧
    ReadOnly v (readFile working n v).2 ∧
    ∀ k, lookup v.geometry v.disk.sectors n = some k →
      (readFile working n v).2.disk.log.head? = some (.read (v.geometry.clusterToSector
        (cluster (slot v.geometry v.disk.sectors k)))) := by
  rcases hscan : scan working v.geometry.rootStart (fun _ buf => searchEntry n buf)
    (List.range v.geometry.rootSectors.toNat) v with ⟨r, v₁⟩
  obtain ⟨rfl, hv₁, -⟩ := scan_working hscan
  rw [findSome?_searchEntry] at hscan
  rw [readFile, if_neg (by simp [h])]
  simp only [hscan, lookup]
  cases hfind : (List.range v.geometry.slots).find? fun k =>
      IsEnd (slot v.geometry v.disk.sectors k) ∨ ¬IsDeleted (slot v.geometry v.disk.sectors k) ∧
        HasName n (slot v.geometry v.disk.sectors k) with
  | none => exact ⟨rfl, hv₁, by simp⟩
  | some k =>
    by_cases hend : IsEnd (slot v.geometry v.disk.sectors k)
    · rw [Option.filter_some_neg (by simpa using hend)]
      simp only [Option.map_some, Scan.ofOption, if_pos hend]
      exact ⟨rfl, hv₁, by simp⟩
    · rw [Option.filter_some_pos (by simpa using hend)]
      simp only [Option.map_some, Scan.ofOption, if_neg hend, working, hv₁.geometry, hv₁.sectors]
      refine ⟨trivial, ⟨⟨rfl, hv₁.initialized⟩, rfl⟩, ?_⟩
      rintro k' ⟨⟩
      rfl

/-- The ends of `createFile` on a mounted volume. The directory is searched for a free entry only
after the FAT has been written. -/
inductive Creation (v : Volume Image) (n : FileName) (data : Sector) (dataLen : UInt32) :
    Except String Unit × Volume Image → Prop
  | duplicate {v' : Volume Image} (hdup : Duplicate v.geometry v.disk.sectors n)
      (hv' : ReadOnly v v') :
      Creation v n data dataLen (.error "FAT16: File already exists\n", v')
  | noCluster {v' : Volume Image} (hdup : ¬Duplicate v.geometry v.disk.sectors n)
      (hfree : freeCluster v.geometry v.disk.sectors = 0) (hv' : ReadOnly v v') :
      Creation v n data dataLen (.error "FAT16: No free clusters\n", v')
  | directoryFull {c : UInt16} {v' : Volume Image} (hdup : ¬Duplicate v.geometry v.disk.sectors n)
      (hc : freeCluster v.geometry v.disk.sectors = c) (hne : c ≠ 0)
      (hslot : freeSlot v.geometry (markUsed v.geometry v.disk.sectors c) = none)
      (hmount : SameMount v v')
      (hv' : v'.disk.sectors = markUsed v.geometry v.disk.sectors c) :
      Creation v n data dataLen (.error "FAT16: Root directory full\n", v')
  | created {c : UInt16} {k : ℕ} {v' : Volume Image} (hdup : ¬Duplicate v.geometry v.disk.sectors n)
      (hc : freeCluster v.geometry v.disk.sectors = c) (hne : c ≠ 0)
      (hslot : freeSlot v.geometry (markUsed v.geometry v.disk.sectors c) = some k)
      (hmount : SameMount v v')
      (hv' : v'.disk.sectors =
        place v.geometry (markUsed v.geometry v.disk.sectors c) k n c data dataLen)
      (hlog : v'.disk.log.head? = some (.write (v.geometry.clusterToSector c)))
      (hwrites : writes v'.disk.log =
        [v.geometry.clusterToSector c, v.geometry.slotSector k, v.geometry.mirrorSector c,
          v.geometry.fatSector c] ++ writes v.disk.log) :
      Creation v n data dataLen (.ok (), v')

/-- `createFile` on a disk that works. -/
theorem creation (h : v.initialized = true) (n : FileName) (data : Sector) (dataLen : UInt32) :
    Creation v n data dataLen (createFile working n data dataLen v) := by
  rcases hdup : scan working v.geometry.rootStart
    (fun _ buf => if holdsDuplicate n buf then some () else none)
    (List.range v.geometry.rootSectors.toNat) v with ⟨r₁, v₁⟩
  obtain ⟨rfl, hv₁, hlog₁⟩ := scan_working hdup
  rw [createFile, if_neg (by simp [h])]
  simp only [hdup]
  have hiff := findSome?_duplicate v.geometry v.disk.sectors n
  cases hsome : (List.range v.geometry.rootSectors.toNat).findSome? fun sec =>
      if holdsDuplicate n (v.disk.sectors (v.geometry.rootStart + .ofNat sec)) then some ()
      else none with
  | some u =>
    rw [hsome] at hiff
    exact .duplicate (not_not.mp fun h => absurd (hiff.mpr h) (by simp)) hv₁
  | none =>
    have hnodup := hiff.mp hsome
    rcases hcluster : findFreeCluster working v₁ with ⟨c, v₂⟩
    obtain ⟨hc, hv₂, hlog₂⟩ := findFreeCluster_working hcluster
    rw [hv₁.geometry, hv₁.sectors] at hc
    simp only [Scan.ofOption, hcluster]
    split
    case isTrue hzero => exact .noCluster hnodup (hc.symm.trans hzero) (hv₁.trans hv₂)
    case isFalse hne =>
      have hv₂ := hv₁.trans hv₂
      rcases hset : setFATEntry working c 0xFFFF v₂ with ⟨ok, v₃⟩
      obtain ⟨rfl, hmount₃, hsectors₃, hlog₃⟩ := setFATEntry_working hset
      have hmount₃ := hv₂.toSameMount.trans hmount₃
      rw [hv₂.geometry, hv₂.sectors] at hsectors₃
      rw [hv₂.geometry, hlog₂, hlog₁] at hlog₃
      rcases hslot : scan working v.geometry.rootStart
        (fun sec buf => (freeEntry buf).map (sec, ·))
        (List.range v.geometry.rootSectors.toNat) v₃ with ⟨r₄, v₄⟩
      obtain ⟨rfl, hv₄, hlog₄⟩ := scan_working hslot
      rw [hsectors₃, findSome?_freeEntry] at hslot
      simp only [hslot]
      have hmount₄ := hmount₃.trans hv₄.toSameMount
      have hsectors₄ := hv₄.sectors.trans hsectors₃
      cases hfree : freeSlot v.geometry (markUsed v.geometry v.disk.sectors c) with
      | none => exact .directoryFull hnodup hc.symm hne hfree hmount₄ hsectors₄
      | some k =>
        simp only [Option.map_some, Scan.ofOption, readSector, writeSector, working]
        refine .created hnodup hc.symm hne hfree ⟨hmount₄.geometry, hmount₄.initialized⟩ ?_ ?_ ?_
        · rw [place, hsectors₄, hmount₄.geometry]
        · rw [List.head?_cons, hmount₄.geometry]
        · rw [writes_write, writes_write, writes_read, hlog₄, hlog₃, hmount₄.geometry,
            Geometry.slotSector]
          rfl

end DavOS.Fat16
