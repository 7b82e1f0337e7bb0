import DavOS.Fat16.Layout

/-!
# Creating a file on a volume that others have written

`init` takes any boot sector with the signature and sectors of 512 bytes. What a successful
`createFile` may write is the FAT area, one sector of the directory and one of the data, and the
files that were there are to be read as before (`Harmless`). Whether a call does no more can be told
from the disk before it (`Spares`): from the cluster and the slot that it will choose, and from
where the other files are. With two FATs or more only the directory entry and the data of the new
file matter (`sparesAt_iff_of_two_fats`), and with clusters of at least one sector, a first free
cluster that is numbered in 16 bits, and a name that does not begin with 0 the call is harmless on
every consistent volume (`harmless`).
-/

namespace DavOS.Fat16

variable {g : Geometry} {d : Contents} {v v' : Volume Image} {n : FileName} {data : Sector}
  {dataLen : UInt32}

/-! ## Mounted volumes -/

/-- The state that `init` leaves when it succeeds. -/
theorem mounted_of_init {v₀ : Volume Image} (h : init working v₀ = (.ok (), v)) :
    v.initialized = true ∧ v.geometry = .ofBoot (v.disk.sectors 0) ∧
      Mountable (v.disk.sectors 0) ∧ v.disk.sectors = v₀.disk.sectors := by
  obtain ⟨b, d, hread, hb, rfl⟩ := mounted_of_ok h
  obtain ⟨hb', rfl⟩ := Prod.mk.inj hread
  obtain rfl := Option.some.inj hb'
  exact ⟨rfl, rfl, hb, rfl⟩

/-- A volume that was mounted is located. -/
theorem located_of_init {v₀ : Volume Image} (h : init working v₀ = (.ok (), v)) :
    v.geometry.Located := by
  rw [(mounted_of_init h).2.1]
  exact Geometry.located_ofBoot _

/-- The entries of files: before the end marker, and not deleted. -/
structure Live (g : Geometry) (d : Contents) (k : ℕ) : Prop where
  lt : k < g.slots
  not_end : ∀ j ≤ k, ¬IsEnd (slot g d j)
  not_deleted : ¬IsDeleted (slot g d k)

/-- A file that is found is live. -/
theorem live_of_lookup {k : ℕ} (h : lookup g d n = some k) : Live g d k := by
  obtain ⟨hk, hend, hdeleted, -, hpass⟩ := lookup_eq_some.mp h
  refine ⟨hk, ?_, hdeleted⟩
  intro j hj
  obtain hlt | rfl := Nat.lt_or_eq_of_le hj
  · exact (hpass j hlt).1
  · exact hend

/-- The files that are not empty have clusters of their own, marked in the FAT. -/
structure Consistent (g : Geometry) (d : Contents) : Prop where
  taken : ∀ k, Live g d k → size (slot g d k) ≠ 0 →
    2 ≤ (cluster (slot g d k)).toNat ∧ (cluster (slot g d k)).toNat < g.fatEntries ∧
      fatEntry g d (cluster (slot g d k)).toNat ≠ 0
  apart : ∀ k k', Live g d k → Live g d k' → size (slot g d k) ≠ 0 → size (slot g d k') ≠ 0 →
    cluster (slot g d k) = cluster (slot g d k') → k = k'

/-- The sectors that are written from `v` to `v'`, the last one first. -/
def writesSince (v v' : Volume Image) : List UInt32 :=
  (writes v'.disk.log).take ((writes v'.disk.log).length - (writes v.disk.log).length)

/-- The writes of a call, from the log. -/
theorem writesSince_eq {written : List UInt32}
    (h : writes v'.disk.log = written ++ writes v.disk.log) : writesSince v v' = written := by
  rw [writesSince, h, List.length_append, Nat.add_sub_cancel, List.take_left' rfl]

/-- The sectors of the FAT area. -/
def Geometry.InFat (g : Geometry) (lba : UInt32) : Prop :=
  g.fatStart.toNat ≤ lba.toNat ∧ lba.toNat < g.rootStart.toNat

/-- What creating the file `n` may do to a volume. -/
structure Harmless (n : FileName) (v v' : Volume Image) : Prop where
  /-- Only the FAT area, a sector of the directory and a sector of the data are written. -/
  frame : ∃ root data : UInt32,
    (v.geometry.rootStart.toNat ≤ root.toNat ∧ root.toNat < v.geometry.dataStart.toNat) ∧
    v.geometry.dataStart.toNat ≤ data.toNat ∧
    ∀ lba ∈ writesSince v v', v.geometry.InFat lba ∨ lba = root ∨ lba = data
  /-- Files with other names are read as before. -/
  kept : ∀ n' ≠ n, ∀ (len : UInt32) (bytes : Sector), len ≠ 0 →
    (readFile working n' v).1 = some (len, bytes) → (readFile working n' v').1 = some (len, bytes)

/-! ## The call -/

/-- A cluster that was found is the first free one, narrowed. -/
theorem freeCluster_ne_zero {c : UInt16} (hc : freeCluster g d = c) (hne : c ≠ 0) :
    ∃ c₀, firstFree g d = some c₀ ∧ c = .ofNat c₀ := by
  cases hfree : firstFree g d with
  | none =>
    rw [freeCluster, hfree] at hc
    exact absurd hc.symm hne
  | some c₀ =>
    rw [freeCluster, hfree] at hc
    exact ⟨c₀, rfl, hc.symm⟩

/-- A call that succeeds has marked the first free cluster and filled the first free slot. -/
theorem created_of_ok (hv : v.initialized = true)
    (h : createFile working n data dataLen v = (.ok (), v')) :
    ∃ c k, freeCluster v.geometry v.disk.sectors = c ∧ c ≠ 0 ∧
      freeSlot v.geometry (markUsed v.geometry v.disk.sectors c) = some k ∧ SameMount v v' ∧
      v'.disk.sectors =
        place v.geometry (markUsed v.geometry v.disk.sectors c) k n c data dataLen ∧
      v'.disk.log.head? = some (.write (v.geometry.clusterToSector c)) ∧
      writesSince v v' = [v.geometry.clusterToSector c, v.geometry.slotSector k,
        v.geometry.mirrorSector c, v.geometry.fatSector c] := by
  have hcreate := creation hv n data dataLen
  rw [h] at hcreate
  generalize hr : (Except.ok (), v') = r at hcreate
  cases hcreate with
  | duplicate hdup hv' => cases hr
  | noCluster hdup hfree hv' => cases hr
  | directoryFull hdup hc hne hslot hmount hv' => cases hr
  | created hdup hc hne hslot hmount hv' hlog hwrites =>
    cases hr
    exact ⟨_, _, hc, hne, hslot, hmount, hv', hlog, writesSince_eq hwrites⟩

/-- A lookup depends on the slots only. -/
theorem lookup_congr {d' : Contents} (h : ∀ k < g.slots, slot g d' k = slot g d k) (n : FileName) :
    lookup g d' n = lookup g d n := by
  apply Option.ext
  intro k
  rw [lookup_eq_some, lookup_eq_some]
  refine and_congr_right fun hk => ?_
  rw [h k hk]
  refine and_congr_right fun _ => and_congr_right fun _ => and_congr_right fun _ => ?_
  refine forall₂_congr fun j hj => ?_
  rw [Passes, Passes, h j (by omega)]

/-- So does the search for a free slot. -/
theorem freeSlot_congr {d' : Contents} (h : ∀ k < g.slots, slot g d' k = slot g d k) :
    freeSlot g d' = freeSlot g d := by
  apply List.find?_congr
  intro k hk
  rw [h k (List.mem_range.mp hk)]

/-- A search for the name that leaves out slot `k` ends at slot `j`. -/
structure FoundBeside (g : Geometry) (d : Contents) (k : ℕ) (n : FileName) (j : ℕ) : Prop where
  lt : j < g.slots
  ne : j ≠ k
  not_end : ¬IsEnd (slot g d j)
  not_deleted : ¬IsDeleted (slot g d j)
  hasName : HasName n (slot g d j)
  passes : ∀ i < j, i ≠ k → Passes g d n i

/-- At most one slot is found beside another one. -/
theorem FoundBeside.unique {k j j' : ℕ} (h : FoundBeside g d k n j) (h' : FoundBeside g d k n j') :
    j = j' := by
  have hle : ∀ {i i'}, FoundBeside g d k n i → FoundBeside g d k n i' → ¬i < i' :=
    fun hi hi' hlt => (hi'.passes _ hlt hi.ne).2.elim hi.not_deleted fun hnot => hnot hi.hasName
  have hnot := hle h h'
  have hnot' := hle h' h
  omega

/-- A slot that is free does not matter to a search that succeeds. -/
theorem foundBeside_of_lookup {k j : ℕ} (hfree : IsEnd (slot g d k) ∨ IsDeleted (slot g d k))
    (h : lookup g d n = some j) : FoundBeside g d k n j := by
  obtain ⟨hj, hend, hdeleted, hname, hpass⟩ := lookup_eq_some.mp h
  refine ⟨hj, ?_, hend, hdeleted, hname, fun i hi _ => hpass i hi⟩
  rintro rfl
  exact hfree.elim hend hdeleted

/-- Where another file is found once a file has been placed in slot `k`. The entry there ends the
search if it reads as an end marker. -/
theorem lookup_place_iff (hg : g.Located) {k : ℕ} (hk : k < g.slots) (c : UInt16) (data : Sector)
    (dataLen : UInt32) {n' : FileName} (hne : n' ≠ n) {j : ℕ} :
    lookup g (place g d k n c data dataLen) n' = some j ↔
      FoundBeside g d k n' j ∧ (n.name 0 = 0 → j < k) := by
  have hslot : ∀ i < g.slots, slot g (place g d k n c data dataLen) i =
      if i = k then newEntry (slot g d k) n c dataLen else slot g d i :=
    fun i hi => slot_place hg hk hi
  have hfile : IsFile (newEntry (slot g d k) n c dataLen) n c dataLen := isFile_newEntry
  have hother : ¬HasName n' (newEntry (slot g d k) n c dataLen) :=
    fun h => hne (h.unique hfile.name)
  have hend : IsEnd (newEntry (slot g d k) n c dataLen) ↔ n.name 0 = 0 := by
    rw [IsEnd, hfile.name.get_zero]
  rw [lookup_eq_some]
  constructor
  · rintro ⟨hj, hjend, hdeleted, hname, hpass⟩
    rw [hslot j hj] at hjend hdeleted hname
    have hjk : j ≠ k := by
      rintro rfl
      rw [if_pos rfl] at hname
      exact hother hname
    rw [if_neg hjk] at hjend hdeleted hname
    refine ⟨⟨hj, hjk, hjend, hdeleted, hname, ?_⟩, ?_⟩
    · intro i hi hik
      have hpassed := hpass i hi
      rwa [Passes, hslot i (hi.trans hj), if_neg hik] at hpassed
    · intro hzero
      by_contra hlt
      have hpassed := hpass k (by omega)
      rw [Passes, hslot k hk, if_pos rfl] at hpassed
      exact hpassed.1 (hend.mpr hzero)
  · rintro ⟨hfound, hbefore⟩
    rw [hslot j hfound.lt, if_neg hfound.ne]
    refine ⟨hfound.lt, hfound.not_end, hfound.not_deleted, hfound.hasName, ?_⟩
    intro i hi
    rw [Passes, hslot i (hi.trans hfound.lt)]
    split
    case isTrue hik =>
      refine ⟨fun hzero => ?_, .inr hother⟩
      have hlt := hbefore (hend.mp hzero)
      omega
    case isFalse hik => exact hfound.passes i hi hik

/-! ## Which calls are harmless -/

/-- The file of a slot: its size and its sector. -/
def fileAt (g : Geometry) (d : Contents) (k : ℕ) : UInt32 × Sector :=
  (size (slot g d k), d (g.clusterToSector (cluster (slot g d k))))

/-- What a call finds on the disk if it is to do no harm, when it chooses cluster `c` and slot `k`.
Files are looked for on the disk with the cluster marked, where the data sector of the new file
counts as written already. -/
structure SparesAt (g : Geometry) (d : Contents) (n : FileName) (data : Sector) (dataLen : UInt32)
    (c : UInt16) (k : ℕ) : Prop where
  /-- The two sectors in which the cluster is marked are in the FAT area, or are the ones of the
  directory entry or of the data. -/
  copies : ∀ lba ∈ [g.fatSector c, g.mirrorSector c],
    g.InFat lba ∨ lba = g.slotSector k ∨ lba = g.clusterToSector c
  /-- Every other file that is not empty is found beside slot `k`, and in front of it if the new
  entry reads as an end marker; and it has its size and its bytes. -/
  files : ∀ n' ≠ n, ∀ k', lookup g d n' = some k' → size (slot g d k') ≠ 0 →
    ∃ j, FoundBeside g (markUsed g d c) k n' j ∧ (n.name 0 = 0 → j < k) ∧
      fileAt g (Function.update (markUsed g d c) (g.clusterToSector c) (padded data dataLen)) j =
        fileAt g d k'

/-- The same for the cluster and the slot that `createFile` chooses on this disk. -/
def Spares (g : Geometry) (d : Contents) (n : FileName) (data : Sector) (dataLen : UInt32) : Prop :=
  ∃ k, freeSlot g (markUsed g d (freeCluster g d)) = some k ∧
    SparesAt g d n data dataLen (freeCluster g d) k

/-- The sector of the entry and the sector of the data are the two outside of the FAT area that a
call always writes. -/
theorem frame_iff (hg : v.geometry.Located) {c : UInt16} {k : ℕ} (hk : k < v.geometry.slots)
    (hwrites : writesSince v v' = [v.geometry.clusterToSector c, v.geometry.slotSector k,
      v.geometry.mirrorSector c, v.geometry.fatSector c]) :
    (∃ root data : UInt32,
      (v.geometry.rootStart.toNat ≤ root.toNat ∧ root.toNat < v.geometry.dataStart.toNat) ∧
      v.geometry.dataStart.toNat ≤ data.toNat ∧
      ∀ lba ∈ writesSince v v', v.geometry.InFat lba ∨ lba = root ∨ lba = data) ↔
    ∀ lba ∈ [v.geometry.fatSector c, v.geometry.mirrorSector c], v.geometry.InFat lba ∨
      lba = v.geometry.slotSector k ∨ lba = v.geometry.clusterToSector c := by
  obtain ⟨hslot, hsec⟩ := hg.slot_toNat hk
  have hstart := hg.dataStart
  have hdata := dataStart_le hg c
  have hentry : (v.geometry.slotSector k).toNat = v.geometry.rootStart.toNat + k / 16 := hslot
  simp only [hwrites, List.forall_mem_cons, List.not_mem_nil, false_implies, implies_true, and_true]
  constructor
  · rintro ⟨root, data, hroot, hlow, hD, hR, hM, hF⟩
    have hrootEq : v.geometry.slotSector k = root := by
      obtain hin | heq | rfl := hR
      · exact absurd hin.2 (by omega)
      · exact heq
      · omega
    have hdataEq : v.geometry.clusterToSector c = data := by
      obtain hin | rfl | heq := hD
      · exact absurd hin.2 (by omega)
      · omega
      · exact heq
    rw [hrootEq, hdataEq]
    exact ⟨hF, hM⟩
  · rintro ⟨hF, hM⟩
    exact ⟨v.geometry.slotSector k, v.geometry.clusterToSector c, by omega, hdata,
      .inr (.inr rfl), .inr (.inl rfl), hM, hF⟩

/-- The file of another slot after a file has been placed. -/
theorem fileAt_place (hg : g.Located) {j k : ℕ} (hk : k < g.slots) (hj : j < g.slots) (hne : j ≠ k)
    (c : UInt16) : fileAt g (place g d k n c data dataLen) j =
      fileAt g (Function.update d (g.clusterToSector c) (padded data dataLen)) j := by
  obtain ⟨hslotk, hsec⟩ := hg.slot_toNat hk
  obtain ⟨hslotj, hsecj⟩ := hg.slot_toNat hj
  have hstart := hg.dataStart
  have hdata := dataStart_le hg c
  have hdata' := dataStart_le hg (cluster (slot g d j))
  have hslot : slot g (Function.update d (g.clusterToSector c) (padded data dataLen)) j =
      slot g d j := by
    rw [slot, Function.update_of_ne (mt (congrArg UInt32.toNat) (by omega)), slot]
  rw [fileAt, fileAt, slot_place hg hk hj, if_neg hne, hslot, place_apply, Function.update_apply]
  congr 2
  exact if_neg (mt (congrArg UInt32.toNat) (by omega))

/-- Which files are read as before. -/
theorem kept_iff (hv : v.initialized = true) (hg : v.geometry.Located) {c : UInt16} {k : ℕ}
    (hk : k < v.geometry.slots) (hmount : SameMount v v')
    (hv' : v'.disk.sectors =
      place v.geometry (markUsed v.geometry v.disk.sectors c) k n c data dataLen) :
    (∀ n' ≠ n, ∀ (len : UInt32) (bytes : Sector), len ≠ 0 →
      (readFile working n' v).1 = some (len, bytes) →
      (readFile working n' v').1 = some (len, bytes)) ↔
    ∀ n' ≠ n, ∀ k', lookup v.geometry v.disk.sectors n' = some k' →
      size (slot v.geometry v.disk.sectors k') ≠ 0 →
      ∃ j, FoundBeside v.geometry (markUsed v.geometry v.disk.sectors c) k n' j ∧
        (n.name 0 = 0 → j < k) ∧
        fileAt v.geometry (Function.update (markUsed v.geometry v.disk.sectors c)
            (v.geometry.clusterToSector c) (padded data dataLen)) j =
          fileAt v.geometry v.disk.sectors k' := by
  have hbefore : ∀ m, (readFile working m v).1 =
      (lookup v.geometry v.disk.sectors m).map (fileAt v.geometry v.disk.sectors) :=
    fun m => (readFile_working hv m).1
  have hafter : ∀ m, (readFile working m v').1 =
      (lookup v.geometry v'.disk.sectors m).map (fileAt v.geometry v'.disk.sectors) := by
    intro m
    rw [← hmount.geometry]
    exact (readFile_working (hmount.initialized.trans hv) m).1
  have hfile : ∀ {n' : FileName} {j : ℕ},
      FoundBeside v.geometry (markUsed v.geometry v.disk.sectors c) k n' j →
      fileAt v.geometry v'.disk.sectors j =
        fileAt v.geometry (Function.update (markUsed v.geometry v.disk.sectors c)
          (v.geometry.clusterToSector c) (padded data dataLen)) j := by
    intro n' j hfound
    rw [hv']
    exact fileAt_place hg hk hfound.lt hfound.ne c
  refine forall₂_congr fun n' hn' => ?_
  have hlookup : ∀ {j}, lookup v.geometry v'.disk.sectors n' = some j ↔
      FoundBeside v.geometry (markUsed v.geometry v.disk.sectors c) k n' j ∧
        (n.name 0 = 0 → j < k) := by
    intro j
    rw [hv']
    exact lookup_place_iff hg hk c data dataLen hn'
  rw [hbefore, hafter]
  constructor
  · intro hkept k' hk' hlen
    have hread := hkept _ _ hlen (by rw [hk', Option.map_some]; rfl)
    obtain ⟨j, hj, heq⟩ := Option.map_eq_some_iff.mp hread
    obtain ⟨hfound, hfront⟩ := hlookup.mp hj
    exact ⟨j, hfound, hfront, (hfile hfound).symm.trans heq⟩
  · intro hkept len bytes hlen hread
    obtain ⟨k', hk', heq⟩ := Option.map_eq_some_iff.mp hread
    obtain ⟨rfl, rfl⟩ := Prod.mk.inj heq
    obtain ⟨j, hfound, hfront, hsame⟩ := hkept k' hk' hlen
    rw [hlookup.mpr ⟨hfound, hfront⟩, Option.map_some, hfile hfound, hsame]
    rfl

/-- A call that spares the other files is harmless. -/
theorem harmless_of_spares (hv : v.initialized = true) (hg : v.geometry.Located)
    (hcreate : createFile working n data dataLen v = (.ok (), v'))
    (h : Spares v.geometry v.disk.sectors n data dataLen) : Harmless n v v' := by
  obtain ⟨c, k, rfl, -, hslot, hmount, hv', -, hwrites⟩ := created_of_ok hv hcreate
  obtain ⟨hk, -, -⟩ := freeSlot_eq_some.mp hslot
  obtain ⟨k', hslot', hspares⟩ := h
  obtain rfl := Option.some.inj (hslot.symm.trans hslot')
  exact ⟨(frame_iff hg hk hwrites).mpr hspares.copies,
    (kept_iff hv hg hk hmount hv').mpr hspares.files⟩

/-- Both sectors in which a cluster is marked are in the FAT area then. -/
theorem inFat_of_two_fats (hg : g.Located) (hfats : 2 ≤ g.numFATs.toNat) {c : UInt16}
    (hc : c.toNat < g.fatEntries) : g.InFat (g.fatSector c) ∧ g.InFat (g.mirrorSector c) := by
  obtain ⟨hfat, hlt⟩ := hg.entry_toNat hc
  have hmirror := hg.mirror_toNat (show c.toNat / 256 < 2 ^ 17 by have := c.toNat_lt; omega)
  have hroot := hg.fats_le hfats
  rw [Geometry.InFat, Geometry.InFat, Geometry.fatSector, Geometry.mirrorSector]
  omega

/-- With two FATs or more, a file is as before unless its data sector is the one of the new file and
the bytes there are others. -/
theorem fileAt_marked_iff (hg : g.Located) (hfats : 2 ≤ g.numFATs.toNat) {c : UInt16}
    (hc : c.toNat < g.fatEntries) {j : ℕ} (hj : j < g.slots) :
    fileAt g (Function.update (markUsed g d c) (g.clusterToSector c) (padded data dataLen)) j =
        fileAt g d j ↔
      (g.clusterToSector (cluster (slot g d j)) = g.clusterToSector c →
        padded data dataLen = d (g.clusterToSector c)) := by
  obtain ⟨hslotj, hsecj⟩ := hg.slot_toNat hj
  have hstart := hg.dataStart
  have hdata := dataStart_le hg c
  have hslot : slot g (Function.update (markUsed g d c) (g.clusterToSector c)
      (padded data dataLen)) j = slot g d j := by
    refine Eq.trans ?_ (slot_markUsed hg hfats hc hj)
    rw [slot, Function.update_of_ne (mt (congrArg UInt32.toNat) (by omega)), slot]
  rw [fileAt, fileAt, hslot, Prod.mk.injEq, eq_self, true_and, Function.update_apply,
    markUsed_clusterToSector hg hfats hc]
  split
  case isTrue heq => rw [heq]; simp
  case isFalse hne => simp [hne]

/-- With two FATs or more, marking a cluster reaches neither the directory nor the data. What is
left to ask is that the data sector of another file is not the one of the new file, or holds the
same bytes, and that the file is in front of the new entry if that reads as an end marker. -/
theorem sparesAt_iff_of_two_fats (hg : g.Located) (hfats : 2 ≤ g.numFATs.toNat) {c : UInt16}
    (hc : c.toNat < g.fatEntries) {k : ℕ} (hslot : freeSlot g d = some k) :
    SparesAt g d n data dataLen c k ↔
      ∀ n' ≠ n, ∀ k', lookup g d n' = some k' → size (slot g d k') ≠ 0 →
        (n.name 0 = 0 → k' < k) ∧
        (g.clusterToSector (cluster (slot g d k')) = g.clusterToSector c →
          padded data dataLen = d (g.clusterToSector c)) := by
  obtain ⟨hk, hfree, -⟩ := freeSlot_eq_some.mp hslot
  have hslots : ∀ j < g.slots, slot g (markUsed g d c) j = slot g d j :=
    fun j hj => slot_markUsed hg hfats hc hj
  have hfree' : IsEnd (slot g (markUsed g d c) k) ∨ IsDeleted (slot g (markUsed g d c) k) := by
    rwa [hslots k hk]
  have hfound : ∀ {n' : FileName} {k' : ℕ}, lookup g d n' = some k' →
      FoundBeside g (markUsed g d c) k n' k' :=
    fun h => foundBeside_of_lookup hfree' ((lookup_congr hslots _).trans h)
  constructor
  · intro h n' hn' k' hk' hlen
    obtain ⟨j, hj, hfront, heq⟩ := h.files n' hn' k' hk' hlen
    obtain rfl := hj.unique (hfound hk')
    exact ⟨hfront, (fileAt_marked_iff hg hfats hc hj.lt).mp heq⟩
  · intro h
    obtain ⟨hin, hin'⟩ := inFat_of_two_fats hg hfats hc
    refine ⟨by simp [hin, hin'], fun n' hn' k' hk' hlen => ?_⟩
    obtain ⟨hfront, hdata⟩ := h n' hn' k' hk' hlen
    exact ⟨k', hfound hk', hfront, (fileAt_marked_iff hg hfats hc (hfound hk').lt).mpr hdata⟩

/-- On a consistent volume with two FATs or more, clusters that are not empty, and a first free
cluster that is numbered in 16 bits, a file is spared unless the first byte of the new name is 0. -/
theorem spares_of_two_fats (hg : g.Located) (hfats : 2 ≤ g.numFATs.toNat)
    (hspc : g.secPerClust ≠ 0) (hcons : Consistent g d) (hname : n.name 0 ≠ 0) {c : ℕ}
    (hfirst : firstFree g d = some c) (hnarrow : c < 65536) {k : ℕ}
    (hslot : freeSlot g (markUsed g d (freeCluster g d)) = some k) :
    Spares g d n data dataLen := by
  obtain ⟨hlt, -, hzero, -⟩ := firstFree_eq_some.mp hfirst
  have hnat : (freeCluster g d).toNat = c := by
    rw [freeCluster, hfirst]
    exact Nat.mod_eq_of_lt hnarrow
  have hentry : (freeCluster g d).toNat < g.fatEntries := by rwa [hnat]
  have hslot' : freeSlot g d = some k := by
    rw [← hslot]
    exact (freeSlot_congr fun j hj => slot_markUsed hg hfats hentry hj).symm
  refine ⟨k, hslot, (sparesAt_iff_of_two_fats hg hfats hentry hslot').mpr ?_⟩
  intro n' hn' k' hk' hlen
  refine ⟨fun h => absurd h hname, fun hsector => ?_⟩
  -- the new cluster was free, so it is not the one of this file
  obtain ⟨-, -, htaken⟩ := hcons.taken k' (live_of_lookup hk') hlen
  rw [hg.clusterToSector_inj hspc hsector, hnat] at htaken
  exact absurd hzero htaken

/-- Creating a file is harmless on such a volume. -/
theorem harmless (hv : v.initialized = true) (hg : v.geometry.Located)
    (hfats : 2 ≤ v.geometry.numFATs.toNat) (hspc : v.geometry.secPerClust ≠ 0)
    (hnarrow : ∀ c, firstFree v.geometry v.disk.sectors = some c → c < 65536)
    (hname : n.name 0 ≠ 0) (hcons : Consistent v.geometry v.disk.sectors)
    (h : createFile working n data dataLen v = (.ok (), v')) : Harmless n v v' := by
  obtain ⟨c, k, rfl, hne, hslot, -⟩ := created_of_ok hv h
  obtain ⟨c₀, hfirst, -⟩ := freeCluster_ne_zero rfl hne
  exact harmless_of_spares hv hg h
    (spares_of_two_fats hg hfats hspc hcons hname hfirst (hnarrow c₀ hfirst) hslot)

end DavOS.Fat16
