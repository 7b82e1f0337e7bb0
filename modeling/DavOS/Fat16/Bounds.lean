import DavOS.Fat16.Formatted
import DavOS.Fat16.Frame

/-!
# Accesses outside of the volume

The number of sectors is read from the boot sector and not looked at again. The FAT can have more
entries than the volume has clusters, and `findFreeCluster` takes them for clusters; the first
cluster of an empty file is 0, and `readFile` reads the data of cluster 0 at 65534 clusters behind
the start of the data. `inside_iff` says for which volumes neither happens.
-/

namespace DavOS.Fat16

/-! ## The clusters of a volume -/

/-- The clusters are numbered from 2 up to this. -/
def Geometry.clusterEnd (g : Geometry) : ℕ :=
  2 + (g.totSec16.toNat - g.dataStart.toNat) / g.secPerClust.toNat

/-- A sector of the data, inside of the volume. -/
def Geometry.InData (g : Geometry) (lba : UInt32) : Prop :=
  g.dataStart.toNat ≤ lba.toNat ∧ lba.toNat < g.totSec16.toNat

/-- The entries of a directory, as the format has them: an entry without data, with first cluster 0,
or a cluster of the volume that is taken in the FAT. -/
structure WellFormed (g : Geometry) (d : Contents) : Prop where
  entry : ∀ k, Live g d k → (cluster (slot g d k) = 0 ∧ size (slot g d k) = 0) ∨
    (2 ≤ (cluster (slot g d k)).toNat ∧ (cluster (slot g d k)).toNat < g.clusterEnd ∧
      fatEntry g d (cluster (slot g d k)).toNat ≠ 0)

/-- A cluster of the volume is free, or no entry of the FAT is, or the first entry that is has a
number that the narrowing to 16 bits turns into 0. -/
def FreeInside (g : Geometry) (d : Contents) : Prop :=
  (∃ c, 2 ≤ c ∧ c < g.clusterEnd ∧ c < g.fatEntries ∧ fatEntry g d c = 0) ∨
  (∀ c, 2 ≤ c → c < g.fatEntries → fatEntry g d c ≠ 0) ∨
  ∃ m, 0 < m ∧ 65536 * m < g.fatEntries ∧ fatEntry g d (65536 * m) = 0 ∧
    ∀ c, 2 ≤ c → c < 65536 * m → fatEntry g d c ≠ 0

/-- No entry that `readFile` finds has first cluster 0. -/
def NoneEmpty (g : Geometry) (d : Contents) : Prop :=
  ∀ n k, lookup g d n = some k → cluster (slot g d k) ≠ 0

/-- The accesses to the data stay inside of the volume. -/
structure Inside (v : Volume Image) : Prop where
  free : (findFreeCluster working v).1 = 0 ∨
    ((findFreeCluster working v).1.toNat < v.geometry.fatEntries ∧
      fatEntry v.geometry v.disk.sectors (findFreeCluster working v).1.toNat = 0 ∧
      2 ≤ (findFreeCluster working v).1.toNat ∧
      (findFreeCluster working v).1.toNat < v.geometry.clusterEnd)
  /-- The last access of `createFile` is the write of the data. -/
  create : ∀ (n : FileName) (data : Sector) (dataLen : UInt32) (v' : Volume Image),
    createFile working n data dataLen v = (.ok (), v') →
      ∃ lba, v'.disk.log.head? = some (.write lba) ∧ v.geometry.InData lba
  /-- The last access of `readFile` is the read of the data. -/
  read : ∀ (n : FileName) (r : UInt32 × Sector) (v' : Volume Image),
    readFile working n v = (some r, v') →
      ∃ lba, v'.disk.log.head? = some (.read lba) ∧ v.geometry.InData lba

section Clusters

variable {g : Geometry} {d : Contents}

/-- A cluster of the volume has its sectors in the data. -/
theorem inData_clusterToSector (hg : g.Located) (hspc : g.secPerClust ≠ 0) {c : UInt16}
    (hc : 2 ≤ c.toNat) (hend : c.toNat < g.clusterEnd) : g.InData (g.clusterToSector c) := by
  refine ⟨dataStart_le hg c, ?_⟩
  rw [hg.data_toNat, Geometry.Located.toNat_sub_two hc]
  rw [Geometry.clusterEnd] at hend
  generalize hq : (g.totSec16.toNat - g.dataStart.toNat) / g.secPerClust.toNat = q at hend
  have hle : q * g.secPerClust.toNat ≤ g.totSec16.toNat - g.dataStart.toNat :=
    hq ▸ Nat.div_mul_le_self _ _
  have hlt : (c.toNat - 2) * g.secPerClust.toNat < q * g.secPerClust.toNat :=
    Nat.mul_lt_mul_of_pos_right (by omega) (Geometry.secPerClust_pos hspc)
  omega

/-- A volume has at most 65535 clusters, numbered from 2. -/
theorem clusterEnd_le (g : Geometry) : g.clusterEnd ≤ 65537 := by
  have htotal := g.totSec16.toNat_lt
  have hdiv := Nat.div_le_self (g.totSec16.toNat - g.dataStart.toNat) g.secPerClust.toNat
  rw [Geometry.clusterEnd]
  omega

/-- The cluster that is found is one of the volume exactly if one of the volume is free. -/
theorem freeCluster_inside_iff :
    (freeCluster g d = 0 ∨ ((freeCluster g d).toNat < g.fatEntries ∧
      fatEntry g d (freeCluster g d).toNat = 0 ∧ 2 ≤ (freeCluster g d).toNat ∧
      (freeCluster g d).toNat < g.clusterEnd)) ↔ FreeInside g d := by
  have hend := clusterEnd_le g
  cases hfirst : firstFree g d with
  | none =>
    have hzero : freeCluster g d = 0 := by rw [freeCluster, hfirst]; rfl
    have hnone := firstFree_eq_none.mp hfirst
    exact iff_of_true (.inl hzero) (.inr (.inl fun c hc hlt => hnone c hlt hc))
  | some c₀ =>
    have hcluster : freeCluster g d = .ofNat c₀ := by rw [freeCluster, hfirst]; rfl
    obtain ⟨hlt, htwo, hfree, hbefore⟩ := firstFree_eq_some.mp hfirst
    have hnat : (freeCluster g d).toNat = c₀ % 65536 := by rw [hcluster, UInt16.toNat_ofNat']
    constructor
    · rintro (hzero | ⟨-, hfree', htwo', hend'⟩)
      · -- narrowed to 0
        rw [hzero, show (0 : UInt16).toNat = 0 from rfl] at hnat
        have hmul : 65536 * (c₀ / 65536) = c₀ := by omega
        refine .inr (.inr ⟨c₀ / 65536, by omega, ?_⟩)
        rw [hmul]
        exact ⟨hlt, hfree, hbefore⟩
      · -- a smaller number would not be free
        have hsame : (freeCluster g d).toNat = c₀ := by
          by_contra hne
          exact hbefore _ htwo' (by omega) hfree'
        exact .inl ⟨c₀, htwo, by omega, hlt, hfree⟩
    · rintro (⟨c, hc, hcend, -, hcfree⟩ | hnone | ⟨m, hm, hmlt, hmfree, hmbefore⟩)
      · have hle : c₀ ≤ c := by
          by_contra hgt
          exact hbefore c hc (by omega) hcfree
        by_cases hlast : c₀ = 65536
        · exact .inl (UInt16.toNat_inj.mp (by rw [hnat, hlast]; rfl))
        · have hsame : (freeCluster g d).toNat = c₀ := by omega
          rw [hsame]
          exact .inr ⟨hlt, hfree, htwo, by omega⟩
      · exact absurd hfree (hnone c₀ htwo hlt)
      · have hsame : c₀ = 65536 * m := by
          obtain hgt | heq | hgt := Nat.lt_trichotomy c₀ (65536 * m)
          · exact absurd hfree (hmbefore c₀ htwo hgt)
          · exact heq
          · exact absurd hmfree (hbefore _ (by omega) hgt)
        refine .inl (UInt16.toNat_inj.mp ?_)
        rw [hnat, hsame, Nat.mul_mod_right]
        rfl

/-- Cluster 0 is outside. -/
theorem not_inData_zero (hg : g.Located) (hspc : g.secPerClust ≠ 0) (hslots : 0 < g.slots) :
    ¬g.InData (g.clusterToSector 0) := by
  rintro ⟨-, hlt⟩
  have htotal := g.totSec16.toNat_lt
  have hstart := hg.dataStart
  rw [Geometry.slots] at hslots
  rw [hg.data_toNat, show ((0 : UInt16) - 2).toNat = 65534 from rfl] at hlt
  -- the directory has a sector, so the data does not start at 0
  have hmul : 65534 * 1 ≤ 65534 * g.secPerClust.toNat :=
    Nat.mul_le_mul_left _ (Geometry.secPerClust_pos hspc)
  omega

end Clusters

/-! ## The calls -/

section Calls

variable {v : Volume Image}

/-- On a disk that works the search returns `freeCluster`. -/
theorem findFreeCluster_fst :
    (findFreeCluster working v).1 = freeCluster v.geometry v.disk.sectors :=
  (findFreeCluster_working rfl).1

/-- If the three conditions hold, all accesses to data are inside of the volume. -/
theorem inside_of_free (hv : v.initialized = true) (hg : v.geometry.Located)
    (hspc : v.geometry.secPerClust ≠ 0) (hformed : WellFormed v.geometry v.disk.sectors)
    (hfree : FreeInside v.geometry v.disk.sectors) (hempty : NoneEmpty v.geometry v.disk.sectors) :
    Inside v where
  free := by
    rw [findFreeCluster_fst]
    exact freeCluster_inside_iff.mpr hfree
  create := by
    intro n data dataLen v' h
    obtain ⟨c, k, rfl, hne, -, -, -, hlog, -⟩ := created_of_ok hv h
    obtain hzero | ⟨-, -, htwo, hend⟩ := freeCluster_inside_iff.mpr hfree
    · exact absurd hzero hne
    · exact ⟨_, hlog, inData_clusterToSector hg hspc htwo hend⟩
  read := by
    intro n r v' h
    obtain ⟨hread, -, hlog⟩ := readFile_working hv n
    rw [h] at hread hlog
    obtain ⟨k, hlookup, -⟩ := Option.map_eq_some_iff.mp hread.symm
    obtain ⟨hzero, -⟩ | ⟨htwo, hend, -⟩ := hformed.entry k (live_of_lookup hlookup)
    · exact absurd hzero (hempty n k hlookup)
    · exact ⟨_, hlog k hlookup, inData_clusterToSector hg hspc htwo hend⟩

/-- An entry with first cluster 0 would be read outside. -/
theorem Inside.noneEmpty (h : Inside v) (hv : v.initialized = true) (hg : v.geometry.Located)
    (hspc : v.geometry.secPerClust ≠ 0) : NoneEmpty v.geometry v.disk.sectors := by
  intro n k hlookup hzero
  obtain ⟨hread, -, hlog⟩ := readFile_working hv n
  rw [hlookup, Option.map_some] at hread
  obtain ⟨lba, hlba, hdata⟩ := h.read n _ _ (Prod.ext hread rfl)
  have hslots := (live_of_lookup hlookup).lt
  rw [hlog k hlookup, Option.some.injEq, Access.read.injEq, hzero] at hlba
  subst hlba
  exact not_inData_zero hg hspc (by omega) hdata

/-- So would a free entry behind the clusters be written. -/
theorem Inside.freeInside (h : Inside v) : FreeInside v.geometry v.disk.sectors := by
  have hfree := h.free
  rw [findFreeCluster_fst] at hfree
  exact freeCluster_inside_iff.mp hfree

/-- **Where accesses stay inside of the volume.** On a volume that `init` mounts, with clusters of
at least one sector and a directory as the format has it, the accesses to the data stay inside
exactly if a cluster of the volume is the one that is found free, or none is, and no empty file can
be read. -/
theorem inside_iff (v₀ v : Volume Image) (hinit : init working v₀ = (.ok (), v))
    (hspc : v.geometry.secPerClust ≠ 0) (hformed : WellFormed v.geometry v.disk.sectors) :
    Inside v ↔
      FreeInside v.geometry v.disk.sectors ∧ NoneEmpty v.geometry v.disk.sectors := by
  have hv := (mounted_of_init hinit).1
  have hg := located_of_init hinit
  constructor
  · intro h
    exact ⟨h.freeInside, h.noneEmpty hv hg hspc⟩
  · rintro ⟨hfree, hempty⟩
    exact inside_of_free hv hg hspc hformed hfree hempty

end Calls

/-! ## Three formatted disks -/

/-- A volume before `init`. -/
def volumeOf (d : Contents) : Volume Image := ⟨formatGeometry, false, Block.zero, ⟨d, []⟩⟩

/-- A formatted disk with one file, and the first sector of its two FATs. -/
def fileDisk (fat : Sector) (c : UInt16) (len : UInt32) : Contents := fun lba =>
  if lba = 0 then bootSector
  else if lba = 321 then putEntry Block.zero 0 ⟨fun _ => 0x41, fun _ => 0x20⟩ c len
  else if lba = 1 ∨ lba = 161 then fat
  else Block.zero

/-- A file of three bytes in cluster 2. -/
def smallFileDisk : Contents := fileDisk (Block.zero.put16 4 0xFFFF) 2 3

/-- A formatted disk on which another system has made an empty file. -/
def emptyFileDisk : Contents := fileDisk Block.zero 0 0

/-- A formatted disk of which only the last sector of the FAT has free entries. -/
def crowdedDisk : Contents := fun lba =>
  if lba = 0 then bootSector else if lba.toNat < 160 then Block.fill 0xFF else Block.zero

/-- A disk with the boot sector of `format` can be mounted. -/
theorem init_volumeOf {d : Contents} (hd : d 0 = bootSector) :
    init working (volumeOf d) = (.ok (), (volumeOf d).mounted) ∧
      (volumeOf d).mounted.geometry = formatGeometry := by
  refine ⟨init_working ?_, congrArg Geometry.ofBoot hd⟩
  show Mountable (d 0)
  rw [hd]
  exact bootSector_mountable

/-- A formatted volume has clusters up to 40608. -/
theorem formatGeometry_clusterEnd : formatGeometry.clusterEnd = 40609 := by decide

/-- A directory that starts with an end marker has no entries. -/
theorem wellFormed_of_isEnd {g : Geometry} {d : Contents} (h : IsEnd (slot g d 0)) :
    WellFormed g d :=
  ⟨fun k hk => absurd h (hk.not_end 0 (Nat.zero_le k))⟩

section FileDisk

variable {fat : Sector} {c : UInt16} {len : UInt32} {k : ℕ}

/-- The first slot of the example holds the file. -/
theorem isFile_fileDisk :
    IsFile (slot formatGeometry (fileDisk fat c len) 0) ⟨fun _ => 0x41, fun _ => 0x20⟩ c len := by
  rw [slot, fileDisk, if_neg (by decide), if_pos (by decide), entry_putEntry_self (by decide)]
  exact isFile_newEntry

/-- There is one file. -/
theorem live_fileDisk (hk : Live formatGeometry (fileDisk fat c len) k) : k = 0 := by
  have hlt := hk.lt
  by_contra hne
  refine hk.not_end k le_rfl ?_
  obtain ⟨hsector, -⟩ := located_formatGeometry.slot_toNat hlt
  rw [formatGeometry_slots] at hlt
  rw [formatGeometry_rootStart] at hsector
  by_cases hfirst : k / 16 = 0
  · rw [slot, fileDisk, hfirst, if_neg (by decide), if_pos (by decide),
      entry_putEntry_of_ne (by decide) (by omega)]
    exact isEnd_entry_zero
  · have h321 : (321 : UInt32).toNat = 321 := rfl
    have h161 : (161 : UInt32).toNat = 161 := rfl
    have h1 : (1 : UInt32).toNat = 1 := rfl
    apply isEnd_slot_of_zero
    rw [fileDisk, if_neg (ne_zero_of_toNat_pos (by omega)),
      if_neg (mt (congrArg UInt32.toNat) (by omega)), if_neg]
    rintro (heq | heq)
    · have := congrArg UInt32.toNat heq
      omega
    · have := congrArg UInt32.toNat heq
      omega

/-- The first entries of the FAT. -/
theorem fatEntry_fileDisk {i : ℕ} (hi : i < 256) :
    fatEntry formatGeometry (fileDisk fat c len) i = fat.get16 (i * 2) := by
  rw [fatEntry, Nat.div_eq_of_lt hi, Nat.mod_eq_of_lt hi, fileDisk, if_neg (by decide),
    if_neg (by decide), if_pos (.inl (by decide))]

end FileDisk

/-- On a formatted disk with a file that has data, the accesses stay inside. -/
theorem smallFile_inside : Inside (volumeOf smallFileDisk).mounted := by
  obtain ⟨hinit, hgeometry⟩ := init_volumeOf (d := smallFileDisk) rfl
  have hcluster : cluster (slot formatGeometry smallFileDisk 0) = 2 := isFile_fileDisk.cluster
  have htaken : fatEntry formatGeometry smallFileDisk 2 = 0xFFFF := by
    rw [smallFileDisk, fatEntry_fileDisk (by decide)]
    exact Block.get16_put16_self (by decide) _ _
  have hfree : fatEntry formatGeometry smallFileDisk 3 = 0 := by
    rw [smallFileDisk, fatEntry_fileDisk (by decide), Block.get16,
      Block.get_put16_of_ne (by decide) _ _ (by decide) (by decide),
      Block.get_put16_of_ne (by decide) _ _ (by decide) (by decide)]
    simp
  have hformed : WellFormed formatGeometry smallFileDisk := by
    refine ⟨fun k hk => .inr ?_⟩
    obtain rfl := live_fileDisk hk
    rw [hcluster, formatGeometry_clusterEnd]
    exact ⟨by decide, by decide, by rw [show (2 : UInt16).toNat = 2 from rfl, htaken]; decide⟩
  refine (inside_iff (volumeOf smallFileDisk) _ hinit ?_ ?_).mpr ⟨.inl ⟨3, by decide, ?_⟩, ?_⟩
  · rw [hgeometry]
    exact formatGeometry_secPerClust
  · rw [hgeometry]
    exact hformed
  · rw [hgeometry, formatGeometry_clusterEnd, formatGeometry_fatEntries]
    exact ⟨by decide, by decide, hfree⟩
  · rw [hgeometry]
    intro n k hlookup
    obtain rfl := live_fileDisk (live_of_lookup hlookup)
    change cluster (slot formatGeometry smallFileDisk 0) ≠ 0
    rw [hcluster]
    decide

/-- The first free entry of the FAT is 40704, and the clusters end at 40609. -/
theorem crowdedDisk_not_freeInside : ¬FreeInside formatGeometry crowdedDisk := by
  have hlba : ∀ c < 40960,
      (formatGeometry.fatStart + .ofNat (c / 256)).toNat = 1 + c / 256 := fun c hc =>
    (fat_sectors (by omega)).1
  have htaken : ∀ c < 40704, fatEntry formatGeometry crowdedDisk c ≠ 0 := by
    intro c hc
    have hsector := hlba c (by omega)
    apply Block.get16_ne_zero
    rw [crowdedDisk, if_neg (ne_zero_of_toNat_pos (by omega)), if_pos (by omega),
      Block.get_fill _ (by omega)]
    decide
  have hfree : fatEntry formatGeometry crowdedDisk 40704 = 0 := by
    rw [fatEntry, crowdedDisk, if_neg (by decide), if_neg (by decide)]
    simp [Block.get16]
  rintro (⟨c, hc, hend, -, hzero⟩ | hnone | ⟨m, hm, hlt, -⟩)
  · rw [formatGeometry_clusterEnd] at hend
    exact htaken c (by omega) hzero
  · refine hnone 40704 (by decide) ?_ hfree
    rw [formatGeometry_fatEntries]
    decide
  · rw [formatGeometry_fatEntries] at hlt
    omega

/-- The empty file is the only one. -/
theorem emptyFileDisk_entry : WellFormed formatGeometry emptyFileDisk ∧
    ¬NoneEmpty formatGeometry emptyFileDisk := by
  have hfile : IsFile (slot formatGeometry emptyFileDisk 0) ⟨fun _ => 0x41, fun _ => 0x20⟩ 0 0 :=
    isFile_fileDisk
  refine ⟨⟨fun k hk => .inl ?_⟩, fun h => h ⟨fun _ => 0x41, fun _ => 0x20⟩ 0 ?_ hfile.cluster⟩
  · obtain rfl := live_fileDisk hk
    exact ⟨hfile.cluster, hfile.size⟩
  · have hfirst := hfile.name.get_zero
    rw [lookup_eq_some, formatGeometry_slots, IsEnd, IsDeleted, hfirst]
    exact ⟨by decide, by decide, by decide, hfile.name, by simp⟩

/-- A full volume and an empty file, on disks with the layout of `format`. -/
theorem accesses_outside :
    formatGeometry.secPerClust ≠ 0 ∧
    formatGeometry.dataStart.toNat < formatGeometry.totSec16.toNat ∧
    ∀ d ∈ [crowdedDisk, emptyFileDisk], init working (volumeOf d) = (.ok (), (volumeOf d).mounted) ∧
      (volumeOf d).mounted.geometry = formatGeometry ∧ WellFormed formatGeometry d ∧
      ¬Inside (volumeOf d).mounted := by
  refine ⟨formatGeometry_secPerClust, by decide, ?_⟩
  rw [List.forall_mem_cons, List.forall_mem_singleton]
  constructor
  · obtain ⟨hinit, hgeometry⟩ := init_volumeOf (d := crowdedDisk) rfl
    have hend : IsEnd (slot formatGeometry crowdedDisk 0) := isEnd_slot_of_zero (by
      rw [crowdedDisk, if_neg (by decide), if_neg (by decide)])
    refine ⟨hinit, hgeometry, wellFormed_of_isEnd hend, ?_⟩
    intro hinside
    have hfree := hinside.freeInside
    rw [hgeometry] at hfree
    exact crowdedDisk_not_freeInside hfree
  · obtain ⟨hinit, hgeometry⟩ := init_volumeOf (d := emptyFileDisk) rfl
    refine ⟨hinit, hgeometry, emptyFileDisk_entry.1, ?_⟩
    intro hinside
    have hempty := hinside.noneEmpty rfl (hgeometry ▸ located_formatGeometry)
      (hgeometry ▸ formatGeometry_secPerClust)
    rw [hgeometry] at hempty
    exact emptyFileDisk_entry.2 hempty

end DavOS.Fat16
