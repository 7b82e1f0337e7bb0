import DavOS.Fat16.Frame

/-!
# Volumes that a new file damages

For which volumes a new file is harmless is said by `createFile_harmless_iff`. Read as conditions on
the boot sector and the name alone, those of `harmless` are needed: for any other number of FATs,
size of a cluster, size of the FAT or first byte of the name there is a consistent volume on which a
new file destroys another one. `spoiled` is that volume. Its directory is one sector with a deleted
entry and the entry of the file that is lost.

* without a FAT, the FAT and the directory are one region, and marking a cluster writes to the size
  of the file;
* with one FAT, the copy of the FAT is written over the directory;
* in clusters of no sectors all files have the same data;
* of a FAT of more than 256 sectors the free cluster 65538 is taken for cluster 2;
* a name that begins with 0 is an end marker in front of the file.
-/

namespace DavOS.Fat16

/-! ## The volume -/

/-- The parameters of a boot sector that matter. -/
structure Parameters where
  numFATs : UInt8
  secPerClust : UInt8
  fatSz16 : UInt16

/-- A boot sector with one reserved sector and a directory of one sector. -/
def Parameters.boot (p : Parameters) : Sector :=
  Block.zero.put 12 0x02 |>.put 13 p.secPerClust |>.put 14 1 |>.put 16 p.numFATs |>.put 17 16
    |>.put 19 0xFF |>.put 20 0xFF |>.put16 22 p.fatSz16 |>.put 510 0x55 |>.put 511 0xAA

/-- A letter that the name does not begin with. -/
def otherLetter (n : FileName) : UInt8 := if n.name 0 = 0x41 then 0x42 else 0x41

/-- The name of the file that is lost. -/
def victim (n : FileName) : FileName := ⟨fun _ => otherLetter n, fun _ => otherLetter n⟩

/-- A deleted entry, the entry of a file of one byte in cluster 2, and end markers. As entries of a
FAT, the first zero is entry 31: the upper half of the size. -/
def victimSector (n : FileName) : Sector := fun i =>
  if i.val < 32 then 0xE5
  else if i.val < 43 then otherLetter n
  else if i.val < 58 then 0x20
  else if i.val = 58 then 2
  else if i.val = 60 then 1
  else 0

/-- Sectors of a FAT in which cluster 2 is taken and the others are free. -/
def sparseFat (_ : ℕ) : Sector := Block.zero.put16 4 0xFFFF

/-- A FAT in which cluster 65538 is the only one that is free. -/
def denseFat (sec : ℕ) : Sector :=
  if sec = 256 then (Block.fill 0xFF).put16 4 0 else Block.fill 0xFF

section Spoiled

variable (p : Parameters) (n : FileName) (fat : ℕ → Sector)

def Parameters.geometry : Geometry := .ofBoot p.boot

def Parameters.disk : Contents := fun lba =>
  if lba = 0 then p.boot
  else if lba = p.geometry.rootStart then victimSector n
  else if lba.toNat ≤ p.fatSz16.toNat then fat (lba.toNat - 1)
  else Block.fill 1

/-- The volume after `init`. -/
def Parameters.spoiled : Volume Image where
  geometry := p.geometry
  initialized := true
  fatBuf := p.boot
  disk := ⟨p.disk n fat, [.read 0]⟩

/-- The boot sector is accepted, whatever the parameters are. -/
theorem mountable_boot : Mountable p.boot := by
  refine ⟨⟨?_, ?_⟩, ?_⟩
  · simp [Parameters.boot, Block.put16, Block.get_put]
  · simp [Parameters.boot, Block.put16, Block.get_put]
  · simp [Block.get16, Parameters.boot, Block.put16, Block.get_put]
    decide

/-- So `spoiled` is a volume that `init` has mounted. -/
theorem init_spoiled : ∃ v₀, init working v₀ = (.ok (), p.spoiled n fat) :=
  ⟨{ p.spoiled n fat with disk := ⟨p.disk n fat, []⟩ }, init_working (mountable_boot p)⟩

/-- The starts of its areas do not wrap. -/
theorem located_spoiled : p.geometry.Located := Geometry.located_ofBoot _

@[simp] theorem geometry_numFATs : p.geometry.numFATs = p.numFATs := by
  show p.boot.get 16 = p.numFATs
  simp [Parameters.boot, Block.put16, Block.get_put]

@[simp] theorem geometry_secPerClust : p.geometry.secPerClust = p.secPerClust := by
  show p.boot.get 13 = p.secPerClust
  simp [Parameters.boot, Block.put16, Block.get_put]

@[simp] theorem geometry_fatSz16 : p.geometry.fatSz16 = p.fatSz16 := by
  refine (Block.get16_congr ?_).trans
    (Block.get16_put16_self (n := 512) (i := 22) (by decide) Block.zero p.fatSz16)
  intro t ht
  obtain rfl | rfl : t = 0 ∨ t = 1 := by omega
  · simp [Parameters.boot, Block.put16, Block.get_put]
  · simp [Parameters.boot, Block.put16, Block.get_put]

/-- There is one reserved sector. -/
theorem geometry_fatStart : p.geometry.fatStart.toNat = 1 := by
  rw [(located_spoiled p).fatStart]
  show (p.boot.get16 14).toNat = 1
  simp [Block.get16, Parameters.boot, Block.put16, Block.get_put]

/-- The directory comes behind the FATs, of which there may be none. -/
theorem geometry_rootStart :
    p.geometry.rootStart.toNat = 1 + p.numFATs.toNat * p.fatSz16.toNat := by
  rw [(located_spoiled p).rootStart, geometry_fatStart, geometry_numFATs, geometry_fatSz16]

/-- The directory is one sector. -/
theorem geometry_rootSectors : p.geometry.rootSectors.toNat = 1 := by
  rw [(located_spoiled p).rootSectors]
  show ((p.boot.get16 17).toNat * 32 + 511) / 512 = 1
  simp [Block.get16, Parameters.boot, Block.put16, Block.get_put]

/-- The directory has 16 slots. -/
theorem geometry_slots : p.geometry.slots = 16 := by
  rw [Geometry.slots, geometry_rootSectors]

variable {p n fat}

/-- A FAT size that is not zero is positive. -/
theorem fatSz16_pos (hsize : p.fatSz16 ≠ 0) : 0 < p.fatSz16.toNat :=
  UInt16.lt_iff_toNat_lt.mp (UInt16.pos_iff_ne_zero.mpr hsize)

/-- A FAT has at least the 256 entries of one sector. -/
theorem fatEntries_ge (hsize : p.fatSz16 ≠ 0) : 256 ≤ p.geometry.fatEntries := by
  rw [Geometry.fatEntries, geometry_fatSz16]
  exact Nat.le_mul_of_pos_left 256 (fatSz16_pos hsize)

/-! ## Its directory -/

/-- The directory is one sector. -/
theorem slot_spoiled {d : Contents} {k : ℕ} (hk : k < 16) :
    slot p.geometry d k = entry (d p.geometry.rootStart) k := by
  rw [slot, Nat.div_eq_of_lt hk, Nat.mod_eq_of_lt hk]
  simp

/-- The directory wins where it and the FAT are one region. -/
theorem disk_rootStart : p.disk n fat p.geometry.rootStart = victimSector n := by
  have hroot := geometry_rootStart p
  rw [Parameters.disk, if_neg (ne_zero_of_toNat_pos (by omega)), if_pos rfl]

/-- The directory holds a deleted entry and the file that is lost. -/
theorem get_victimSector {i : ℕ} (hi : i < 512) : (victimSector n).get i =
    if i < 32 then 0xE5 else if i < 43 then otherLetter n else if i < 58 then 0x20
    else if i = 58 then 2 else if i = 60 then 1 else 0 := by
  rw [Block.get, dif_pos hi, victimSector]

/-- Behind its two entries there are zeros. -/
theorem get_victimSector_of_ge {i : ℕ} (hge : 64 ≤ i) (hi : i < 512) :
    (victimSector n).get i = 0 := by
  rw [get_victimSector hi, if_neg (by omega), if_neg (by omega), if_neg (by omega),
    if_neg (by omega), if_neg (by omega)]

/-- The file that is lost does not begin as the new one does. -/
theorem otherLetter_ne (n : FileName) : otherLetter n ≠ n.name 0 := by
  rw [otherLetter]
  split
  case isTrue h =>
    rw [h]
    decide
  case isFalse h => exact Ne.symm h

/-- The first letter of the file that is lost marks neither an end nor a deleted entry. -/
theorem otherLetter_visible (n : FileName) : otherLetter n ≠ 0 ∧ otherLetter n ≠ 0xE5 := by
  rw [otherLetter]
  split <;> decide

/-- The two files have different names. -/
theorem victim_ne (n : FileName) : victim n ≠ n := fun h =>
  otherLetter_ne n (congrArg (fun m => m.name 0) h)

/-- The second entry is a file of one byte in cluster 2. -/
theorem isFile_victim : HasName (victim n) (entry (victimSector n) 1) ∧
    cluster (entry (victimSector n) 1) = 2 ∧ size (entry (victimSector n) 1) = 1 := by
  have hget : ∀ j < 32, (entry (victimSector n) 1).get j = (victimSector n).get (32 + j) :=
    fun j hj => Block.get_slice _ _ hj
  refine ⟨⟨?_, ?_⟩, ?_, ?_⟩
  · intro j
    rw [hget _ (by omega), get_victimSector (by omega), if_neg (by omega), if_pos (by omega)]
    rfl
  · intro j
    rw [hget _ (by omega), get_victimSector (by omega), if_neg (by omega), if_pos (by omega)]
    rfl
  · simp [cluster, Block.get16, hget, get_victimSector]
  · simp [size, Block.get32, hget, get_victimSector]

/-- It is the only file of the volume. -/
theorem live_spoiled {k : ℕ} (h : Live p.geometry (p.disk n fat) k) : k = 1 := by
  have hk := h.lt
  rw [geometry_slots] at hk
  have hdeleted := h.not_deleted
  have hend := h.not_end k le_rfl
  rw [slot_spoiled hk, disk_rootStart, isDeleted_entry, get_victimSector (by omega)] at hdeleted
  rw [slot_spoiled hk, disk_rootStart, isEnd_entry] at hend
  by_contra hne
  obtain rfl | hge : k = 0 ∨ 2 ≤ k := by omega
  · exact hdeleted (if_pos (by decide))
  · exact hend (get_victimSector_of_ge (by omega) (by omega))

/-- It is found by its name. -/
theorem lookup_victim : lookup p.geometry (p.disk n fat) (victim n) = some 1 := by
  have hvisible := otherLetter_visible n
  rw [lookup_eq_some, geometry_slots, slot_spoiled (by decide), disk_rootStart, isEnd_entry,
    isDeleted_entry, get_victimSector (by decide)]
  refine ⟨by decide, hvisible.1, hvisible.2, isFile_victim.1, ?_⟩
  intro j hj
  obtain rfl : j = 0 := by omega
  rw [Passes, slot_spoiled (by decide), disk_rootStart, isEnd_entry, isDeleted_entry,
    get_victimSector (by decide)]
  exact ⟨by simp, .inl rfl⟩

/-- If its cluster is taken in the FAT, the volume is consistent. -/
theorem consistent_spoiled (hsize : p.fatSz16 ≠ 0)
    (htaken : fatEntry p.geometry (p.disk n fat) 2 ≠ 0) :
    Consistent p.geometry (p.disk n fat) where
  taken := by
    intro k hk _
    obtain rfl := live_spoiled hk
    rw [slot_spoiled (by decide), disk_rootStart, isFile_victim.2.1]
    exact ⟨le_rfl, lt_of_lt_of_le (by decide) (fatEntries_ge hsize), htaken⟩
  apart := by
    intro k k' hk hk' _ _ _
    rw [live_spoiled hk, live_spoiled hk']

/-- The new name is not in use. -/
theorem not_duplicate_spoiled : ¬Duplicate p.geometry (p.disk n fat) n := by
  rintro ⟨sec, hsec, hdup⟩
  rw [geometry_rootSectors] at hsec
  obtain rfl : sec = 0 := by omega
  obtain ⟨i, hi, ⟨hdeleted, -, hname⟩, hend⟩ := holdsDuplicate_iff.mp hdup
  have hentry : ∀ j < 16, entry (p.disk n fat (p.geometry.rootStart + .ofNat 0)) j =
      slot p.geometry (p.disk n fat) j := by
    intro j hj
    rw [← slot_mul_add hj, Nat.zero_mul, Nat.zero_add]
  rw [hentry i hi] at hdeleted hname
  have hlive : Live p.geometry (p.disk n fat) i := by
    refine ⟨by rwa [geometry_slots], ?_, hdeleted⟩
    intro j hj
    rw [← hentry j (by omega)]
    exact hend j hj
  obtain rfl := live_spoiled hlive
  rw [slot_spoiled (by decide), disk_rootStart] at hname
  exact victim_ne n (isFile_victim.1.unique hname)

/-! ## The new file -/

/-- Some consistent volume with these parameters loses a file to the file `n`. -/
def Damages (p : Parameters) (n : FileName) : Prop :=
  ∃ v₀ v v' : Volume Image, ∃ (data : Sector) (dataLen : UInt32),
    init working v₀ = (.ok (), v) ∧ Consistent v.geometry v.disk.sectors ∧
    v.geometry.numFATs = p.numFATs ∧ v.geometry.secPerClust = p.secPerClust ∧
    v.geometry.fatSz16 = p.fatSz16 ∧ createFile working n data dataLen v = (.ok (), v') ∧
    ¬Harmless n v v'

/-- The first slot takes the entry of the new file, and the victim is in the second one. -/
theorem lookup_victim_place {d : Contents} {c : UInt16} {k : ℕ}
    (hend : ∀ k, 2 ≤ k → k < 16 → IsEnd (slot p.geometry d k))
    (h : lookup p.geometry (place p.geometry d 0 n c Block.zero 0) (victim n) = some k) :
    k = 1 ∧ n.name 0 ≠ 0 ∧
      slot p.geometry (place p.geometry d 0 n c Block.zero 0) 1 = slot p.geometry d 1 ∧
      ¬IsEnd (slot p.geometry d 1) := by
  have hg := located_spoiled p
  have hslots := geometry_slots p
  have hslot : ∀ j < 16, slot p.geometry (place p.geometry d 0 n c Block.zero 0) j =
      if j = 0 then newEntry (slot p.geometry d 0) n c 0 else slot p.geometry d j :=
    fun j hj => slot_place hg (by omega) (by omega)
  have hfile : IsFile (newEntry (slot p.geometry d 0) n c 0) n c 0 := isFile_newEntry
  obtain ⟨hk, hkend, -, hname, hpass⟩ := lookup_eq_some.mp h
  rw [hslots] at hk
  rw [hslot k hk] at hkend hname
  obtain rfl | rfl | hge : k = 0 ∨ k = 1 ∨ 2 ≤ k := by omega
  · rw [if_pos rfl] at hname
    exact absurd (hname.unique hfile.name) (victim_ne n)
  · refine ⟨rfl, ?_, hslot 1 hk, hkend⟩
    have hfirst := (hpass 0 (by decide)).1
    rw [hslot 0 (by decide), if_pos rfl] at hfirst
    intro hzero
    exact hfirst (hfile.name.get_zero.trans hzero)
  · rw [if_neg (by omega)] at hkend
    exact absurd (hend k hge hk) hkend

/-- The new file gets the first slot. -/
theorem created_spoiled {c : UInt16} (hne : c ≠ 0)
    (hc : freeCluster p.geometry (p.disk n fat) = c)
    (hslot : freeSlot p.geometry (markUsed p.geometry (p.disk n fat) c) = some 0) :
    ∃ v', createFile working n Block.zero 0 (p.spoiled n fat) = (.ok (), v') ∧
      SameMount (p.spoiled n fat) v' ∧ v'.disk.sectors =
        place p.geometry (markUsed p.geometry (p.disk n fat) c) 0 n c Block.zero 0 := by
  have hmounted : (p.spoiled n fat).initialized = true := rfl
  have hcreate := creation hmounted n Block.zero 0
  generalize createFile working n Block.zero 0 (p.spoiled n fat) = r at hcreate
  cases hcreate with
  | duplicate hdup hv' => exact absurd hdup not_duplicate_spoiled
  | noCluster hdup hfree hv' => exact absurd (hc.symm.trans hfree) hne
  | directoryFull hdup hc' hne' hslot' hmount hv' =>
    obtain rfl := hc.symm.trans hc'
    cases hslot.symm.trans hslot'
  | @created c' k v' hdup hc' hne' hslot' hmount hv' hlog hwrites =>
    obtain rfl := hc.symm.trans hc'
    obtain rfl := Option.some.inj (hslot.symm.trans hslot')
    exact ⟨v', rfl, hmount, hv'⟩

/-- The file `n` damages the volume unless the entry and the data of the victim stay. -/
theorem damages_of_spoiled (hsize : p.fatSz16 ≠ 0)
    (htaken : fatEntry p.geometry (p.disk n fat) 2 ≠ 0) {c : UInt16} (hne : c ≠ 0)
    (hc : freeCluster p.geometry (p.disk n fat) = c) {d : Contents}
    (hd : markUsed p.geometry (p.disk n fat) c = d) (hslot : freeSlot p.geometry d = some 0)
    (hend : ∀ k, 2 ≤ k → k < 16 → IsEnd (slot p.geometry d k))
    (hbad : n.name 0 ≠ 0 → ¬IsEnd (slot p.geometry d 1) → size (slot p.geometry d 1) = 1 →
      place p.geometry d 0 n c Block.zero 0
        (p.geometry.clusterToSector (cluster (slot p.geometry d 1))) ≠
          p.disk n fat (p.geometry.clusterToSector 2)) : Damages p n := by
  obtain ⟨v₀, hinit⟩ := init_spoiled p n fat
  have hmounted : (p.spoiled n fat).initialized = true := rfl
  have hgeometry : (p.spoiled n fat).geometry = p.geometry := rfl
  have hsectors : (p.spoiled n fat).disk.sectors = p.disk n fat := rfl
  subst hd
  obtain ⟨v', hcreate, hmount, hv'⟩ := created_spoiled hne hc hslot
  refine ⟨v₀, _, v', Block.zero, 0, hinit, consistent_spoiled hsize htaken, geometry_numFATs p,
    geometry_secPerClust p, geometry_fatSz16 p, hcreate, ?_⟩
  intro hharmless
  -- the victim was there, and so it still is
  have hread := (readFile_working hmounted (victim n)).1
  rw [hgeometry, hsectors, lookup_victim, Option.map_some, slot_spoiled (by decide),
    disk_rootStart, isFile_victim.2.1, isFile_victim.2.2] at hread
  have hkept := hharmless.kept (victim n) (victim_ne n) 1 _ (by decide) hread
  rw [(readFile_working (hmount.initialized.trans hmounted) (victim n)).1, hmount.geometry, hv',
    hgeometry, Option.map_eq_some_iff] at hkept
  obtain ⟨k, hlookup, heq⟩ := hkept
  obtain ⟨rfl, hname, hsame, hvisible⟩ := lookup_victim_place hend hlookup
  obtain ⟨hlen, hbytes⟩ := Prod.mk.inj heq
  rw [hsame] at hlen hbytes
  exact hbad hname hvisible hlen hbytes

/-! ## The five ways -/

/-- With a FAT the directory lies behind it. -/
theorem rootStart_gt (hfats : 1 ≤ p.numFATs.toNat) :
    p.fatSz16.toNat < p.geometry.rootStart.toNat := by
  have hfat := (located_spoiled p).fats_le (m := 1) (by rwa [geometry_numFATs])
  rw [geometry_fatStart, geometry_fatSz16] at hfat
  omega

/-- If there is a FAT, it is not the directory. -/
theorem disk_fat (hfats : 1 ≤ p.numFATs.toNat) {sec : ℕ} (hsec : sec < p.fatSz16.toNat) :
    p.disk n fat (p.geometry.fatStart + .ofNat sec) = fat sec := by
  have hsize := p.fatSz16.toNat_lt
  have hfat := (located_spoiled p).fat_toNat (show sec < 2 ^ 17 by omega)
  have hroot := rootStart_gt hfats
  rw [geometry_fatStart] at hfat
  rw [Parameters.disk, if_neg (ne_zero_of_toNat_pos (by omega)),
    if_neg (mt (congrArg UInt32.toNat) (by omega)), if_pos (by omega), hfat,
    Nat.add_sub_cancel_left]

/-- Without a FAT, its first sector is the directory. -/
theorem fatStart_eq_rootStart (hfats : p.numFATs = 0) :
    p.geometry.fatStart = p.geometry.rootStart := by
  apply UInt32.toNat_inj.mp
  rw [geometry_fatStart, geometry_rootStart, hfats]
  simp

/-- The driver takes the first free cluster, narrowed to 16 bits. -/
theorem freeCluster_eq {c : ℕ} (h : firstFree p.geometry (p.disk n fat) = some c) :
    freeCluster p.geometry (p.disk n fat) = .ofNat c := by
  rw [freeCluster, h]
  rfl

/-- Without a FAT: cluster 31 is the upper half of the size of the victim. -/
theorem damages_of_no_fat (hfats : p.numFATs = 0) (hsize : p.fatSz16 ≠ 0) : Damages p n := by
  have hfat : ∀ c < 256, fatEntry p.geometry (p.disk n sparseFat) c =
      (victimSector n).get16 (c * 2) := by
    intro c hc
    rw [fatEntry, Nat.div_eq_of_lt hc, Nat.mod_eq_of_lt hc, fatStart_eq_rootStart hfats]
    simp [disk_rootStart]
  have hlow : ∀ c < 31, (victimSector n).get16 (c * 2) ≠ 0 := by
    intro c hc
    apply Block.get16_ne_zero
    rw [get_victimSector (by omega)]
    have hvisible := (otherLetter_visible n).1
    split_ifs with h₁ h₂ h₃ h₄ h₅
    · decide
    · exact hvisible
    · decide
    · decide
    · decide
    · omega
  have hpos := fatEntries_ge hsize
  have hfirst : firstFree p.geometry (p.disk n sparseFat) = some 31 := by
    rw [firstFree_eq_some]
    refine ⟨by omega, by decide, ?_, ?_⟩
    · rw [hfat 31 (by decide)]
      simp [Block.get16, get_victimSector]
    · intro j _ hj
      rw [hfat j (by omega)]
      exact hlow j hj
  have hroot : markUsed p.geometry (p.disk n sparseFat) (.ofNat 31) p.geometry.rootStart =
      (victimSector n).put16 62 0xFFFF := by
    rw [markUsed_apply, ← fatStart_eq_rootStart hfats, if_pos (.inl (by simp))]
    simp [fatStart_eq_rootStart hfats, disk_rootStart]
  have hget : ∀ i < 512, i ≠ 62 → i ≠ 63 →
      ((victimSector n).put16 62 0xFFFF).get i = (victimSector n).get i := fun i _ h h' =>
    Block.get_put16_of_ne (by decide) _ _ h h'
  refine damages_of_spoiled hsize ?_ (by decide) (freeCluster_eq hfirst) rfl ?_ ?_ ?_
  · rw [hfat 2 (by decide)]
    exact hlow 2 (by decide)
  · rw [freeSlot_eq_some, geometry_slots, slot_spoiled (by decide), hroot, isDeleted_entry,
      hget _ (by decide) (by decide) (by decide), get_victimSector (by decide)]
    exact ⟨by decide, .inr rfl, by simp⟩
  · intro k hk hlt
    rw [slot_spoiled hlt, hroot, isEnd_entry, hget _ (by omega) (by omega) (by omega),
      get_victimSector_of_ge (by omega) (by omega)]
  · intro _ _ hlen
    rw [slot_spoiled (by decide), hroot] at hlen
    simp [size, Block.get32, entry, Block.get_slice, Block.put16, Block.get_put,
      get_victimSector] at hlen
    exact absurd hlen (by decide)

/-- In the sparse FAT, cluster 2 is taken and cluster 3 is free. -/
theorem firstFree_sparse (hfats : 1 ≤ p.numFATs.toNat) (hsize : p.fatSz16 ≠ 0) :
    fatEntry p.geometry (p.disk n sparseFat) 2 ≠ 0 ∧
      firstFree p.geometry (p.disk n sparseFat) = some 3 := by
  have hpos := fatSz16_pos hsize
  have hfat : ∀ c < 256, fatEntry p.geometry (p.disk n sparseFat) c =
      (sparseFat 0).get16 (c * 2) := by
    intro c hc
    rw [fatEntry, Nat.div_eq_of_lt hc, Nat.mod_eq_of_lt hc, disk_fat hfats (by omega)]
  have htaken : fatEntry p.geometry (p.disk n sparseFat) 2 ≠ 0 := by
    rw [hfat 2 (by decide), sparseFat, Block.get16_put16_self (by decide)]
    decide
  have hentries := fatEntries_ge hsize
  refine ⟨htaken, firstFree_eq_some.mpr ⟨by omega, by decide, ?_, ?_⟩⟩
  · rw [hfat 3 (by decide)]
    simp [sparseFat, Block.get16, Block.put16, Block.get_put]
  · intro j hj hlt
    obtain rfl : j = 2 := by omega
    exact htaken

/-- With one FAT: its copy is written over the directory. -/
theorem damages_of_one_fat (hfats : p.numFATs = 1) (hsize : p.fatSz16 ≠ 0) : Damages p n := by
  have hone : p.numFATs.toNat = 1 := by rw [hfats]; rfl
  obtain ⟨htaken, hfirst⟩ := firstFree_sparse (n := n) hone.ge hsize
  have hpos := fatSz16_pos hsize
  have hroot : markUsed p.geometry (p.disk n sparseFat) (.ofNat 3) p.geometry.rootStart =
      (sparseFat 0).put16 6 0xFFFF := by
    have hmirror : p.geometry.rootStart =
        p.geometry.fatStart + p.geometry.fatSz16.toUInt32 + .ofNat 0 := by
      apply UInt32.toNat_inj.mp
      rw [(located_spoiled p).mirror_toNat (by decide), geometry_rootStart, geometry_fatStart,
        geometry_fatSz16, hone]
      omega
    have h3 : (UInt16.ofNat 3).toNat = 3 := rfl
    rw [markUsed_apply, if_pos (.inr hmirror)]
    exact congrArg (Block.put16 · 6 0xFFFF) (disk_fat hone.ge (by omega))
  have hget : ∀ k < 16, ((sparseFat 0).put16 6 0xFFFF).get (k * 32) = 0 := by
    intro k hk
    rw [Block.get_put16_of_ne (by decide) _ _ (by omega) (by omega), sparseFat,
      Block.get_put16_of_ne (by decide) _ _ (by omega) (by omega), Block.get_zero]
  have hend : ∀ k < 16, IsEnd
      (slot p.geometry (markUsed p.geometry (p.disk n sparseFat) (.ofNat 3)) k) := by
    intro k hk
    rw [slot_spoiled hk, hroot, isEnd_entry]
    exact hget k hk
  refine damages_of_spoiled hsize htaken (by decide) (freeCluster_eq hfirst) rfl ?_
    (fun k _ hk => hend k hk) fun _ hvisible => absurd (hend 1 (by decide)) hvisible
  rw [freeSlot_eq_some, geometry_slots]
  exact ⟨by decide, .inl (hend 0 (by decide)), by simp⟩

/-- The data is behind the FAT and the directory. -/
theorem disk_data (hfats : 1 ≤ p.numFATs.toNat) (c : UInt16) :
    p.disk n fat (p.geometry.clusterToSector c) = Block.fill 1 := by
  have hdata := dataStart_le (located_spoiled p) c
  have hstart := (located_spoiled p).dataStart
  have hroot := rootStart_gt hfats
  have hsectors := geometry_rootSectors p
  rw [Parameters.disk, if_neg (ne_zero_of_toNat_pos (by omega)),
    if_neg (mt (congrArg UInt32.toNat) (by omega)), if_neg (by omega)]

/-- With two FATs the directory stays. -/
theorem slot_two_fats (hfats : 2 ≤ p.numFATs.toNat) {c : UInt16}
    (hlt : c.toNat < p.geometry.fatEntries) {k : ℕ} (hk : k < 16) :
    slot p.geometry (markUsed p.geometry (p.disk n fat) c) k = entry (victimSector n) k := by
  rw [slot_markUsed (located_spoiled p) (by rwa [geometry_numFATs]) hlt (by rwa [geometry_slots]),
    slot_spoiled hk, disk_rootStart]

/-- With two FATs marking a cluster leaves the deleted entry as the free slot. -/
theorem freeSlot_two_fats (hfats : 2 ≤ p.numFATs.toNat) {c : UInt16}
    (hlt : c.toNat < p.geometry.fatEntries) :
    freeSlot p.geometry (markUsed p.geometry (p.disk n fat) c) = some 0 := by
  rw [freeSlot_eq_some, geometry_slots, slot_two_fats hfats hlt (by decide), isDeleted_entry,
    get_victimSector (by decide)]
  exact ⟨by decide, .inr rfl, by simp⟩

/-- With two FATs the directory stays, and the victim is lost if the new file is an end marker or
gets the sector of the victim. -/
theorem damages_of_two_fats (hfats : 2 ≤ p.numFATs.toNat) (hsize : p.fatSz16 ≠ 0)
    (htaken : fatEntry p.geometry (p.disk n fat) 2 ≠ 0) {c : UInt16} (hne : c ≠ 0)
    (hc : freeCluster p.geometry (p.disk n fat) = c) (hlt : c.toNat < p.geometry.fatEntries)
    (hbad : n.name 0 = 0 ∨ p.geometry.clusterToSector c = p.geometry.clusterToSector 2) :
    Damages p n := by
  have hslot : ∀ k < 16, slot p.geometry (markUsed p.geometry (p.disk n fat) c) k =
      entry (victimSector n) k := fun k hk => slot_two_fats hfats hlt hk
  refine damages_of_spoiled hsize htaken hne hc rfl (freeSlot_two_fats hfats hlt) ?_ ?_
  · intro k hk hlt
    rw [hslot k hlt, isEnd_entry, get_victimSector_of_ge (by omega) (by omega)]
  · intro hname _ _
    obtain hzero | hsame := hbad
    · exact absurd hzero hname
    · rw [hslot 1 (by decide), isFile_victim.2.1, place_apply, if_pos hsame.symm,
        disk_data (by omega)]
      intro heq
      have hbyte := congrArg (Block.get · 0) heq
      simp [padded, Block.get, Block.fill] at hbyte

/-- With the sparse FAT, the new file gets cluster 3. -/
theorem damages_of_sparse (hfats : 2 ≤ p.numFATs.toNat) (hsize : p.fatSz16 ≠ 0)
    (hbad : n.name 0 = 0 ∨ p.geometry.clusterToSector 3 = p.geometry.clusterToSector 2) :
    Damages p n := by
  obtain ⟨htaken, hfirst⟩ := firstFree_sparse (n := n) (by omega) hsize
  exact damages_of_two_fats hfats hsize htaken (by decide) (freeCluster_eq hfirst)
    (lt_of_lt_of_le (by decide) (fatEntries_ge hsize)) hbad

/-- In clusters of no sectors, clusters 2 and 3 start in the same sector. -/
theorem damages_of_no_sectors (hfats : 2 ≤ p.numFATs.toNat) (hspc : p.secPerClust = 0)
    (hsize : p.fatSz16 ≠ 0) : Damages p n := by
  refine damages_of_sparse hfats hsize (.inr (UInt32.toNat_inj.mp ?_))
  rw [(located_spoiled p).data_toNat, (located_spoiled p).data_toNat, geometry_secPerClust, hspc]
  simp

/-- A FAT of more than 256 sectors: cluster 65538 is narrowed to the cluster of the victim. -/
theorem damages_of_large_fat (hfats : 2 ≤ p.numFATs.toNat) (hlarge : 256 < p.fatSz16.toNat) :
    Damages p n := by
  have hsize : p.fatSz16 ≠ 0 := by
    intro h
    rw [h] at hlarge
    exact absurd hlarge (by decide)
  have hfat : ∀ c, c / 256 ≤ 256 → fatEntry p.geometry (p.disk n denseFat) c =
      (denseFat (c / 256)).get16 (c % 256 * 2) := by
    intro c hc
    rw [fatEntry, disk_fat (by omega) (by omega)]
  have htaken : ∀ c < 65538, fatEntry p.geometry (p.disk n denseFat) c ≠ 0 := by
    intro c hc
    rw [hfat c (by omega)]
    apply Block.get16_ne_zero
    rw [denseFat]
    split
    case isTrue hsec =>
      rw [Block.get_put16_of_ne (by decide) _ _ (by omega) (by omega), Block.get_fill _ (by omega)]
      decide
    case isFalse =>
      rw [Block.get_fill _ (by omega)]
      decide
  have hfirst : firstFree p.geometry (p.disk n denseFat) = some 65538 := by
    rw [firstFree_eq_some, Geometry.fatEntries, geometry_fatSz16]
    refine ⟨by omega, by decide, ?_, fun j _ hj => htaken j hj⟩
    rw [hfat _ (by decide)]
    exact Block.get16_put16_self (by decide) _ 0
  have hpos := fatEntries_ge hsize
  have h2 : (UInt16.ofNat 65538).toNat = 2 := rfl
  exact damages_of_two_fats hfats hsize (htaken 2 (by decide)) (by decide) (freeCluster_eq hfirst)
    (by omega) (.inr rfl)

end Spoiled

/-- **Which parameters are safe.** Whatever the other fields of the boot sector are, creating the
file `n` is harmless on all consistent volumes with these parameters exactly if there are two FATs
or more, clusters of at least one sector, at most 256 sectors in a FAT, and the first byte of the
name is not 0; or if there is no room for a cluster at all. -/
theorem parameters_harmless_iff (numFATs secPerClust : UInt8) (fatSz16 : UInt16) (n : FileName) :
    (∀ (v₀ v v' : Volume Image) (data : Sector) (dataLen : UInt32),
      init working v₀ = (.ok (), v) → Consistent v.geometry v.disk.sectors →
      v.geometry.numFATs = numFATs → v.geometry.secPerClust = secPerClust →
      v.geometry.fatSz16 = fatSz16 → createFile working n data dataLen v = (.ok (), v') →
      Harmless n v v') ↔
    fatSz16 = 0 ∨ 2 ≤ numFATs ∧ secPerClust ≠ 0 ∧ fatSz16 ≤ 256 ∧ n.name 0 ≠ 0 := by
  constructor
  · intro h
    by_contra hbad
    have hsize : fatSz16 ≠ 0 := fun hzero => hbad (.inl hzero)
    have hdamages : Damages ⟨numFATs, secPerClust, fatSz16⟩ n := by
      obtain hfats | hfats | hfats :
          numFATs.toNat = 0 ∨ numFATs.toNat = 1 ∨ 2 ≤ numFATs.toNat := by omega
      · exact damages_of_no_fat (UInt8.toNat_inj.mp hfats) hsize
      · exact damages_of_one_fat (UInt8.toNat_inj.mp hfats) hsize
      · by_cases hspc : secPerClust = 0
        · exact damages_of_no_sectors hfats hspc hsize
        · by_cases hname : n.name 0 = 0
          · exact damages_of_sparse hfats hsize (.inl hname)
          · by_cases hlarge : 256 < fatSz16.toNat
            · exact damages_of_large_fat hfats hlarge
            · exact absurd (.inr ⟨UInt8.le_iff_toNat_le.mpr hfats, hspc,
                UInt16.le_iff_toNat_le.mpr (Nat.le_of_not_lt hlarge), hname⟩) hbad
    obtain ⟨v₀, v, v', data, dataLen, hinit, hcons, hfats, hspc, hsize, hcreate, hharm⟩ := hdamages
    exact hharm (h v₀ v v' data dataLen hinit hcons hfats hspc hsize hcreate)
  · rintro hcond v₀ v v' data dataLen hinit hcons rfl rfl rfl hcreate
    have hmounted := (mounted_of_init hinit).1
    obtain hzero | ⟨hfats, hspc, hlarge, hname⟩ := hcond
    · -- without an entry there is no free cluster
      obtain ⟨c, k, hc, hne, -⟩ := created_of_ok hmounted hcreate
      obtain ⟨c₀, hfirst, -⟩ := freeCluster_ne_zero hc hne
      obtain ⟨hlt, -⟩ := firstFree_eq_some.mp hfirst
      rw [Geometry.fatEntries, hzero] at hlt
      exact absurd hlt (by simp)
    · refine harmless hmounted (located_of_init hinit) (UInt8.le_iff_toNat_le.mp hfats) hspc ?_
        hname hcons hcreate
      intro c hfirst
      obtain ⟨hlt, -⟩ := firstFree_eq_some.mp hfirst
      have hsectors : v.geometry.fatSz16.toNat ≤ 256 := UInt16.le_iff_toNat_le.mp hlarge
      rw [Geometry.fatEntries] at hlt
      omega

end DavOS.Fat16
