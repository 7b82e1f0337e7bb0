import DavOS.Fat16.Image

/-!
# What a write to the volume changes

The offsets that `init` computes do not wrap (`Geometry.Located`), so the FAT, its copy, the root
directory and the data lie in this order on the disk, if there are two FATs. From this follow the
frame lemmas: marking a cluster changes one entry of the FAT and no slot of the directory, and
placing a file changes one slot.
-/

namespace DavOS.Fat16

/-! ## Sector numbers -/

/-- A sum of sector numbers below `2 ^ 32` does not wrap. -/
theorem toNat_add_ofNat {a : UInt32} {s : ℕ} (h : a.toNat + s < 2 ^ 32) :
    (a + .ofNat s).toNat = a.toNat + s := by
  rw [UInt32.toNat_add, UInt32.toNat_ofNat', Nat.add_mod_mod, Nat.mod_eq_of_lt h]

/-- A sector number is not 0 if its value is positive. -/
theorem ne_zero_of_toNat_pos {a : UInt32} (h : 0 < a.toNat) : a ≠ 0 :=
  UInt32.pos_iff_ne_zero.mp (UInt32.lt_iff_toNat_lt.mpr h)

/-- A cluster size that is not zero is positive. -/
theorem Geometry.secPerClust_pos {g : Geometry} (h : g.secPerClust ≠ 0) :
    0 < g.secPerClust.toNat :=
  UInt8.lt_iff_toNat_lt.mp (UInt8.pos_iff_ne_zero.mpr h)

/-- The offsets, as numbers. -/
structure Geometry.Located (g : Geometry) : Prop where
  fatStart : g.fatStart.toNat = g.reservedSec.toNat
  rootStart : g.rootStart.toNat = g.fatStart.toNat + g.numFATs.toNat * g.fatSz16.toNat
  rootSectors : g.rootSectors.toNat = (g.rootEntCnt.toNat * 32 + 511) / 512
  dataStart : g.dataStart.toNat = g.rootStart.toNat + g.rootSectors.toNat

/-- The FATs together have fewer than `2 ^ 24` sectors. -/
theorem Geometry.mul_fatSz16_lt (g : Geometry) : g.numFATs.toNat * g.fatSz16.toNat < 2 ^ 24 :=
  (Nat.mul_lt_mul'' g.numFATs.toNat_lt g.fatSz16.toNat_lt).trans_eq (by decide)

/-- `locate` computes the starts of the areas without a wrap. -/
theorem Geometry.located_locate (g : Geometry) : g.locate.Located := by
  have hmul := g.mul_fatSz16_lt
  have hreserved := g.reservedSec.toNat_lt
  have hcount := g.rootEntCnt.toNat_lt
  have hroot : g.locate.rootStart.toNat =
      g.reservedSec.toNat + g.numFATs.toNat * g.fatSz16.toNat := by
    simp only [locate, UInt32.toNat_add, UInt32.toNat_mul, UInt16.toNat_toUInt32,
      UInt8.toNat_toUInt32]
    rw [Nat.mod_eq_of_lt (show g.numFATs.toNat * g.fatSz16.toNat < 2 ^ 32 by omega),
      Nat.mod_eq_of_lt (by omega)]
  have hsectors : g.locate.rootSectors.toNat = (g.rootEntCnt.toNat * 32 + 511) / 512 := by
    simp only [locate, UInt32.toNat_div, UInt32.toNat_add, UInt32.toNat_mul, UInt16.toNat_toUInt32]
    rw [show (32 : UInt32).toNat = 32 from rfl, show (511 : UInt32).toNat = 511 from rfl,
      show (512 : UInt32).toNat = 512 from rfl,
      Nat.mod_eq_of_lt (show g.rootEntCnt.toNat * 32 < 2 ^ 32 by omega),
      Nat.mod_eq_of_lt (by omega)]
  refine ⟨UInt16.toNat_toUInt32 _, hroot, hsectors, ?_⟩
  show (g.locate.rootStart + g.locate.rootSectors).toNat = _
  rw [UInt32.toNat_add, Nat.mod_eq_of_lt (by omega)]

/-- So does `init`, which reads the geometry from the boot sector. -/
theorem Geometry.located_ofBoot (b : Sector) : (Geometry.ofBoot b).Located :=
  Geometry.located_locate _

namespace Geometry.Located

variable {g : Geometry} {s : ℕ}

/-- The FAT starts at a 16-bit number. -/
theorem fatStart_lt (hg : g.Located) : g.fatStart.toNat < 2 ^ 16 := by
  rw [hg.fatStart]
  exact g.reservedSec.toNat_lt

/-- The root directory starts behind the FATs, at a number of 25 bits. -/
theorem rootStart_lt (hg : g.Located) : g.rootStart.toNat < 2 ^ 16 + 2 ^ 24 := by
  have hfat := hg.fatStart_lt
  have hmul := g.mul_fatSz16_lt
  have hroot := hg.rootStart
  omega

/-- The FATs that there are end before the directory. -/
theorem fats_le (hg : g.Located) {m : ℕ} (hm : m ≤ g.numFATs.toNat) :
    g.fatStart.toNat + m * g.fatSz16.toNat ≤ g.rootStart.toNat := by
  rw [hg.rootStart]
  exact Nat.add_le_add_left (Nat.mul_le_mul_right _ hm) _

/-- The root directory has at most `2 ^ 12` sectors. -/
theorem rootSectors_le (hg : g.Located) : g.rootSectors.toNat ≤ 2 ^ 12 := by
  have hcount := g.rootEntCnt.toNat_lt
  have hroot := hg.rootSectors
  omega

/-- The data start below `2 ^ 25`. -/
theorem dataStart_lt (hg : g.Located) : g.dataStart.toNat < 2 ^ 25 := by
  have hroot := hg.rootStart_lt
  have hsectors := hg.rootSectors_le
  have hdata := hg.dataStart
  omega

/-- The sectors of the FATs are consecutive. -/
theorem fat_toNat (hg : g.Located) (hs : s < 2 ^ 17) :
    (g.fatStart + .ofNat s).toNat = g.fatStart.toNat + s := by
  have hfat := hg.fatStart_lt
  exact toNat_add_ofNat (by omega)

/-- A sector of the copy that `setFATEntry` writes. -/
theorem mirror_toNat (hg : g.Located) (hs : s < 2 ^ 17) :
    (g.fatStart + g.fatSz16.toUInt32 + .ofNat s).toNat =
      g.fatStart.toNat + g.fatSz16.toNat + s := by
  have hfat := hg.fatStart_lt
  have hsize := g.fatSz16.toNat_lt
  have hsum : (g.fatStart + g.fatSz16.toUInt32).toNat = g.fatStart.toNat + g.fatSz16.toNat := by
    rw [UInt32.toNat_add, UInt16.toNat_toUInt32, Nat.mod_eq_of_lt (by omega)]
  rw [toNat_add_ofNat (by omega), hsum]

/-- The sectors of the root directory are consecutive. -/
theorem root_toNat (hg : g.Located) (hs : s < 2 ^ 17) :
    (g.rootStart + .ofNat s).toNat = g.rootStart.toNat + s := by
  have hroot := hg.rootStart_lt
  exact toNat_add_ofNat (by omega)

/-- The first sector of a cluster does not wrap, though `c - 2` does for clusters below 2. -/
theorem data_toNat (hg : g.Located) (c : UInt16) :
    (g.clusterToSector c).toNat = g.dataStart.toNat + (c - 2).toNat * g.secPerClust.toNat := by
  have hdata := hg.dataStart_lt
  have hmul : (c - 2).toNat * g.secPerClust.toNat < 2 ^ 24 :=
    (Nat.mul_lt_mul'' (c - 2).toNat_lt g.secPerClust.toNat_lt).trans_eq (by decide)
  rw [clusterToSector, UInt32.toNat_add, UInt32.toNat_mul, UInt16.toNat_toUInt32,
    UInt8.toNat_toUInt32, Nat.mod_eq_of_lt (show _ < 2 ^ 32 by omega), Nat.mod_eq_of_lt (by omega)]

/-- The sector of the directory that holds a slot. -/
theorem slot_toNat (hg : g.Located) {k : ℕ} (hk : k < g.slots) :
    (g.rootStart + .ofNat (k / 16)).toNat = g.rootStart.toNat + k / 16 ∧
      k / 16 < g.rootSectors.toNat := by
  rw [Geometry.slots] at hk
  have hle := hg.rootSectors_le
  have hlt : k / 16 < g.rootSectors.toNat := by omega
  exact ⟨hg.root_toNat (by omega), hlt⟩

/-- The sector of the FAT that holds an entry. -/
theorem entry_toNat (hg : g.Located) {c : ℕ} (hc : c < g.fatEntries) :
    (g.fatStart + .ofNat (c / 256)).toNat = g.fatStart.toNat + c / 256 ∧
      c / 256 < g.fatSz16.toNat := by
  rw [Geometry.fatEntries] at hc
  have hsize := g.fatSz16.toNat_lt
  have hlt : c / 256 < g.fatSz16.toNat := by omega
  exact ⟨hg.fat_toNat (by omega), hlt⟩

/-- For the clusters from 2 on it does not. -/
theorem toNat_sub_two {c : UInt16} (hc : 2 ≤ c.toNat) : (c - 2).toNat = c.toNat - 2 :=
  UInt16.toNat_sub_of_le c 2 (UInt16.le_iff_toNat_le.mpr hc)

/-- Clusters have sectors of their own. -/
theorem clusterToSector_inj (hg : g.Located) (hspc : g.secPerClust ≠ 0) {c c' : UInt16}
    (h : g.clusterToSector c = g.clusterToSector c') : c = c' := by
  have hnat := congrArg UInt32.toNat h
  rw [hg.data_toNat, hg.data_toNat, Nat.add_left_cancel_iff,
    Nat.mul_right_cancel_iff (Geometry.secPerClust_pos hspc)] at hnat
  have hc := c.toNat_lt
  have hc' := c'.toNat_lt
  rw [UInt16.toNat_sub, UInt16.toNat_sub] at hnat
  apply UInt16.toNat_inj.mp
  omega

end Geometry.Located

/-! ## Directory entries -/

/-- The entry that a new file leaves in the place of `e`. -/
def newEntry (e : DirEntry) (n : FileName) (c : UInt16) (dataLen : UInt32) : DirEntry :=
  e.blit 0 n.name |>.blit 8 n.ext |>.put 11 0x00 |>.blit 12 (fun _ : Fin 14 => 0x00)
    |>.put16 26 c |>.put32 28 dataLen

section Entries

variable {buf : Sector} {i j : ℕ} {n : FileName} {c : UInt16} {dataLen : UInt32} {e : DirEntry}

/-- `putEntry` writes a new entry. -/
theorem entry_putEntry_self (hi : i < 16) :
    entry (putEntry buf i n c dataLen) i = newEntry (entry buf i) n c dataLen := by
  have hk : i * 32 + 32 ≤ 512 := by omega
  rw [entry, entry, putEntry, newEntry, Block.slice_put32 _ _ hk rfl (by decide),
    Block.slice_put16 _ _ hk rfl (by decide), Block.slice_blit _ _ hk rfl (by decide),
    Block.slice_put _ _ hk rfl (by decide), Block.slice_blit _ _ hk rfl (by decide),
    Block.slice_blit _ _ hk (Nat.add_zero _).symm (by decide)]

/-- The other entries of the sector stay as they are. -/
theorem entry_putEntry_of_ne (hi : i < 16) (hne : j ≠ i) :
    entry (putEntry buf i n c dataLen) j = entry buf j := by
  rw [entry, entry, putEntry, Block.slice_put32_of_disjoint _ _ (by omega) (by omega),
    Block.slice_put16_of_disjoint _ _ (by omega) (by omega),
    Block.slice_blit_of_disjoint _ _ (by omega) (by omega),
    Block.slice_put_of_disjoint _ _ (by omega) (by omega),
    Block.slice_blit_of_disjoint _ _ (by omega) (by omega),
    Block.slice_blit_of_disjoint _ _ (by omega) (by omega)]

/-- The entry of a file, field by field. -/
structure IsFile (e : DirEntry) (n : FileName) (c : UInt16) (dataLen : UInt32) : Prop where
  name : HasName n e
  attr : e.get 11 = 0
  cluster : cluster e = c
  size : size e = dataLen

/-- A new entry has the name, the cluster and the size that it was given. -/
theorem isFile_newEntry : IsFile (newEntry e n c dataLen) n c dataLen where
  name := by
    -- the name and the extension stay as the later fields are written
    have hkeep : ∀ j < 11, (newEntry e n c dataLen).get j =
        ((e.blit 0 n.name).blit 8 n.ext).get j := by
      intro j hj
      rw [newEntry, Block.get_put32_of_lt (by decide) _ _ (by omega),
        Block.get_put16_of_ne (by decide) _ _ (by omega) (by omega), Block.get_blit (by decide),
        dif_neg (by omega), Block.get_put (by decide), if_neg (by omega)]
    constructor
    · intro j
      rw [hkeep j (by omega), Block.get_blit (by decide), dif_neg (by omega),
        Block.get_blit (by decide), dif_pos (by omega)]
      rfl
    · intro j
      rw [hkeep _ (by omega), Block.get_blit (by decide), dif_pos (by omega)]
      congr 1
      exact Fin.ext (Nat.add_sub_cancel_left 8 j)
  attr := by
    rw [newEntry, Block.get_put32_of_lt (by decide) _ _ (by decide),
      Block.get_put16_of_ne (by decide) _ _ (by decide) (by decide), Block.get_blit (by decide),
      dif_neg (by decide), Block.get_put (by decide), if_pos rfl]
  cluster := by
    refine (Block.get16_congr ?_).trans (Block.get16_put16_self (i := 26) (by decide)
      (e.blit 0 n.name |>.blit 8 n.ext |>.put 11 0x00 |>.blit 12 fun _ : Fin 14 => 0x00) c)
    intro t ht
    exact Block.get_put32_of_lt (by decide) _ _ (by omega)
  size := Block.get32_put32_self (by decide) _ _

/-- The end marker is the first byte of an entry. -/
theorem isEnd_entry : IsEnd (entry buf i) ↔ buf.get (i * 32) = 0 := by
  rw [IsEnd, entry, Block.get_slice _ _ (show 0 < 32 by decide), Nat.add_zero]

/-- So is the mark of a deleted entry. -/
theorem isDeleted_entry : IsDeleted (entry buf i) ↔ buf.get (i * 32) = 0xE5 := by
  rw [IsDeleted, entry, Block.get_slice _ _ (show 0 < 32 by decide), Nat.add_zero]

/-- A sector of zeros holds end markers. -/
theorem isEnd_entry_zero : IsEnd (entry Block.zero i) := isEnd_entry.mpr (Block.get_zero _)

/-- An entry has one name. -/
theorem HasName.unique {m : FileName} (hn : HasName n e) (hm : HasName m e) : n = m := by
  obtain ⟨name, ext⟩ := n
  obtain ⟨name', ext'⟩ := m
  obtain rfl : name = name' := funext fun j => (hn.1 j).symm.trans (hm.1 j)
  obtain rfl : ext = ext' := funext fun j => (hn.2 j).symm.trans (hm.2 j)
  rfl

/-- The first byte of an entry is the first byte of its name. -/
theorem HasName.get_zero (hn : HasName n e) : e.get 0 = n.name 0 := hn.1 0

end Entries

/-! ## Frames -/

section Frames

variable {g : Geometry} {d : Contents} {c : UInt16} {n : FileName} {data : Sector}
  {dataLen : UInt32} {k : ℕ}

/-- The sector of the FAT and the sector of the copy are written with the same bytes. -/
theorem markUsed_apply (lba : UInt32) : markUsed g d c lba =
    if lba = g.fatStart + .ofNat (c.toNat / 256) ∨
        lba = g.fatStart + g.fatSz16.toUInt32 + .ofNat (c.toNat / 256) then
      (d (g.fatStart + .ofNat (c.toNat / 256))).put16 (c.toNat % 256 * 2) 0xFFFF
    else d lba := by
  simp only [markUsed, Function.update_apply]
  split_ifs with h₁ h₂ h₂ h₃ h₃ <;> tauto

/-- Marking a cluster writes to the room of two FATs. -/
theorem markUsed_changes (hg : g.Located) (hc : c.toNat < g.fatEntries) {lba : UInt32}
    (h : markUsed g d c lba ≠ d lba) :
    g.fatStart.toNat ≤ lba.toNat ∧ lba.toNat < g.fatStart.toNat + 2 * g.fatSz16.toNat := by
  obtain ⟨hfat, hlt⟩ := hg.entry_toNat hc
  have hmirror := hg.mirror_toNat (show c.toNat / 256 < 2 ^ 17 by have := c.toNat_lt; omega)
  rw [markUsed_apply] at h
  split at h
  case isTrue hlba =>
    obtain rfl | rfl := hlba
    · omega
    · omega
  case isFalse => exact absurd rfl h

/-- With two FATs it does not reach the directory or the data. -/
theorem markUsed_of_rootStart_le (hg : g.Located) (hfats : 2 ≤ g.numFATs.toNat)
    (hc : c.toNat < g.fatEntries) {lba : UInt32} (hlba : g.rootStart.toNat ≤ lba.toNat) :
    markUsed g d c lba = d lba := by
  have hroot := hg.fats_le hfats
  by_contra h
  have hrange := markUsed_changes hg hc h
  omega

/-- With two FATs, marking a cluster does not touch the directory. -/
theorem slot_markUsed (hg : g.Located) (hfats : 2 ≤ g.numFATs.toNat) (hc : c.toNat < g.fatEntries)
    (hk : k < g.slots) : slot g (markUsed g d c) k = slot g d k := by
  obtain ⟨hslot, -⟩ := hg.slot_toNat hk
  rw [slot, slot, markUsed_of_rootStart_le hg hfats hc (by omega)]

/-- Marking a cluster changes one entry of the FAT. -/
theorem fatEntry_markUsed (hg : g.Located) (hc : c.toNat < g.fatEntries) {j : ℕ}
    (hj : j < g.fatEntries) :
    fatEntry g (markUsed g d c) j = if j = c.toNat then 0xFFFF else fatEntry g d j := by
  obtain ⟨hfat, hlt⟩ := hg.entry_toNat hc
  obtain ⟨hfatj, hltj⟩ := hg.entry_toNat hj
  have hmirror := hg.mirror_toNat (show c.toNat / 256 < 2 ^ 17 by have := c.toNat_lt; omega)
  rw [fatEntry, markUsed_apply]
  by_cases hsector : j / 256 = c.toNat / 256
  · rw [if_pos (.inl (by rw [hsector]))]
    by_cases hj : j = c.toNat
    · rw [if_pos hj, hj, Block.get16_put16_self (by omega)]
    · rw [if_neg hj, fatEntry, hsector]
      apply Block.get16_congr
      intro t ht
      rw [Block.get_put16_of_ne (by omega) _ _ (by omega) (by omega)]
  · rw [if_neg, if_neg (fun h => hsector (by rw [h])), fatEntry]
    -- neither of the two sectors written is the one of entry `j`
    rintro (h | h)
    · exact mt (congrArg UInt32.toNat) (by omega) h
    · exact mt (congrArg UInt32.toNat) (by omega) h

/-- Zeros in the directory are end markers. -/
theorem isEnd_slot_of_zero (hzero : d (g.rootStart + .ofNat (k / 16)) = Block.zero) :
    IsEnd (slot g d k) := by
  rw [slot, hzero]
  exact isEnd_entry_zero

/-- `place` writes two sectors, the data last. -/
theorem place_apply (lba : UInt32) : place g d k n c data dataLen lba =
    if lba = g.clusterToSector c then padded data dataLen
    else if lba = g.rootStart + .ofNat (k / 16) then
      putEntry (d (g.rootStart + .ofNat (k / 16))) (k % 16) n c dataLen
    else d lba := by
  simp only [place, Function.update_apply]

/-- All other sectors stay as they are. -/
theorem place_changes {lba : UInt32} (h : place g d k n c data dataLen lba ≠ d lba) :
    lba = g.rootStart + .ofNat (k / 16) ∨ lba = g.clusterToSector c := by
  rw [place_apply] at h
  split at h
  case isTrue hdata => exact .inr hdata
  case isFalse =>
    split at h
    case isTrue hroot => exact .inl hroot
    case isFalse => exact absurd rfl h

/-- Every cluster number leads behind the start of the data. -/
theorem dataStart_le (hg : g.Located) (c : UInt16) :
    g.dataStart.toNat ≤ (g.clusterToSector c).toNat := by
  rw [hg.data_toNat]
  exact Nat.le_add_right _ _

/-- Placing a file changes one slot. -/
theorem slot_place (hg : g.Located) (hk : k < g.slots) {j : ℕ} (hj : j < g.slots) :
    slot g (place g d k n c data dataLen) j =
      if j = k then newEntry (slot g d k) n c dataLen else slot g d j := by
  obtain ⟨hslotk, hltk⟩ := hg.slot_toNat hk
  obtain ⟨hslotj, hltj⟩ := hg.slot_toNat hj
  have hdata := dataStart_le hg c
  have hstart := hg.dataStart
  rw [slot, place_apply, if_neg (mt (congrArg UInt32.toNat) (by omega))]
  by_cases hsector : j / 16 = k / 16
  · rw [if_pos (by rw [hsector])]
    by_cases hjk : j = k
    · rw [if_pos hjk, hjk, entry_putEntry_self (by omega), slot]
    · rw [if_neg hjk, entry_putEntry_of_ne (by omega) (by omega), slot, hsector]
  · rw [if_neg (mt (congrArg UInt32.toNat) (by omega)),
      if_neg (fun h => hsector (by rw [h])), slot]

/-- Placing a file does not reach the sectors before the directory. -/
theorem place_of_toNat_lt (hg : g.Located) (hk : k < g.slots) {lba : UInt32}
    (hlba : lba.toNat < g.rootStart.toNat) : place g d k n c data dataLen lba = d lba := by
  obtain ⟨hslot, hlt⟩ := hg.slot_toNat hk
  have hdata := dataStart_le hg c
  have hstart := hg.dataStart
  by_contra h
  obtain rfl | rfl := place_changes h
  · omega
  · omega

/-- Writing the entry and the data does not touch the FAT. -/
theorem fatEntry_place (hg : g.Located) (hfats : 1 ≤ g.numFATs.toNat) (hk : k < g.slots) {j : ℕ}
    (hj : j < g.fatEntries) : fatEntry g (place g d k n c data dataLen) j = fatEntry g d j := by
  obtain ⟨hfat, hlt⟩ := hg.entry_toNat hj
  have hroot := hg.fats_le hfats
  rw [fatEntry, place_of_toNat_lt hg hk (by omega), fatEntry]

/-- Placing a file does not reach another cluster. -/
theorem place_clusterToSector (hg : g.Located) (hspc : g.secPerClust ≠ 0) (hk : k < g.slots)
    {c' : UInt16} (hne : c' ≠ c) :
    place g d k n c data dataLen (g.clusterToSector c') = d (g.clusterToSector c') := by
  obtain ⟨hslot, hlt⟩ := hg.slot_toNat hk
  have hdata := dataStart_le hg c'
  have hstart := hg.dataStart
  by_contra h
  obtain heq | heq := place_changes h
  · have hnat := congrArg UInt32.toNat heq
    omega
  · exact hne (hg.clusterToSector_inj hspc heq)

/-- With two FATs, marking a cluster does not touch the data. -/
theorem markUsed_clusterToSector (hg : g.Located) (hfats : 2 ≤ g.numFATs.toNat)
    (hc : c.toNat < g.fatEntries) (c' : UInt16) :
    markUsed g d c (g.clusterToSector c') = d (g.clusterToSector c') := by
  have hstart := hg.dataStart
  have hdata := dataStart_le hg c'
  exact markUsed_of_rootStart_le hg hfats hc (by omega)

end Frames

end DavOS.Fat16
