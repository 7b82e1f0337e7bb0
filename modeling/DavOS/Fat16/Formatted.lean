import DavOS.Fat16.Layout

/-!
# A formatted volume is a write-once map

After `format` and `init` on a disk that works, whatever the disk held before, the files created so
far are the first slots of the directory in the order of their creation, file `k` in cluster
`k + 2`. `Holds` says so of the contents of the disk; `used` is the first free cluster. The two
counts differ once the directory is full: a refused file has its cluster marked before the directory
is searched, and the cluster stays marked.
-/

namespace DavOS.Fat16

/-! ## The formatted disk -/

/-- The geometry that `init` finds on a formatted disk. -/
def formatGeometry : Geometry := .ofBoot bootSector

/-- The starts of the areas of a formatted volume do not wrap. -/
theorem located_formatGeometry : formatGeometry.Located := Geometry.located_ofBoot _

/-- A formatted volume has two FATs. -/
theorem formatGeometry_numFATs : formatGeometry.numFATs.toNat = 2 := by decide

/-- Each FAT has 160 sectors. -/
theorem formatGeometry_fatSz16 : formatGeometry.fatSz16.toNat = 160 := by decide

/-- No cluster is empty. -/
theorem formatGeometry_secPerClust : formatGeometry.secPerClust ≠ 0 := by decide

/-- The FATs start behind the boot sector. -/
theorem formatGeometry_fatStart : formatGeometry.fatStart.toNat = 1 := by decide

/-- The directory starts behind the two FATs. -/
theorem formatGeometry_rootStart : formatGeometry.rootStart.toNat = 321 := by decide

/-- The directory has 512 slots. -/
theorem formatGeometry_slots : formatGeometry.slots = 512 := by decide

/-- The FAT has 40960 entries. -/
theorem formatGeometry_fatEntries : formatGeometry.fatEntries = 40960 := by decide

/-- On a disk that works, the buffer is written to the sectors of the list and no others. -/
theorem writeSectors_working {start : UInt32} {secs : List ℕ} {v v' : Volume Image} {ok : Bool}
    (h : writeSectors working start secs v = (ok, v')) :
    ok = true ∧ v'.fatBuf = v.fatBuf ∧ ∀ lba, v'.disk.sectors lba =
      if ∃ sec ∈ secs, lba = start + .ofNat sec then v.fatBuf else v.disk.sectors lba := by
  induction secs generalizing v with
  | nil =>
    obtain ⟨rfl, rfl⟩ := Prod.mk.inj h
    exact ⟨rfl, rfl, by simp⟩
  | cons sec rest ih =>
    have hwrite : writeSector working (start + .ofNat sec) v =
      (true, (writeSector working (start + .ofNat sec) v).2) := rfl
    rw [writeSectors, hwrite] at h
    obtain ⟨hok, hbuf, hsectors⟩ := ih h
    refine ⟨hok, hbuf, ?_⟩
    intro lba
    rw [hsectors]
    simp only [writeSector, working, Function.update_apply, List.mem_cons, exists_eq_or_imp]
    by_cases hrest : ∃ sec ∈ rest, lba = start + .ofNat sec
    · rw [if_pos hrest, if_pos (.inr hrest)]
    · rw [if_neg hrest]
      simp only [hrest, or_false]

/-- The sectors that one loop of `format` clears. -/
theorem writeSectors_range {start : UInt32} {n : ℕ} (hstart : start.toNat + n < 2 ^ 32)
    {v v' : Volume Image} {ok : Bool}
    (h : writeSectors working start (List.range n) v = (ok, v')) :
    ok = true ∧ v'.fatBuf = v.fatBuf ∧ ∀ lba, v'.disk.sectors lba =
      if start.toNat ≤ lba.toNat ∧ lba.toNat < start.toNat + n then v.fatBuf
      else v.disk.sectors lba := by
  obtain ⟨hok, hbuf, hsectors⟩ := writeSectors_working h
  refine ⟨hok, hbuf, fun lba => (hsectors lba).trans (if_congr ?_ rfl rfl)⟩
  constructor
  · rintro ⟨sec, hsec, rfl⟩
    have hlt := List.mem_range.mp hsec
    rw [toNat_add_ofNat (by omega)]
    omega
  · rintro ⟨hle, hlt⟩
    refine ⟨lba.toNat - start.toNat, List.mem_range.mpr (by omega), UInt32.toNat_inj.mp ?_⟩
    rw [toNat_add_ofNat (by omega)]
    omega

/-- `format` leaves the boot sector, and zeros in both FATs and the directory. -/
theorem format_working {v v' : Volume Image} {ok : Bool} (h : format working v = (ok, v')) :
    ok = true ∧ v'.disk.sectors 0 = bootSector ∧
      ∀ lba : UInt32, 1 ≤ lba.toNat → lba.toNat < 353 → v'.disk.sectors lba = Block.zero := by
  have hboot : writeSector working 0 { v with fatBuf := bootSector } =
      (true, (writeSector working 0 { v with fatBuf := bootSector }).2) := rfl
  rw [format, hboot] at h
  generalize hv₁ : (writeSector working 0 { v with fatBuf := bootSector }).2 = v₁ at h
  have hzero : v₁.disk.sectors 0 = bootSector := by
    rw [← hv₁]
    simp [writeSector, working]
  rcases hfat : writeSectors working 1 (List.range 160) { v₁ with fatBuf := Block.zero }
    with ⟨ok₂, v₂⟩
  obtain ⟨rfl, hbuf₂, hsectors₂⟩ := writeSectors_range (by decide) hfat
  simp only [hfat] at h
  rcases hmirror : writeSectors working (1 + 160) (List.range 160) v₂ with ⟨ok₃, v₃⟩
  obtain ⟨rfl, hbuf₃, hsectors₃⟩ := writeSectors_range (by decide) hmirror
  simp only [hmirror] at h
  obtain ⟨rfl, -, hsectors₄⟩ := writeSectors_range (by decide) h
  rw [show (1 + 160 * 2 : UInt32).toNat = 321 from rfl] at hsectors₄
  rw [show (1 + 160 : UInt32).toNat = 161 from rfl] at hsectors₃
  rw [show (1 : UInt32).toNat = 1 from rfl] at hsectors₂
  refine ⟨rfl, ?_, ?_⟩
  · rw [hsectors₄, if_neg (by decide), hsectors₃, if_neg (by decide), hsectors₂,
      if_neg (by decide), hzero]
  · intro lba hle hlt
    rw [hsectors₄, hsectors₃, hsectors₂, hbuf₃, hbuf₂]
    -- the three regions follow each other
    split_ifs with h₄ h₃ h₂
    · rfl
    · rfl
    · rfl
    · omega

/-! ## The files on the disk -/

/-- A file that can be created: its name is not taken for a free entry, and its data fits. -/
structure NewFile where
  name : FileName
  data : Sector
  dataLen : UInt32
  visible : name.name 0 ≠ 0x00 ∧ name.name 0 ≠ 0xE5
  fits : dataLen ≤ 512

/-- The clusters below `used` are taken, and no others, in both FATs. -/
structure FatUsed (used : ℕ) (d : Contents) : Prop where
  two_le : 2 ≤ used
  le : used ≤ 40960
  entry : ∀ c, 2 ≤ c → c < 40960 → fatEntry formatGeometry d c = if c < used then 0xFFFF else 0
  mirror : ∀ sec < 160, d (formatGeometry.fatStart + formatGeometry.fatSz16.toUInt32 + .ofNat sec) =
    d (formatGeometry.fatStart + .ofNat sec)

/-- The files are in the first slots and the first clusters. -/
structure Stored (files : List NewFile) (d : Contents) : Prop where
  length_le : files.length ≤ 512
  entry : ∀ k f, files[k]? = some f →
    IsFile (slot formatGeometry d k) f.name (.ofNat (k + 2)) f.dataLen
  data : ∀ k f, files[k]? = some f →
    d (formatGeometry.clusterToSector (.ofNat (k + 2))) = padded f.data f.dataLen
  free : ∀ k, files.length ≤ k → k < 512 → IsEnd (slot formatGeometry d k)

/-- Cluster numbers below 40960 have an entry in the FAT. -/
theorem lt_fatEntries {c : ℕ} (hc : c < 40960) : c < formatGeometry.fatEntries := by
  rw [formatGeometry_fatEntries]
  exact hc

/-- Numbers below 512 are slots of the directory. -/
theorem lt_slots {k : ℕ} (hk : k < 512) : k < formatGeometry.slots := by
  rw [formatGeometry_slots]
  exact hk

/-- A cluster below the number of FAT entries is not changed by the narrowing. -/
theorem toNat_ofNat_cluster {c : ℕ} (hc : c < 40960) : (UInt16.ofNat c).toNat = c := by
  rw [UInt16.toNat_ofNat', Nat.mod_eq_of_lt (by omega)]

/-- The sectors of the FATs are 1 to 160 and 161 to 320. -/
theorem fat_sectors {sec : ℕ} (hsec : sec < 160) :
    (formatGeometry.fatStart + .ofNat sec).toNat = 1 + sec ∧
      (formatGeometry.fatStart + formatGeometry.fatSz16.toUInt32 + .ofNat sec).toNat =
        161 + sec := by
  have hfat := located_formatGeometry.fat_toNat (show sec < 2 ^ 17 by omega)
  have hmirror := located_formatGeometry.mirror_toNat (show sec < 2 ^ 17 by omega)
  rw [formatGeometry_fatStart] at hfat hmirror
  rw [formatGeometry_fatSz16] at hmirror
  exact ⟨hfat, by omega⟩

namespace FatUsed

variable {used : ℕ} {d : Contents}

/-- A FAT of zeros has no cluster in use. -/
theorem of_zero (hzero : ∀ lba : UInt32, 1 ≤ lba.toNat → lba.toNat < 353 → d lba = Block.zero) :
    FatUsed 2 d where
  two_le := le_rfl
  le := by decide
  entry := by
    intro c hc hlt
    obtain ⟨hfat, -⟩ := fat_sectors (show c / 256 < 160 by omega)
    rw [fatEntry, hzero _ (by omega) (by omega), if_neg (by omega), Block.get16, Block.get_zero,
      Block.get_zero]
    rfl
  mirror := by
    intro sec hsec
    obtain ⟨hfat, hmirror⟩ := fat_sectors hsec
    rw [hzero _ (by omega) (by omega), hzero _ (by omega) (by omega)]

/-- The clusters in use are an initial segment, so the first free one is behind it. -/
theorem firstFree_eq (h : FatUsed used d) :
    firstFree formatGeometry d = if used < 40960 then some used else none := by
  split
  case isTrue hlt =>
    rw [firstFree_eq_some]
    refine ⟨lt_fatEntries hlt, h.two_le, ?_, ?_⟩
    · rw [h.entry _ h.two_le hlt, if_neg (by omega)]
    · intro j hj hjlt
      rw [h.entry _ hj (by omega), if_pos hjlt]
      decide
  case isFalse hge =>
    rw [firstFree_eq_none, formatGeometry_fatEntries]
    intro c hc hle
    rw [h.entry _ hle hc, if_pos (by omega)]
    decide

/-- What the search of the driver returns: the same cluster, or 0 if the FAT is full. -/
theorem freeCluster_eq (h : FatUsed used d) :
    freeCluster formatGeometry d = if used < 40960 then .ofNat used else 0 := by
  rw [freeCluster, h.firstFree_eq]
  split <;> rfl

/-- The next cluster is not mistaken for a failed search. -/
theorem ofNat_ne_zero (h : FatUsed used d) (hlt : used < 40960) : UInt16.ofNat used ≠ 0 := by
  intro hzero
  have hnat := congrArg UInt16.toNat hzero
  rw [toNat_ofNat_cluster hlt] at hnat
  have hle := h.two_le
  exact absurd hnat (by rw [show (0 : UInt16).toNat = 0 from rfl]; omega)

/-- No cluster is found exactly if all are taken. -/
theorem freeCluster_eq_zero_iff (h : FatUsed used d) :
    freeCluster formatGeometry d = 0 ↔ ¬used < 40960 := by
  rw [h.freeCluster_eq]
  split
  case isTrue hlt => exact iff_of_false (h.ofNat_ne_zero hlt) (not_not.mpr hlt)
  case isFalse hge => exact iff_of_true rfl hge

/-- A search that succeeds returns the next cluster. -/
theorem freeCluster_eq_of_ne_zero (h : FatUsed used d) (hne : freeCluster formatGeometry d ≠ 0) :
    used < 40960 ∧ freeCluster formatGeometry d = .ofNat used := by
  have hlt := not_not.mp (mt h.freeCluster_eq_zero_iff.mpr hne)
  exact ⟨hlt, by rw [h.freeCluster_eq, if_pos hlt]⟩

/-- Marking the first free cluster, in both FATs. -/
theorem markUsed (h : FatUsed used d) (hused : used < 40960) :
    FatUsed (used + 1) (Fat16.markUsed formatGeometry d (.ofNat used)) where
  two_le := by
    have hle := h.two_le
    omega
  le := hused
  entry := by
    intro c hc hlt
    rw [fatEntry_markUsed located_formatGeometry
      (by rw [toNat_ofNat_cluster hused]; exact lt_fatEntries hused) (lt_fatEntries hlt),
      toNat_ofNat_cluster hused, h.entry c hc hlt]
    by_cases hc : c = used
    · rw [if_pos hc, if_pos (by omega)]
    · rw [if_neg hc]
      exact if_congr (by omega) rfl rfl
  mirror := by
    intro sec hsec
    obtain ⟨hfat, hmirror⟩ := fat_sectors hsec
    obtain ⟨hfat', hmirror'⟩ := fat_sectors (show used / 256 < 160 by omega)
    rw [markUsed_apply, markUsed_apply, toNat_ofNat_cluster hused]
    by_cases hsec : sec = used / 256
    · rw [if_pos (.inr (by rw [hsec])), if_pos (.inl (by rw [hsec]))]
    · -- neither the sector nor its copy is written
      rw [if_neg, if_neg, h.mirror sec ‹_›]
      all_goals
        rintro (heq | heq)
        all_goals
          have hnat := congrArg UInt32.toNat heq
          omega

/-- A file in the directory does not change the FATs. -/
theorem place (h : FatUsed used d) {k : ℕ} (hk : k < 512) (n : FileName) (c : UInt16)
    (data : Sector) (dataLen : UInt32) :
    FatUsed used (Fat16.place formatGeometry d k n c data dataLen) where
  two_le := h.two_le
  le := h.le
  entry := by
    intro j hj hlt
    rw [fatEntry_place located_formatGeometry (by decide) (lt_slots hk) (lt_fatEntries hlt),
      h.entry j hj hlt]
  mirror := by
    intro sec hsec
    obtain ⟨hfat, hmirror⟩ := fat_sectors hsec
    have hroot := formatGeometry_rootStart
    rw [place_of_toNat_lt located_formatGeometry (lt_slots hk) (by omega),
      place_of_toNat_lt located_formatGeometry (lt_slots hk) (by omega), h.mirror sec hsec]

end FatUsed

namespace Stored

variable {files : List NewFile} {d : Contents}

/-- A volume of zeros stores no file. -/
theorem of_zero (hzero : ∀ lba : UInt32, 1 ≤ lba.toNat → lba.toNat < 353 → d lba = Block.zero) :
    Stored [] d where
  length_le := by decide
  entry := by simp
  data := by simp
  free := by
    intro k _ hk
    obtain ⟨hslot, -⟩ := located_formatGeometry.slot_toNat (lt_slots hk)
    rw [formatGeometry_rootStart] at hslot
    exact isEnd_slot_of_zero (hzero _ (by omega) (by omega))

/-- The entry of the file number `k` is in slot `k` and has cluster `k + 2`. -/
theorem getElem_entry (h : Stored files d) {k : ℕ} (hk : k < files.length) :
    IsFile (slot formatGeometry d k) files[k].name (.ofNat (k + 2)) files[k].dataLen :=
  h.entry k _ (List.getElem?_eq_getElem hk)

/-- The slots of the files come first, and an end marker follows them. -/
theorem not_isEnd_iff (h : Stored files d) {k : ℕ} (hk : k < 512) :
    ¬IsEnd (slot formatGeometry d k) ↔ k < files.length := by
  constructor
  · intro hend
    by_contra hle
    exact hend (h.free k (by omega) hk)
  · intro hlt hend
    have hname := (h.getElem_entry hlt).name.get_zero
    exact files[k].visible.1 (hname.symm.trans hend)

/-- The slot of a stored file is not marked as deleted. -/
theorem not_isDeleted (h : Stored files d) {k : ℕ} (hk : k < files.length) :
    ¬IsDeleted (slot formatGeometry d k) := by
  intro hdeleted
  have hname := (h.getElem_entry hk).name.get_zero
  exact files[k].visible.2 (hname.symm.trans hdeleted)

/-- The slot has the name of the file. -/
theorem hasName_iff (h : Stored files d) {k : ℕ} (hk : k < files.length) (n : FileName) :
    HasName n (slot formatGeometry d k) ↔ files[k].name = n := by
  constructor
  · intro hn
    exact (h.getElem_entry hk).name.unique hn
  · rintro rfl
    exact (h.getElem_entry hk).name

/-- The search of `readFile` is a search of the files. -/
theorem lookup_eq (h : Stored files d) (n : FileName) :
    lookup formatGeometry d n = files.findIdx? fun f => f.name = n := by
  apply Option.ext
  intro k
  rw [lookup_eq_some, List.findIdx?_eq_some_iff_getElem, formatGeometry_slots]
  constructor
  · rintro ⟨hk, hend, -, hname, hpass⟩
    have hlt := (h.not_isEnd_iff hk).mp hend
    refine ⟨hlt, by simpa using (h.hasName_iff hlt n).mp hname, ?_⟩
    intro j hj
    obtain hdeleted | hother := (hpass j hj).2
    · exact absurd hdeleted (h.not_isDeleted (by omega))
    · simpa using fun hn => hother ((h.hasName_iff (by omega) n).mpr hn)
  · rintro ⟨hlt, hname, hbefore⟩
    have hle := h.length_le
    refine ⟨by omega, (h.not_isEnd_iff (by omega)).mpr hlt, h.not_isDeleted hlt,
      (h.hasName_iff hlt n).mpr (by simpa using hname), ?_⟩
    intro j hj
    refine ⟨(h.not_isEnd_iff (by omega)).mpr (by omega), .inr fun hn => ?_⟩
    have hne := hbefore j hj
    simp [(h.hasName_iff (show j < files.length by omega) n).mp hn] at hne

/-- The pass for an existing name finds the names of the files. It stops at the end marker of a
sector, and no file is behind one. -/
theorem duplicate_iff (h : Stored files d) (n : FileName) :
    Duplicate formatGeometry d n ↔ ∃ f ∈ files, f.name = n := by
  have hsectors : formatGeometry.rootSectors.toNat = 32 := by decide
  have hle := h.length_le
  simp only [Duplicate, holdsDuplicate_iff, hsectors]
  constructor
  · rintro ⟨sec, hsec, i, hi, ⟨-, -, hname⟩, hend⟩
    have hlive := hend i le_rfl
    rw [← slot_mul_add hi] at hname hlive
    have hlt := (h.not_isEnd_iff (by omega)).mp hlive
    exact ⟨_, List.getElem_mem hlt, (h.hasName_iff hlt n).mp hname⟩
  · rintro ⟨f, hf, hn⟩
    obtain ⟨k, hk, rfl⟩ := List.getElem_of_mem hf
    have hfile := h.getElem_entry hk
    refine ⟨k / 16, by omega, k % 16, by omega, ?_, ?_⟩
    · rw [← slot_mul_add (by omega), show k / 16 * 16 + k % 16 = k by omega]
      exact ⟨h.not_isDeleted hk, by simp [hfile.attr], (h.hasName_iff hk n).mpr hn⟩
    · intro j hj
      rw [← slot_mul_add (by omega)]
      exact (h.not_isEnd_iff (by omega)).mpr (by omega)

/-- Marking a cluster does not change the files. -/
theorem markUsed (h : Stored files d) {c : ℕ} (hc : c < 40960) :
    Stored files (Fat16.markUsed formatGeometry d (.ofNat c)) := by
  have hlt : (UInt16.ofNat c).toNat < formatGeometry.fatEntries := by
    rw [toNat_ofNat_cluster hc]
    exact lt_fatEntries hc
  have hslot : ∀ k < 512, slot formatGeometry (Fat16.markUsed formatGeometry d (.ofNat c)) k =
      slot formatGeometry d k := fun k hk =>
    slot_markUsed located_formatGeometry formatGeometry_numFATs.ge hlt (lt_slots hk)
  have hle := h.length_le
  refine ⟨hle, ?_, ?_, ?_⟩
  · intro k f hf
    obtain ⟨hk, -⟩ := List.getElem?_eq_some_iff.mp hf
    rw [hslot k (by omega)]
    exact h.entry k f hf
  · intro k f hf
    rw [markUsed_clusterToSector located_formatGeometry formatGeometry_numFATs.ge hlt]
    exact h.data k f hf
  · intro k hk hk'
    rw [hslot k hk']
    exact h.free k hk hk'

/-- A file placed in the first free slot and cluster is the next one. -/
theorem place (h : Stored files d) (hlt : files.length < 512) (f : NewFile) :
    Stored (files ++ [f]) (Fat16.place formatGeometry d files.length f.name
      (.ofNat (files.length + 2)) f.data f.dataLen) := by
  have hslot : ∀ k < 512, slot formatGeometry (Fat16.place formatGeometry d files.length f.name
      (.ofNat (files.length + 2)) f.data f.dataLen) k = if k = files.length then
        newEntry (slot formatGeometry d files.length) f.name (.ofNat (files.length + 2)) f.dataLen
      else slot formatGeometry d k := fun k hk =>
    slot_place located_formatGeometry (lt_slots hlt) (lt_slots hk)
  have hlength : (files ++ [f]).length = files.length + 1 := by simp
  refine ⟨by omega, ?_, ?_, ?_⟩
  · intro k f' hf'
    obtain ⟨hk, rfl⟩ := List.getElem?_eq_some_iff.mp hf'
    rw [hslot k (by omega)]
    by_cases hlast : k = files.length
    · subst hlast
      simp only [if_pos, List.getElem_concat_length]
      exact isFile_newEntry
    · rw [if_neg hlast, List.getElem_append_left (by omega)]
      exact h.getElem_entry (by omega)
  · intro k f' hf'
    obtain ⟨hk, rfl⟩ := List.getElem?_eq_some_iff.mp hf'
    by_cases hlast : k = files.length
    · subst hlast
      rw [place_apply, if_pos rfl]
      simp only [List.getElem_concat_length]
    · have hne : UInt16.ofNat (k + 2) ≠ .ofNat (files.length + 2) := by
        intro heq
        have hnat := congrArg UInt16.toNat heq
        rw [toNat_ofNat_cluster (by omega), toNat_ofNat_cluster (by omega)] at hnat
        omega
      rw [place_clusterToSector located_formatGeometry formatGeometry_secPerClust (lt_slots hlt)
        hne, List.getElem_append_left (by omega)]
      exact h.data k _ (List.getElem?_eq_getElem _)
  · intro k hk hk'
    rw [hslot k hk', if_neg (by omega)]
    exact h.free k (by omega) hk'

/-- The files fill an initial segment of the slots, so the next one is free. -/
theorem freeSlot_eq (h : Stored files d) : freeSlot formatGeometry d =
    if files.length < 512 then some files.length else none := by
  have hle := h.length_le
  split
  case isTrue hlt =>
    rw [freeSlot_eq_some]
    refine ⟨lt_slots hlt, .inl (h.free _ le_rfl hlt), ?_⟩
    intro j hj
    exact ⟨(h.not_isEnd_iff (by omega)).mpr hj, h.not_isDeleted hj⟩
  case isFalse hge =>
    rw [freeSlot_eq_none, formatGeometry_slots]
    intro k hk
    exact ⟨(h.not_isEnd_iff hk).mpr (by omega), h.not_isDeleted (by omega)⟩

end Stored

/-! ## Runs -/

/-- A volume, and the files that have been created on it, in order. -/
structure Archive where
  volume : Volume Image
  files : List NewFile

inductive Call where
  | create (f : NewFile)
  | read (n : FileName)

def Archive.step (s : Archive) : Call → Archive
  | .create f =>
    match createFile working f.name f.data f.dataLen s.volume with
    | (.ok (), v) => ⟨v, s.files ++ [f]⟩
    | (.error _, v) => ⟨v, s.files⟩
  | .read n => ⟨(readFile working n s.volume).2, s.files⟩

def Archive.run (s : Archive) (calls : List Call) : Archive := calls.foldl Archive.step s

/-- The volume after `format` and `init`. -/
def Archive.ofFormat (v : Volume Image) : Archive :=
  ⟨(init working (format working v).2).2, []⟩

/-- The disk is mounted and holds the files. Until the directory is full, the clusters that are
taken are those of the files. -/
structure Archive.Holds (s : Archive) (used : ℕ) : Prop where
  geometry : s.volume.geometry = formatGeometry
  initialized : s.volume.initialized = true
  fat : FatUsed used s.volume.disk.sectors
  stored : Stored s.files s.volume.disk.sectors
  nodup : (s.files.map NewFile.name).Nodup
  used_ge : s.files.length + 2 ≤ used
  used_eq : s.files.length < 512 → used = s.files.length + 2

namespace Archive

variable {s : Archive} {used : ℕ}

/-- `format` succeeds, and what it has written can be mounted. -/
theorem init_format (v : Volume Image) : (format working v).1 = true ∧
    (init working (format working v).2).1 = .ok () ∧ (ofFormat v).Holds 2 := by
  rcases hformat : format working v with ⟨ok, v₁⟩
  obtain ⟨rfl, hboot, hzero⟩ := format_working hformat
  have hinit : init working v₁ = (.ok (), v₁.mounted) :=
    init_working (by rw [hboot]; exact bootSector_mountable)
  rw [ofFormat, hformat]
  simp only [hinit]
  have hgeometry : v₁.mounted.geometry = formatGeometry := congrArg Geometry.ofBoot hboot
  exact ⟨trivial, trivial, hgeometry, rfl, .of_zero hzero, .of_zero hzero, List.nodup_nil, le_rfl,
    fun _ => rfl⟩

/-- Calls that only read keep the files. -/
theorem Holds.readOnly (h : s.Holds used) {v : Volume Image} (hv : ReadOnly s.volume v) :
    Holds ⟨v, s.files⟩ used where
  geometry := hv.geometry.trans h.geometry
  initialized := hv.initialized.trans h.initialized
  fat := by
    rw [hv.sectors]
    exact h.fat
  stored := by
    rw [hv.sectors]
    exact h.stored
  nodup := h.nodup
  used_ge := h.used_ge
  used_eq := h.used_eq

/-- A file is created unless its name is taken or the directory is full. -/
theorem Holds.createFile (h : s.Holds used) (f : NewFile) :
    ((createFile working f.name f.data f.dataLen s.volume).1 = .ok () ↔
      f.name ∉ s.files.map NewFile.name ∧ s.files.length < 512) ∧
    ∃ used', (s.step (.create f)).Holds used' := by
  have hcreate := creation h.initialized f.name f.data f.dataLen
  have hstored := h.stored
  have hge := h.used_ge
  have hmem : Duplicate s.volume.geometry s.volume.disk.sectors f.name ↔
      f.name ∈ s.files.map NewFile.name := by
    rw [h.geometry, hstored.duplicate_iff, List.mem_map]
  rw [step]
  generalize Fat16.createFile working f.name f.data f.dataLen s.volume = r at hcreate
  cases hcreate with
  | duplicate hdup hv' =>
    refine ⟨?_, used, h.readOnly hv'⟩
    simp [-List.mem_map, hmem.mp hdup]
  | noCluster hdup hc hv' =>
    refine ⟨?_, used, h.readOnly hv'⟩
    rw [h.geometry, h.fat.freeCluster_eq_zero_iff] at hc
    have hlength : ¬s.files.length < 512 := by
      intro hlt
      have heq := h.used_eq hlt
      omega
    simp [hlength]
  | @directoryFull c v' hdup hc hne hslot hmount hv' =>
    rw [h.geometry] at hc hslot hv'
    subst hc
    obtain ⟨hused, hc⟩ := h.fat.freeCluster_eq_of_ne_zero hne
    rw [hc] at hslot hv'
    have hstored' := hstored.markUsed hused
    have hlength : ¬s.files.length < 512 := by
      intro hlt
      rw [hstored'.freeSlot_eq, if_pos hlt] at hslot
      cases hslot
    refine ⟨by simp [hlength], used + 1, hmount.geometry.trans h.geometry,
      hmount.initialized.trans h.initialized, ?_, ?_, h.nodup, by simp only; omega, ?_⟩
    · rw [hv']
      exact h.fat.markUsed hused
    · rw [hv']
      exact hstored'
    · intro hlt
      exact absurd hlt hlength
  | @created c k v' hdup hc hne hslot hmount hv' hlog hwrites =>
    rw [h.geometry] at hc hslot hv'
    subst hc
    obtain ⟨hused, hc⟩ := h.fat.freeCluster_eq_of_ne_zero hne
    rw [hc] at hslot hv'
    have hstored' := hstored.markUsed hused
    rw [hstored'.freeSlot_eq] at hslot
    have hlength : s.files.length < 512 := by
      by_contra hge
      rw [if_neg hge] at hslot
      cases hslot
    rw [if_pos hlength] at hslot
    obtain rfl := Option.some.inj hslot
    obtain rfl := h.used_eq hlength
    have hnew : f.name ∉ s.files.map NewFile.name := fun hf => hdup (hmem.mpr hf)
    refine ⟨by simp [-List.mem_map, hnew, hlength], s.files.length + 2 + 1,
      hmount.geometry.trans h.geometry, hmount.initialized.trans h.initialized, ?_, ?_, ?_, ?_, ?_⟩
    · rw [hv']
      exact (h.fat.markUsed hused).place hlength _ _ _ _
    · rw [hv']
      exact hstored'.place hlength f
    · rw [List.map_append, List.map_singleton]
      exact List.nodup_append.mpr ⟨h.nodup, List.nodup_singleton _, by
        rintro a ha b hb rfl
        exact hnew (List.mem_singleton.mp hb ▸ ha)⟩
    · simp
    · simp

/-- One call keeps the invariant. -/
theorem Holds.step (h : s.Holds used) (call : Call) : ∃ used', (s.step call).Holds used' := by
  cases call with
  | create f => exact (h.createFile f).2
  | read n => exact ⟨used, h.readOnly (readFile_working h.initialized n).2.1⟩

/-- A run of calls keeps the invariant. -/
theorem Holds.run (h : s.Holds used) (calls : List Call) : ∃ used', (s.run calls).Holds used' := by
  induction calls generalizing s used with
  | nil => exact ⟨used, h⟩
  | cons call calls ih =>
    obtain ⟨used', h'⟩ := h.step call
    exact ih h'

/-- What a file that has been created reads back as. -/
theorem Holds.readFile (h : s.Holds used) (n : FileName) :
    (readFile working n s.volume).1 =
      (s.files.find? fun f => f.name = n).map fun f => (f.dataLen, padded f.data f.dataLen) := by
  rw [(readFile_working h.initialized n).1, h.geometry, h.stored.lookup_eq]
  cases hfind : s.files.findIdx? fun f => f.name = n with
  | none =>
    rw [List.findIdx?_eq_none_iff] at hfind
    rw [List.find?_eq_none.mpr (by simpa using hfind)]
    rfl
  | some k =>
    obtain ⟨hk, hname, hbefore⟩ := List.findIdx?_eq_some_iff_getElem.mp hfind
    have hfind' : (s.files.find? fun f => f.name = n) = some s.files[k] := by
      rw [List.find?_eq_some_iff_getElem]
      exact ⟨hname, k, hk, rfl, fun j hj => by simpa using hbefore j hj⟩
    have hentry := h.stored.getElem_entry hk
    rw [hfind', Option.map_some, Option.map_some, hentry.size, hentry.cluster,
      h.stored.data k _ (List.getElem?_eq_getElem hk)]

/-- The cluster in the directory entry of a name. -/
def clusterOf (s : Archive) (n : FileName) : Option UInt16 :=
  (lookup s.volume.geometry s.volume.disk.sectors n).map fun k =>
    cluster (slot s.volume.geometry s.volume.disk.sectors k)

/-- The cluster of a file is given by its place in the list. -/
theorem Holds.clusterOf_eq (h : s.Holds used) (n : FileName) :
    s.clusterOf n = (s.files.findIdx? fun f => f.name = n).map fun k => .ofNat (k + 2) := by
  rw [clusterOf, h.geometry, h.stored.lookup_eq]
  apply Option.map_congr
  intro k hk
  obtain ⟨hlt, -, -⟩ := List.findIdx?_eq_some_iff_getElem.mp hk
  exact (h.stored.getElem_entry hlt).cluster

/-- A file is found in the slot that it was created in. -/
theorem Holds.clusterOf_getElem (h : s.Holds used) {k : ℕ} (hk : k < s.files.length) :
    s.clusterOf s.files[k].name = some (.ofNat (k + 2)) := by
  have hfind : (s.files.findIdx? fun f => f.name = s.files[k].name) = some k := by
    rw [List.findIdx?_eq_some_iff_getElem]
    refine ⟨hk, by simp, ?_⟩
    intro j hj
    have hne : s.files[j].name ≠ s.files[k].name := by
      intro heq
      have hsame := List.inj_on_of_nodup_map h.nodup (List.getElem_mem _) (List.getElem_mem _) heq
      exact absurd ((List.Nodup.of_map _ h.nodup).getElem_inj_iff.mp hsame) (by omega)
    simpa using hne
  rw [h.clusterOf_eq, hfind]
  rfl

/-- What the calls make of a volume, over the files created on it. -/
structure IsMap (s : Archive) : Prop where
  /-- A name can be created once, and 512 files fit. -/
  create : ∀ f : NewFile, (Fat16.createFile working f.name f.data f.dataLen s.volume).1 = .ok () ↔
    f.name ∉ s.files.map NewFile.name ∧ s.files.length < 512
  /-- The files created, and no others, are read, up to their length. -/
  read : ∀ n, (Fat16.readFile working n s.volume).1 =
    (s.files.find? fun f => f.name = n).map fun f => (f.dataLen, padded f.data f.dataLen)
  /-- The FATs are equal. -/
  mirror : ∀ sec < s.volume.geometry.fatSz16.toNat,
    s.volume.disk.sectors
        (s.volume.geometry.fatStart + s.volume.geometry.fatSz16.toUInt32 + .ofNat sec) =
      s.volume.disk.sectors (s.volume.geometry.fatStart + .ofNat sec)
  /-- The cluster of a file is the end of a chain. -/
  marked : ∀ f ∈ s.files, ∃ c, s.clusterOf f.name = some c ∧
    fatEntry s.volume.geometry s.volume.disk.sectors c.toNat = 0xFFFF
  /-- Different files have different clusters. -/
  apart : ∀ f ∈ s.files, ∀ f' ∈ s.files, s.clusterOf f.name = s.clusterOf f'.name → f = f'

/-- The volume is the map from names to contents that the list of files says. -/
theorem Holds.isMap (h : s.Holds used) : s.IsMap where
  create f := (h.createFile f).1
  read n := h.readFile n
  mirror := by
    rw [h.geometry, formatGeometry_fatSz16]
    exact h.fat.mirror
  marked := by
    intro f hf
    obtain ⟨k, hk, rfl⟩ := List.getElem_of_mem hf
    have hle := h.stored.length_le
    have hge := h.used_ge
    refine ⟨_, h.clusterOf_getElem hk, ?_⟩
    rw [h.geometry, toNat_ofNat_cluster (by omega), h.fat.entry _ (by omega) (by omega),
      if_pos (by omega)]
  apart := by
    intro f hf f' hf' hsame
    obtain ⟨k, hk, rfl⟩ := List.getElem_of_mem hf
    obtain ⟨k', hk', rfl⟩ := List.getElem_of_mem hf'
    have hle := h.stored.length_le
    rw [h.clusterOf_getElem hk, h.clusterOf_getElem hk'] at hsame
    have hnat := congrArg UInt16.toNat (Option.some.inj hsame)
    rw [toNat_ofNat_cluster (by omega), toNat_ofNat_cluster (by omega)] at hnat
    obtain rfl : k = k' := by omega
    rfl

/-- **A formatted volume is a write-once map.** Whatever the disk held, `format` and `init` succeed,
and after any calls a file is created exactly if no file has its name and there are fewer than 512,
`readFile` finds the files that were created with their length and their data, the FATs are equal,
and the files have clusters of their own, each marked as the end of a chain. -/
theorem formatted_volume_is_map (v : Volume Image) (calls : List Call) :
    (format working v).1 = true ∧ (init working (format working v).2).1 = .ok () ∧
      ((ofFormat v).run calls).IsMap := by
  obtain ⟨hformat, hinit, hholds⟩ := init_format v
  obtain ⟨used, hrun⟩ := hholds.run calls
  exact ⟨hformat, hinit, hrun.isMap⟩

end Archive

end DavOS.Fat16
