import DavOS.Fat16.Formatted
import DavOS.Fat16.Frame

/-!
# The three passes over the directory

Reference: `ListDir`, `CreateFile` and `ReadFile` of `fs/fat16/fat16.go`.

Each of them has its own way with the end marker and with volume labels. `listDir` stops at the
first end marker and passes over labels. `readFile` stops at the first end marker too, but takes a
label for a file. The pass for an existing name in `createFile` passes over labels, but its `break`
only ends the sector, and the sectors behind the end marker are looked at as well.
-/

namespace DavOS.Fat16

/-! ## `ListDir` -/

/-- `rune(c)` -/
def rune (c : UInt8) : Char := Char.ofNat c.toNat

/-- The text of `printU32`. -/
def printU32 (v : UInt32) : String :=
  "0x" ++ String.ofList ((List.range 8).map fun i =>
    "0123456789ABCDEF".toList.getD (v >>> .ofNat (28 - 4 * i) &&& 0xF).toNat ' ')

/-- The bytes of an entry from `i` on that are not spaces. -/
def runes (e : DirEntry) (i count : ℕ) : String :=
  String.ofList (((List.range' i count).map e.get).filter (· ≠ 0x20) |>.map rune)

/-- The line that `listDir` prints for an entry. -/
def entryLine (e : DirEntry) : String :=
  "  " ++ runes e 0 8 ++ (if e.get 8 ≠ 0x20 then "." ++ runes e 8 3 else "") ++ "  " ++
    printU32 (size e) ++ " bytes\n"

/-- The entries of a sector that `listDir` prints. -/
def listedIn (buf : Sector) : List DirEntry :=
  ((entries buf).takeWhile fun e => ¬IsEnd e).filter fun e => ¬IsDeleted e ∧ ¬IsLabel e

def hasEnd (buf : Sector) : Bool := (entries buf).any fun e => IsEnd e

section

variable {σ : Type} (D : Disk σ)

/-- The loops of `listDir`: the entries printed, and whether a read failed. -/
def listSectors (start : UInt32) : List ℕ → Volume σ → (List DirEntry × Bool) × Volume σ
  | [], v => (([], false), v)
  | sec :: rest, v =>
    match readSector D (start + .ofNat sec) v with
    | (false, v) => (([], true), v)
    | (true, v) =>
      if hasEnd v.fatBuf then ((listedIn v.fatBuf, false), v)
      else
        let ((more, failed), v') := listSectors start rest v
        ((listedIn v.fatBuf ++ more, failed), v')

/-- The entries that `listDir` prints. -/
def listedEntries (v : Volume σ) : (List DirEntry × Bool) × Volume σ :=
  listSectors D v.geometry.rootStart (List.range v.geometry.rootSectors.toNat) v

/-- ListDir lists files in the root directory: the text printed. -/
def listDir (v : Volume σ) : String × Volume σ :=
  if v.initialized = false then ("FAT16: Not initialized\n", v)
  else
    let ((listed, failed), v) := listedEntries D v
    ("Root Directory:\n" ++ String.join (listed.map entryLine) ++
      (if failed then "FAT16: Read error\n" else ""), v)

end

/-! ## What the passes see -/

variable {g : Geometry} {d : Contents} {n : FileName} {v v' : Volume Image}

/-- An entry behind the end marker that no end marker of its own sector hides. -/
structure Stray (g : Geometry) (d : Contents) (k : ℕ) : Prop where
  lt : k < g.slots
  ended : ∃ j < k, IsEnd (slot g d j)
  not_end : ∀ j ≤ k, k / 16 ≤ j / 16 → ¬IsEnd (slot g d j)
  not_deleted : ¬IsDeleted (slot g d k)

/-- A file of that name: an entry that is not a label. -/
def Names (g : Geometry) (d : Contents) (n : FileName) (k : ℕ) : Prop :=
  ¬IsLabel (slot g d k) ∧ HasName n (slot g d k)

/-- Within a sector `listDir` and `createFile` see the same entries. -/
theorem any_listedIn (n : FileName) (buf : Sector) :
    ((listedIn buf).any fun e => HasName n e) = holdsDuplicate n buf := by
  rw [listedIn, List.any_filter, holdsDuplicate]
  congr 1
  funext e
  simp [Bool.and_assoc]

/-- The listing goes on if the sector has no end marker. -/
theorem hasEnd_eq_false_iff {buf : Sector} :
    hasEnd buf = false ↔ ∀ i < 16, ¬IsEnd (entry buf i) := by
  simp [hasEnd, entries]

/-- The first index of a run is reached, and the others if it lets through. -/
theorem exists_reached_succ {p q : ℕ → Prop} {s m : ℕ} :
    (∃ i, s ≤ i ∧ i < s + (m + 1) ∧ p i ∧ ∀ j, s ≤ j → j < i → q j) ↔
      p s ∨ q s ∧ ∃ i, s + 1 ≤ i ∧ i < s + 1 + m ∧ p i ∧ ∀ j, s + 1 ≤ j → j < i → q j := by
  constructor
  · rintro ⟨i, hle, hlt, hp, hbefore⟩
    obtain rfl | hlater := Nat.eq_or_lt_of_le hle
    · exact .inl hp
    · exact .inr ⟨hbefore s le_rfl hlater, i, hlater, by omega, hp,
        fun j hj => hbefore j (by omega)⟩
  · rintro (hp | ⟨hq, i, hle, hlt, hp, hbefore⟩)
    · exact ⟨s, le_rfl, by omega, hp, fun j hj hlt => absurd hlt (by omega)⟩
    · refine ⟨i, by omega, by omega, hp, fun j hj hlt => ?_⟩
      obtain rfl | hlater := Nat.eq_or_lt_of_le hj
      · exact hq
      · exact hbefore j hlater hlt

/-- The names that `listDir` prints from a run of sectors: it stops behind the first one with an end
marker. -/
theorem listSectors_working (start : UInt32) (s m : ℕ) (v : Volume Image) :
    ∃ listed v', listSectors working start (List.range' s m) v = ((listed, false), v') ∧
      ReadOnly v v' ∧ ∀ n, listed.any (fun e => HasName n e) = true ↔
        ∃ sec, s ≤ sec ∧ sec < s + m ∧
          holdsDuplicate n (v.disk.sectors (start + .ofNat sec)) = true ∧
          ∀ j, s ≤ j → j < sec → hasEnd (v.disk.sectors (start + .ofNat j)) = false := by
  induction m generalizing s v with
  | zero =>
    refine ⟨[], v, rfl, .refl v, fun n => iff_of_false (by simp) ?_⟩
    rintro ⟨sec, hle, hlt, -⟩
    omega
  | succ m ih =>
    set buf := v.disk.sectors (start + .ofNat s) with hbuf
    set v₁ : Volume Image :=
      { v with
        fatBuf := buf, disk := { v.disk with log := .read (start + .ofNat s) :: v.disk.log } }
    have hread : readSector working (start + .ofNat s) v = (true, v₁) := rfl
    have hv₁ : ReadOnly v v₁ := ⟨⟨rfl, rfl⟩, rfl⟩
    rw [List.range'_succ, listSectors, hread]
    cases hend : hasEnd buf with
    | true =>
      refine ⟨listedIn buf, v₁, if_pos hend, hv₁, fun n => ?_⟩
      rw [any_listedIn, exists_reached_succ, ← hbuf, hend]
      simp
    | false =>
      obtain ⟨more, v', hmore, hv', hiff⟩ := ih (s + 1) v₁
      refine ⟨listedIn buf ++ more, v', ?_, hv₁.trans hv', fun n => ?_⟩
      · simp only [v₁, hend, Bool.false_eq_true, if_false]
        rw [hmore]
      · rw [List.any_append, Bool.or_eq_true, any_listedIn, hiff n, exists_reached_succ, ← hbuf]
        exact or_congr_right (and_iff_right hend).symm

/-! ## The slots -/

/-- A sector of the directory has no end marker if none of its slots is one. -/
theorem hasEnd_sector {sec : ℕ} : hasEnd (d (g.rootStart + .ofNat sec)) = false ↔
    ∀ j, j / 16 = sec → ¬IsEnd (slot g d j) := by
  rw [hasEnd_eq_false_iff]
  constructor
  · rintro h j rfl
    exact h (j % 16) (by omega)
  · intro h i hi
    rw [← slot_mul_add hi]
    exact h _ (by omega)

/-- A sector holds a duplicate if one of its slots, before any end marker, has the name. -/
theorem holdsDuplicate_sector {sec : ℕ} :
    holdsDuplicate n (d (g.rootStart + .ofNat sec)) = true ↔
      ∃ k, k / 16 = sec ∧ ¬IsDeleted (slot g d k) ∧ Names g d n k ∧
        ∀ j ≤ k, j / 16 = sec → ¬IsEnd (slot g d j) := by
  rw [holdsDuplicate_iff]
  constructor
  · rintro ⟨i, hi, ⟨hdeleted, hlabel, hname⟩, hend⟩
    rw [← slot_mul_add hi] at hdeleted hlabel hname
    refine ⟨sec * 16 + i, by omega, hdeleted, ⟨hlabel, hname⟩, ?_⟩
    rintro j hj rfl
    exact hend (j % 16) (by omega)
  · rintro ⟨k, rfl, hdeleted, ⟨hlabel, hname⟩, hend⟩
    refine ⟨k % 16, by omega, ⟨hdeleted, hlabel, hname⟩, ?_⟩
    intro j hj
    rw [← slot_mul_add (by omega)]
    exact hend _ (by omega) (by omega)

/-- `listDir` prints the entries of files. -/
theorem listed_iff (n : FileName) (v : Volume Image) :
    (∃ e ∈ (listedEntries working v).1.1, HasName n e) ↔
      ∃ k, Live v.geometry v.disk.sectors k ∧ Names v.geometry v.disk.sectors n k := by
  obtain ⟨listed, v', hlisted, -, hiff⟩ :=
    listSectors_working v.geometry.rootStart 0 v.geometry.rootSectors.toNat v
  have hany : (∃ e ∈ listed, HasName n e) ↔ listed.any (fun e => HasName n e) = true := by
    simp only [List.any_eq_true, decide_eq_true_eq]
  rw [listedEntries, List.range_eq_range', hlisted, hany, hiff n]
  simp only [holdsDuplicate_sector, hasEnd_sector]
  constructor
  · rintro ⟨_, -, hlt, ⟨k, rfl, hdeleted, hname, hend⟩, hbefore⟩
    refine ⟨k, ⟨by rw [Geometry.slots]; omega, ?_, hdeleted⟩, hname⟩
    intro j hj
    obtain hsame | hearlier := Nat.eq_or_lt_of_le (Nat.div_le_div_right (c := 16) hj)
    · exact hend j hj hsame
    · exact hbefore (j / 16) (Nat.zero_le _) hearlier j rfl
  · rintro ⟨k, hlive, hname⟩
    have hlt := hlive.lt
    rw [Geometry.slots] at hlt
    refine ⟨k / 16, Nat.zero_le _, by omega, ⟨k, rfl, hlive.not_deleted, hname, ?_⟩, ?_⟩
    · intro j hj _
      exact hlive.not_end j hj
    · rintro _ - hsec j rfl
      exact hlive.not_end j (by omega)

/-- `readFile` also finds labels. -/
theorem found_iff (hv : v.initialized = true) (n : FileName) :
    (readFile working n v).1.isSome = true ↔
      ∃ k, Live v.geometry v.disk.sectors k ∧ HasName n (slot v.geometry v.disk.sectors k) := by
  rw [(readFile_working hv n).1, Option.isSome_map, Option.isSome_iff_exists]
  constructor
  · rintro ⟨k, hk⟩
    exact ⟨k, live_of_lookup hk, (lookup_eq_some.mp hk).2.2.2.1⟩
  · intro hexists
    -- the first entry with the name is the one that is found
    classical
    obtain ⟨hlive, hname⟩ := Nat.find_spec hexists
    refine ⟨Nat.find hexists, lookup_eq_some.mpr
      ⟨hlive.lt, hlive.not_end _ le_rfl, hlive.not_deleted, hname, ?_⟩⟩
    intro j hj
    refine ⟨hlive.not_end j hj.le, ?_⟩
    by_contra hneither
    obtain ⟨hdeleted, hname'⟩ := not_or.mp hneither
    exact Nat.find_min hexists hj ⟨⟨hj.trans hlive.lt, fun i hi => hlive.not_end i (by omega),
      hdeleted⟩, not_not.mp hname'⟩

/-- `createFile` also refuses the names of stray entries. -/
theorem duplicate_iff (n : FileName) :
    Duplicate g d n ↔ ∃ k, (Live g d k ∨ Stray g d k) ∧ Names g d n k := by
  simp only [Duplicate, holdsDuplicate_sector]
  constructor
  · rintro ⟨_, hlt, k, rfl, hdeleted, hname, hend⟩
    have hk : k < g.slots := by
      rw [Geometry.slots]
      omega
    refine ⟨k, ?_, hname⟩
    by_cases hended : ∃ j < k, IsEnd (slot g d j)
    · refine .inr ⟨hk, hended, fun j hj hsec => hend j hj ?_, hdeleted⟩
      have hle := Nat.div_le_div_right (c := 16) hj
      omega
    · refine .inl ⟨hk, fun j hj => ?_, hdeleted⟩
      obtain rfl | hearlier := Nat.eq_or_lt_of_le hj
      · exact hend j le_rfl rfl
      · exact fun h => hended ⟨j, hearlier, h⟩
  · rintro ⟨k, hseen, hname⟩
    obtain ⟨hlt, hdeleted, hend⟩ : k < g.slots ∧ ¬IsDeleted (slot g d k) ∧
        ∀ j ≤ k, j / 16 = k / 16 → ¬IsEnd (slot g d j) := by
      obtain hlive | hstray := hseen
      · exact ⟨hlive.lt, hlive.not_deleted, fun j hj _ => hlive.not_end j hj⟩
      · exact ⟨hstray.lt, hstray.not_deleted, fun j hj hsec => hstray.not_end j hj hsec.ge⟩
    rw [Geometry.slots] at hlt
    exact ⟨k / 16, by omega, k, rfl, hdeleted, hname, hend⟩

/-- `createFile` says that the file exists. -/
theorem refused_iff (hv : v.initialized = true) (n : FileName) (data : Sector) (dataLen : UInt32) :
    (createFile working n data dataLen v).1 = .error "FAT16: File already exists\n" ↔
      Duplicate v.geometry v.disk.sectors n := by
  have hcreate := creation hv n data dataLen
  generalize createFile working n data dataLen v = result at hcreate
  cases hcreate with
  | duplicate hdup hv' => exact iff_of_true rfl hdup
  | noCluster hdup hfree hv' => exact iff_of_false (by simp) hdup
  | directoryFull hdup hc hne hslot hmount hv' => exact iff_of_false (by simp) hdup
  | created hdup hc hne hslot hmount hv' hlog hwrites => exact iff_of_false (by simp) hdup

/-- **When the three passes agree** on whether a name exists: there is a file of that name, or
neither a label before the end marker nor a stray entry has it. -/
theorem passes_agree_iff {v₀ : Volume Image} (hinit : init working v₀ = (.ok (), v)) (n : FileName)
    (data : Sector) (dataLen : UInt32) :
    (((∃ e ∈ (listedEntries working v).1.1, HasName n e) ↔
        (readFile working n v).1.isSome = true) ∧
      ((readFile working n v).1.isSome = true ↔
        (createFile working n data dataLen v).1 = .error "FAT16: File already exists\n")) ↔
      (∃ k, Live v.geometry v.disk.sectors k ∧ Names v.geometry v.disk.sectors n k) ∨
        (∀ k, Live v.geometry v.disk.sectors k → IsLabel (slot v.geometry v.disk.sectors k) →
          ¬HasName n (slot v.geometry v.disk.sectors k)) ∧
        ∀ k, Stray v.geometry v.disk.sectors k → ¬Names v.geometry v.disk.sectors n k := by
  have hv := (mounted_of_init hinit).1
  rw [listed_iff, found_iff hv, refused_iff hv, duplicate_iff]
  constructor
  · rintro ⟨hlist, hread⟩
    refine or_iff_not_imp_left.mpr fun hnone => ⟨?_, ?_⟩
    · intro k hlive _ hname
      exact hnone (hlist.mpr ⟨k, hlive, hname⟩)
    · intro k hstray hname
      exact hnone (hlist.mpr (hread.mpr ⟨k, .inr hstray, hname⟩))
  · rintro (⟨k, hlive, hname⟩ | ⟨hlabel, hstray⟩)
    · have hlisted : ∃ k, Live v.geometry v.disk.sectors k ∧ Names v.geometry v.disk.sectors n k :=
        ⟨k, hlive, hname⟩
      have hfound : ∃ k, Live v.geometry v.disk.sectors k ∧
          HasName n (slot v.geometry v.disk.sectors k) := ⟨k, hlive, hname.2⟩
      exact ⟨iff_of_true hlisted hfound, iff_of_true hfound ⟨k, .inl hlive, hname⟩⟩
    · -- what is found is not a label, and what is refused is not stray
      have hnames : ∀ k, Live v.geometry v.disk.sectors k →
          HasName n (slot v.geometry v.disk.sectors k) → Names v.geometry v.disk.sectors n k :=
        fun k hlive hname => ⟨fun h => hlabel k hlive h hname, hname⟩
      refine ⟨⟨?_, ?_⟩, ⟨?_, ?_⟩⟩
      · rintro ⟨k, hlive, hname⟩
        exact ⟨k, hlive, hname.2⟩
      · rintro ⟨k, hlive, hname⟩
        exact ⟨k, hlive, hnames k hlive hname⟩
      · rintro ⟨k, hlive, hname⟩
        exact ⟨k, .inl hlive, hnames k hlive hname⟩
      · rintro ⟨k, hlive | hstray', hname⟩
        · exact ⟨k, hlive, hname.2⟩
        · exact absurd hname (hstray k hstray')

/-! ## Two directories -/

/-- A sector with one entry, of the name `AAAAAAAA.AAA`. -/
def entrySector (attr : UInt8) : Sector := (Block.zero.blit 0 fun _ : Fin 11 => 0x41).put 11 attr

def nameA : FileName := ⟨fun _ => 0x41, fun _ => 0x41⟩

/-- A formatted disk whose directory is empty up to one entry, the first one of sector `sec`. -/
def oneEntryDisk (sec : ℕ) (attr : UInt8) : Contents := fun lba =>
  if lba = 0 then bootSector
  else if lba = formatGeometry.rootStart + .ofNat sec then entrySector attr
  else Block.zero

def oneEntryVolume (sec : ℕ) (attr : UInt8) : Volume Image :=
  ⟨formatGeometry, true, bootSector, ⟨oneEntryDisk sec attr, []⟩⟩

section OneEntry

variable {sec : ℕ} (attr : UInt8)

/-- The volume can be mounted. -/
theorem init_oneEntryVolume (sec : ℕ) (attr : UInt8) :
    init working (oneEntryVolume sec attr) = (.ok (), (oneEntryVolume sec attr).mounted) :=
  init_working bootSector_mountable

/-- Its directory is zero but for one sector. -/
theorem oneEntryDisk_root (hsec : sec < 32) {k : ℕ} (hk : k < 512) :
    oneEntryDisk sec attr (formatGeometry.rootStart + .ofNat (k / 16)) =
      if k / 16 = sec then entrySector attr else Block.zero := by
  obtain ⟨hslot, -⟩ := located_formatGeometry.slot_toNat (lt_slots hk)
  have hentry := located_formatGeometry.root_toNat (show sec < 2 ^ 17 by omega)
  rw [formatGeometry_rootStart] at hslot hentry
  have hboot : formatGeometry.rootStart + .ofNat (k / 16) ≠ 0 :=
    ne_zero_of_toNat_pos (by omega)
  simp only [oneEntryDisk, if_neg hboot]
  refine if_congr ⟨fun h => ?_, fun h => by rw [h]⟩ rfl rfl
  have hnat := congrArg UInt32.toNat h
  omega

/-- The sector of the entry starts with the name and is zero behind the attribute. -/
theorem get_entrySector {j : ℕ} (hj : j ≠ 11) :
    (entrySector attr).get j = if j < 11 then 0x41 else 0 := by
  rw [entrySector, Block.get_put (by decide), if_neg hj, Block.get_blit (by decide), Block.get_zero]
  simp

/-- The entry is in the first slot of its sector. -/
theorem slot_oneEntryDisk (hsec : sec < 32) :
    slot formatGeometry (oneEntryDisk sec attr) (sec * 16) = entry (entrySector attr) 0 := by
  rw [slot, oneEntryDisk_root attr hsec (by omega), if_pos (by omega), Nat.mul_mod_left]

/-- All other slots are end markers. -/
theorem isEnd_oneEntryDisk (hsec : sec < 32) {k : ℕ} (hk : k < 512) (hne : k ≠ sec * 16) :
    IsEnd (slot formatGeometry (oneEntryDisk sec attr) k) := by
  have hroot := oneEntryDisk_root attr hsec hk
  by_cases hsame : k / 16 = sec
  · rw [slot, hroot, if_pos hsame, isEnd_entry, get_entrySector attr (by omega), if_neg (by omega)]
  · rw [if_neg hsame] at hroot
    exact isEnd_slot_of_zero hroot

/-- The name of the entry. -/
theorem hasName_oneEntry : HasName nameA (entry (entrySector attr) 0) := by
  refine ⟨fun j => ?_, fun j => ?_⟩
  · have hj := j.isLt
    rw [entry, Block.get_slice _ _ (by omega), get_entrySector attr (by omega), if_pos (by omega)]
    rfl
  · have hj := j.isLt
    rw [entry, Block.get_slice _ _ (by omega), get_entrySector attr (by omega), if_pos (by omega)]
    rfl

/-- The attribute decides whether it is a label. -/
theorem isLabel_oneEntry : IsLabel (entry (entrySector attr) 0) ↔ attr &&& 0x08 ≠ 0 := by
  rw [IsLabel, entry, Block.get_slice _ _ (by decide), entrySector, Block.get_put (by decide),
    if_pos (by decide)]

/-- The entry is the one slot with its name. -/
theorem hasName_oneEntryDisk_iff (hsec : sec < 32) {k : ℕ} (hk : k < 512) :
    HasName nameA (slot formatGeometry (oneEntryDisk sec attr) k) ↔ k = sec * 16 := by
  constructor
  · intro hname
    by_contra hne
    have hend := isEnd_oneEntryDisk attr hsec hk hne
    rw [IsEnd, hname.get_zero] at hend
    exact absurd hend (by decide)
  · rintro rfl
    rw [slot_oneEntryDisk attr hsec]
    exact hasName_oneEntry attr

/-- The entry itself is neither an end marker nor deleted. -/
theorem visible_oneEntryDisk (sec : ℕ) (hsec : sec < 32) :
    ¬IsEnd (slot formatGeometry (oneEntryDisk sec attr) (sec * 16)) ∧
      ¬IsDeleted (slot formatGeometry (oneEntryDisk sec attr) (sec * 16)) := by
  have hname := (hasName_oneEntryDisk_iff attr hsec (show sec * 16 < 512 by omega)).mpr rfl
  rw [IsEnd, IsDeleted, hname.get_zero]
  decide

/-- In the first sector the entry comes before the end marker. -/
theorem live_oneEntryDisk : Live formatGeometry (oneEntryDisk 0 attr) (0 * 16) := by
  obtain ⟨hend, hdeleted⟩ := visible_oneEntryDisk attr 0 (by decide)
  refine ⟨lt_slots (by decide), fun j hj => ?_, hdeleted⟩
  rwa [Nat.le_zero.mp hj]

end OneEntry

/-- All three see a file at the start of the directory. -/
theorem passes_agree_on_file :
    ∃ v, init working (oneEntryVolume 0 0x00) = (.ok (), v) ∧
      ((∃ e ∈ (listedEntries working v).1.1, HasName nameA e) ↔
        (readFile working nameA v).1.isSome = true) ∧
      ((readFile working nameA v).1.isSome = true ↔
        (createFile working nameA Block.zero 0 v).1 = .error "FAT16: File already exists\n") := by
  refine ⟨_, init_oneEntryVolume 0 0x00, ?_⟩
  refine (passes_agree_iff (init_oneEntryVolume 0 0x00) nameA Block.zero 0).mpr (.inl ?_)
  refine ⟨0 * 16, live_oneEntryDisk 0x00, ?_,
    (hasName_oneEntryDisk_iff 0x00 (by decide) (by decide)).mpr rfl⟩
  change ¬IsLabel (slot formatGeometry (oneEntryDisk 0 0x00) (0 * 16))
  rw [slot_oneEntryDisk _ (by decide), isLabel_oneEntry]
  decide

/-- A volume label is found by `readFile` alone, and a file in the second sector of a directory that
ends in the first one is refused by `createFile` alone. -/
theorem passes_disagree :
    (∃ v, init working (oneEntryVolume 0 0x08) = (.ok (), v) ∧
      (¬∃ e ∈ (listedEntries working v).1.1, HasName nameA e) ∧
      (readFile working nameA v).1.isSome = true ∧
      (createFile working nameA Block.zero 0 v).1 ≠ .error "FAT16: File already exists\n") ∧
    ∃ v, init working (oneEntryVolume 1 0x00) = (.ok (), v) ∧
      (¬∃ e ∈ (listedEntries working v).1.1, HasName nameA e) ∧
      (readFile working nameA v).1.isSome = false ∧
      (createFile working nameA Block.zero 0 v).1 = .error "FAT16: File already exists\n" := by
  have hgeometry : ∀ sec attr, (oneEntryVolume sec attr).mounted.geometry = formatGeometry :=
    fun _ _ => rfl
  have hsectors : ∀ sec attr, (oneEntryVolume sec attr).mounted.disk.sectors =
      oneEntryDisk sec attr := fun _ _ => rfl
  have hlt : ∀ {k}, k < formatGeometry.slots → k < 512 := fun h => by
    rwa [formatGeometry_slots] at h
  refine ⟨⟨_, init_oneEntryVolume 0 0x08, ?_, ?_, ?_⟩, _, init_oneEntryVolume 1 0x00, ?_, ?_, ?_⟩
  · rw [listed_iff, hgeometry, hsectors]
    rintro ⟨k, hlive, hlabel, hname⟩
    obtain rfl := (hasName_oneEntryDisk_iff _ (by decide) (hlt hlive.lt)).mp hname
    rw [slot_oneEntryDisk _ (by decide), isLabel_oneEntry] at hlabel
    exact hlabel (by decide)
  · rw [found_iff rfl, hgeometry, hsectors]
    exact ⟨0 * 16, live_oneEntryDisk 0x08,
      (hasName_oneEntryDisk_iff _ (by decide) (by decide)).mpr rfl⟩
  · rw [ne_eq, refused_iff rfl, duplicate_iff, hgeometry, hsectors]
    rintro ⟨k, hseen, hlabel, hname⟩
    have hk : k < formatGeometry.slots := hseen.elim Live.lt Stray.lt
    obtain rfl := (hasName_oneEntryDisk_iff _ (by decide) (hlt hk)).mp hname
    rw [slot_oneEntryDisk _ (by decide), isLabel_oneEntry] at hlabel
    exact hlabel (by decide)
  · rw [listed_iff, hgeometry, hsectors]
    rintro ⟨k, hlive, hlabel, hname⟩
    obtain rfl := (hasName_oneEntryDisk_iff _ (by decide) (hlt hlive.lt)).mp hname
    exact hlive.not_end 0 (by decide) (isEnd_oneEntryDisk _ (by decide) (by decide) (by decide))
  · rw [← Bool.not_eq_true, found_iff rfl, hgeometry, hsectors]
    rintro ⟨k, hlive, hname⟩
    obtain rfl := (hasName_oneEntryDisk_iff _ (by decide) (hlt hlive.lt)).mp hname
    exact hlive.not_end 0 (by decide) (isEnd_oneEntryDisk _ (by decide) (by decide) (by decide))
  · rw [refused_iff rfl, duplicate_iff, hgeometry, hsectors]
    obtain ⟨hend, hdeleted⟩ := visible_oneEntryDisk 0x00 1 (by decide)
    refine ⟨1 * 16, .inr ⟨lt_slots (by decide), ⟨0, by decide, isEnd_oneEntryDisk _ (by decide)
      (by decide) (by decide)⟩, fun j hj hsec => ?_, hdeleted⟩, ?_,
      (hasName_oneEntryDisk_iff _ (by decide) (by decide)).mpr rfl⟩
    · obtain rfl : j = 1 * 16 := by omega
      exact hend
    · rw [slot_oneEntryDisk _ (by decide), isLabel_oneEntry]
      decide

end DavOS.Fat16
