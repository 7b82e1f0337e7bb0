import DavOS.Fat16.Volume

/-!
# Which boot sector a volume is mounted from

`initialized` is meant to say that the geometry of the package is the one of the boot sector. Two
exits leave it set when that is no longer so: `init` on a boot sector with the signature and another
sector size has assigned the fields by then, and a `format` that succeeds replaces the boot sector
of a volume that stays mounted with the old geometry. A caller who formats only what is not mounted,
and whose disk shows a mounted package no boot sector of the first kind, keeps the two together.
-/

namespace DavOS.Fat16

variable {σ : Type} {D : Disk σ} {v : Volume σ}

/-- The geometry of a boot sector. -/
def Geometry.ofBoot (b : Sector) : Geometry :=
  Geometry.locate
    { bytesPerSec := b.get16 11
      secPerClust := b.get 13
      reservedSec := b.get16 14
      numFATs := b.get 16
      rootEntCnt := b.get16 17
      totSec16 := b.get16 19
      fatSz16 := b.get16 22
      fatStart := 0
      rootStart := 0
      dataStart := 0
      rootSectors := 0 }

/-- The boot sectors that `init` mounts. -/
abbrev Mountable (b : Sector) : Prop := Signed b ∧ b.get16 11 = 512

/-- The boot sector that `format` writes is accepted. -/
theorem bootSector_mountable : Mountable bootSector := by decide

/-- The fields and the offsets are all assigned, so nothing of the earlier geometry is left. -/
theorem Geometry.locate_assign (g : Geometry) (b : Sector) : (g.assign b).locate = .ofBoot b := rfl

/-! ## What a call can do -/

/-- The four ends of `init`. -/
inductive Mounting (D : Disk σ) (v : Volume σ) : Except String Unit × Volume σ → Prop
  | unreadable {d : σ} (hread : D.readSector 0 v.disk = (none, d)) :
      Mounting D v (.error "FAT16: Read Error\n", { v with disk := d })
  | unsigned {b : Sector} {d : σ} (hread : D.readSector 0 v.disk = (some b, d))
      (hsigned : ¬Signed b) :
      Mounting D v (.error "FAT16: Invalid Signature. Run 'fat_format' first.\n",
        { v with fatBuf := b, disk := d, initialized := false })
  | sectorSize {b : Sector} {d : σ} (hread : D.readSector 0 v.disk = (some b, d))
      (hsigned : Signed b) (hsize : b.get16 11 ≠ 512) :
      Mounting D v (.error "FAT16 Error: BytesPerSec != 512\n",
        { v with fatBuf := b, disk := d, geometry := v.geometry.assign b })
  | mounted {b : Sector} {d : σ} (hread : D.readSector 0 v.disk = (some b, d))
      (hb : Mountable b) :
      Mounting D v (.ok (),
        { v with fatBuf := b, disk := d, geometry := .ofBoot b, initialized := true })

/-- All ends of `init`. -/
theorem mounting (D : Disk σ) (v : Volume σ) : Mounting D v (init D v) := by
  rcases hread : D.readSector 0 v.disk with ⟨_ | b, d⟩
  · simp only [init, readSector, hread]
    exact .unreadable hread
  · simp only [init, readSector, hread]
    split
    case isTrue hsigned => exact .unsigned hread hsigned
    case isFalse hsigned =>
      rw [Geometry.locate_assign]
      split
      case isTrue hsize => exact .sectorSize hread (not_not.mp hsigned) hsize
      case isFalse hsize => exact .mounted hread ⟨not_not.mp hsigned, not_not.mp hsize⟩

/-- A boot sector that is accepted is mounted. -/
theorem init_of_mountable {b : Sector} {d : σ} (hread : D.readSector 0 v.disk = (some b, d))
    (hb : Mountable b) :
    init D v =
      (.ok (), { v with fatBuf := b, disk := d, geometry := .ofBoot b, initialized := true }) := by
  have hinit := mounting D v
  generalize init D v = r at hinit ⊢
  cases hinit with
  | unreadable hread' => cases hread.symm.trans hread'
  | unsigned hread' hsigned =>
    cases hread.symm.trans hread'
    exact absurd hb.1 hsigned
  | sectorSize hread' hsigned hsize =>
    cases hread.symm.trans hread'
    exact absurd hb.2 hsize
  | mounted hread' _ =>
    cases hread.symm.trans hread'
    rfl

/-- What a mount that succeeds has read and assigned. -/
theorem mounted_of_ok {v' : Volume σ} (h : init D v = (.ok (), v')) :
    ∃ b d, D.readSector 0 v.disk = (some b, d) ∧ Mountable b ∧
      v' = { v with fatBuf := b, disk := d, geometry := .ofBoot b, initialized := true } := by
  have hinit := mounting D v
  rw [h] at hinit
  generalize hr : (Except.ok (), v') = r at hinit
  cases hinit with
  | unreadable hread => cases hr
  | unsigned hread hsigned => cases hr
  | sectorSize hread hsigned hsize => cases hr
  | mounted hread hb =>
    cases hr
    exact ⟨_, _, hread, hb, rfl⟩

/-- The calls that only transfer sectors do not touch the mounted geometry. -/
structure SameMount (v v' : Volume σ) : Prop where
  geometry : v'.geometry = v.geometry
  initialized : v'.initialized = v.initialized

/-- Steps that keep the mount compose. -/
theorem SameMount.trans {v' v'' : Volume σ} (h : SameMount v v') (h' : SameMount v' v'') :
    SameMount v v'' :=
  ⟨h'.geometry.trans h.geometry, h'.initialized.trans h.initialized⟩

/-- The disk is asked to write these sectors, up to the first one that it refuses. -/
def Disk.writeAll (D : Disk σ) : List (UInt32 × Sector) → σ → Bool × σ
  | [], d => (true, d)
  | (lba, b) :: rest, d =>
    match D.writeSector lba b d with
    | (false, d) => (false, d)
    | (true, d) => D.writeAll rest d

/-- Sectors are written in order, up to the first that fails. -/
theorem Disk.writeAll_append (xs ys : List (UInt32 × Sector)) (d : σ) :
    D.writeAll (xs ++ ys) d =
      match D.writeAll xs d with
      | (false, d) => (false, d)
      | (true, d) => D.writeAll ys d := by
  induction xs generalizing d with
  | nil => rfl
  | cons x xs ih =>
    rcases hwrite : D.writeSector x.1 x.2 d with ⟨_ | _, d'⟩
    · simp only [List.cons_append, Disk.writeAll, hwrite]
    · simp only [List.cons_append, Disk.writeAll, hwrite, ih]

/-- If no write fails, all are made. -/
theorem Disk.writeAll_true (hD : ∀ lba b d, (D.writeSector lba b d).1 = true)
    (xs : List (UInt32 × Sector)) (d : σ) : (D.writeAll xs d).1 = true := by
  induction xs generalizing d with
  | nil => rfl
  | cons x xs ih =>
    have hwrite := hD x.1 x.2 d
    rw [Disk.writeAll]
    split
    case h_1 d' heq => rwa [heq] at hwrite
    case h_2 d' heq => exact ih d'

/-- A run of sectors, all with the same bytes. -/
def region (start : UInt32) (secs : List ℕ) (b : Sector) : List (UInt32 × Sector) :=
  secs.map fun sec => (start + .ofNat sec, b)

/-- The writes of `format`: the boot sector, both FATs and the directory. -/
def formatWrites : List (UInt32 × Sector) :=
  (0, bootSector) :: (region 1 (List.range 160) Block.zero ++
    (region (1 + 160) (List.range 160) Block.zero ++
      region (1 + 160 * 2) (List.range 32) Block.zero))

/-- What `writeSectors` does to the disk; the rest of the volume stays. -/
theorem writeSectors_eq (start : UInt32) (secs : List ℕ) (v : Volume σ) :
    writeSectors D start secs v =
      ((D.writeAll (region start secs v.fatBuf) v.disk).1,
        { v with disk := (D.writeAll (region start secs v.fatBuf) v.disk).2 }) := by
  induction secs generalizing v with
  | nil => rfl
  | cons sec rest ih =>
    rcases hwrite : D.writeSector (start + .ofNat sec) v.fatBuf v.disk with ⟨_ | _, d⟩
    · simp only [writeSectors, writeSector, hwrite, region, List.map_cons, Disk.writeAll]
    · simp only [writeSectors, writeSector, hwrite, region, List.map_cons, Disk.writeAll, ih]

/-- `format` succeeds if the disk takes all of its writes, and does not touch the geometry. -/
theorem format_spec (D : Disk σ) (v : Volume σ) :
    (format D v).1 = (D.writeAll formatWrites v.disk).1 ∧
      (format D v).2.disk = (D.writeAll formatWrites v.disk).2 ∧ SameMount v (format D v).2 := by
  rw [format, formatWrites, Disk.writeAll]
  rcases hboot : D.writeSector 0 bootSector v.disk with ⟨_ | _, d₁⟩
  · simp only [writeSector, hboot]
    exact ⟨trivial, trivial, rfl, rfl⟩
  simp only [writeSector, hboot, writeSectors_eq, Disk.writeAll_append]
  rcases hfat : D.writeAll (region 1 (List.range 160) Block.zero) d₁ with ⟨_ | _, d₂⟩
  · exact ⟨rfl, rfl, rfl, rfl⟩
  simp only
  rcases hmirror : D.writeAll (region (1 + 160) (List.range 160) Block.zero) d₂ with ⟨_ | _, d₃⟩
  · exact ⟨rfl, rfl, rfl, rfl⟩
  · exact ⟨rfl, rfl, rfl, rfl⟩

/-! ## Runs -/

/-- A volume with its history: the boot sector that the last `init` to succeed has read, and
whether a `format` has succeeded since. -/
structure Session (σ : Type) where
  volume : Volume σ
  boot : Option Sector
  formatted : Bool

/-- The calls, and whatever else happens to the disk in between. -/
inductive Event (σ : Type) where
  | init
  | format
  | disk (d : σ)

def Session.step (D : Disk σ) (s : Session σ) : Event σ → Session σ
  | .init =>
    match Fat16.init D s.volume with
    | (.ok (), v) => ⟨v, some v.fatBuf, false⟩
    | (.error _, v) => { s with volume := v }
  | .format =>
    match Fat16.format D s.volume with
    | (true, v) => { s with volume := v, formatted := true }
    | (false, v) => { s with volume := v }
  | .disk d => { s with volume.disk := d }

def Session.run (D : Disk σ) (s : Session σ) (events : List (Event σ)) : Session σ :=
  events.foldl (Session.step D) s

/-- A mounted volume has the geometry of the boot sector that the last successful `init` has read,
and no `format` has replaced that sector since. -/
def Session.Coherent (s : Session σ) : Prop :=
  s.volume.initialized = true →
    ∃ b, s.boot = some b ∧ Mountable b ∧ s.volume.geometry = .ofBoot b ∧ s.formatted = false

/-- What is asked of a call: a boot sector with the signature that `init` reads on a mounted volume
has sectors of 512 bytes, and `format` is called only where no volume is mounted. -/
def Session.Permits (D : Disk σ) (s : Session σ) : Event σ → Prop
  | .init => s.volume.initialized = true →
      ∀ b, (D.readSector 0 s.volume.disk).1 = some b → Signed b → b.get16 11 = 512
  | .format => s.volume.initialized = false
  | .disk _ => True

/-- Every event of a run is permitted where it happens. -/
def Session.Permitted (D : Disk σ) : Session σ → List (Event σ) → Prop
  | _, [] => True
  | s, e :: events => s.Permits D e ∧ (s.step D e).Permitted D events

namespace Session

variable {s : Session σ}

theorem run_nil : s.run D [] = s := rfl

theorem run_cons (e : Event σ) (events : List (Event σ)) :
    s.run D (e :: events) = (s.step D e).run D events := rfl

/-- An `init` that reads a boot sector it accepts mounts the volume. -/
theorem initialized_init {b : Sector} {d : σ} (hread : D.readSector 0 s.volume.disk = (some b, d))
    (hb : Mountable b) : (s.step D .init).volume.initialized = true := by
  rw [Session.step, init_of_mountable hread hb]

/-- What `format` does to a session: whether it succeeds is up to the disk, and the geometry and the
flag stay. -/
theorem step_format (D : Disk σ) (s : Session σ) :
    SameMount s.volume (s.step D .format).volume ∧
      (s.step D .format).volume.disk = (D.writeAll formatWrites s.volume.disk).2 ∧
      ((D.writeAll formatWrites s.volume.disk).1 = true → (s.step D .format).formatted = true) := by
  obtain ⟨hok, hdisk, hsame⟩ := format_spec D s.volume
  rw [← hok, ← hdisk, Session.step]
  rcases hformat : Fat16.format D s.volume with ⟨_ | _, v⟩
  · rw [hformat] at hsame
    exact ⟨hsame, rfl, by simp⟩
  · rw [hformat] at hsame
    exact ⟨hsame, rfl, fun _ => rfl⟩

/-- One permitted event keeps the geometry and the boot sector together. -/
theorem Coherent.step (hs : s.Coherent) {e : Event σ} (he : s.Permits D e) :
    (s.step D e).Coherent := by
  cases e with
  | init =>
    have hinit := mounting D s.volume
    rw [Session.step]
    generalize Fat16.init D s.volume = r at hinit ⊢
    cases hinit with
    | unreadable hread => exact hs
    | unsigned hread hsigned =>
      intro h
      cases h
    | sectorSize hread hsigned hsize =>
      -- only a volume that was not mounted gets here
      intro h
      exact absurd (he h _ (by rw [hread]) hsigned) hsize
    | mounted hread hb =>
      intro _
      exact ⟨_, rfl, hb, rfl, rfl⟩
  | format =>
    -- what was not mounted stays so
    intro h
    obtain ⟨hsame, -⟩ := step_format D s
    cases he.symm.trans (hsame.initialized.symm.trans h)
  | disk d => exact hs

/-- A run of permitted calls keeps the mounted volume coherent. -/
theorem Coherent.run {events : List (Event σ)} (hs : s.Coherent) (h : s.Permitted D events) :
    (s.run D events).Coherent := by
  induction events generalizing s with
  | nil => exact hs
  | cons e events ih =>
    rw [run_cons]
    exact ih (hs.step h.1) h.2

/-- **The mounted geometry.** From a volume that is not mounted, over any disk, in every run whose
events are permitted a mounted volume has the geometry of one boot sector that `init` accepts, the
last one that it mounted, and no `format` has succeeded since. -/
theorem mounted_geometry_coherent (D : Disk σ) (s : Session σ) (h : s.volume.initialized = false)
    (events : List (Event σ)) (hevents : s.Permitted D events) : (s.run D events).Coherent :=
  Coherent.run (fun h' => absurd (h.symm.trans h') (by decide)) hevents

/-- A `format` that meets no failure leaves a mounted volume with the old geometry. -/
theorem not_coherent_format (hD : ∀ lba b d, (D.writeSector lba b d).1 = true)
    (h : s.volume.initialized = true) : ¬(s.step D .format).Coherent := by
  obtain ⟨hsame, -, hformatted⟩ := step_format D s
  intro hcoherent
  obtain ⟨b, -, -, -, hclean⟩ := hcoherent (hsame.initialized.trans h)
  cases hclean.symm.trans (hformatted (Disk.writeAll_true hD _ _))

/-! ## Two mounts of one disk -/

/-- A disk of one sector. -/
def oneSector : Disk Sector where
  readSector _ b := (some b, b)
  writeSector lba s b := (true, if lba = 0 then s else b)

/-- The package after boot, with a formatted disk. -/
def fresh : Session Sector where
  volume :=
    { geometry := ⟨0, 0, 0, 0, 0, 0, 0, 0, 0, 0, 0⟩
      initialized := false
      fatBuf := Block.zero
      disk := bootSector }
  boot := none
  formatted := false

/-- A boot sector with sectors of 1024 bytes. -/
def wideBoot : Sector := bootSector.put 12 0x04

/-- A boot sector with larger clusters than the ones of `format`. -/
def clusteredBoot : Sector := bootSector.put 13 0x04

/-- Writes behind the first sector leave it as it is. -/
theorem writeAll_oneSector {writes : List (UInt32 × Sector)} (h : ∀ w ∈ writes, w.1 ≠ 0)
    (d : Sector) : oneSector.writeAll writes d = (true, d) := by
  induction writes with
  | nil => rfl
  | cons w rest ih =>
    have hwrite : oneSector.writeSector w.1 w.2 d = (true, d) :=
      congrArg (Prod.mk true) (if_neg (h w (List.mem_cons_self ..)))
    rw [Disk.writeAll, hwrite]
    exact ih fun w hw => h w (List.mem_cons_of_mem _ hw)

/-- After a `format` the disk reads as the boot sector that it has written. -/
theorem readSector_format (s : Session Sector) :
    oneSector.readSector 0 (s.step oneSector .format).volume.disk =
      (some bootSector, bootSector) := by
  have hbehind : ∀ start < 400, ∀ n < 200, (UInt32.ofNat (1 + start) + .ofNat n) ≠ 0 := by
    intro start hstart n hn
    apply ne_of_apply_ne UInt32.toNat
    rw [UInt32.toNat_add, UInt32.toNat_ofNat', UInt32.toNat_ofNat', UInt32.toNat_zero]
    omega
  have hdisk : oneSector.writeAll formatWrites s.volume.disk = (true, bootSector) := by
    have hboot : oneSector.writeSector 0 bootSector s.volume.disk = (true, bootSector) := rfl
    simp only [formatWrites, Disk.writeAll, hboot]
    refine writeAll_oneSector ?_ bootSector
    simp only [region, List.mem_append, List.mem_map, List.mem_range]
    rintro w (⟨n, hn, rfl⟩ | ⟨n, hn, rfl⟩ | ⟨n, hn, rfl⟩)
    · exact hbehind 0 (by decide) n (by omega)
    · exact hbehind 160 (by decide) n (by omega)
    · exact hbehind 320 (by decide) n (by omega)
  rw [(step_format oneSector s).2.1, hdisk]
  rfl

/-- A disk that is replaced by an empty one and then formatted is mounted again: the second `init`
fails for want of a signature, and only then is there a `format`. -/
theorem formatted_disk_mounts :
    (fresh.run oneSector [.init, .disk Block.zero, .init, .format, .init]).Coherent ∧
      (fresh.run oneSector [.init, .disk Block.zero, .init, .format, .init]).volume.initialized =
        true := by
  have hunmounted : (fresh.run oneSector [.init, .disk Block.zero, .init]).volume.initialized =
      false := by decide
  refine ⟨mounted_geometry_coherent oneSector fresh rfl _
    ⟨?_, trivial, ?_, hunmounted, ?_, trivial⟩, ?_⟩
  · intro h
    cases h
  · intro _ b hb hsigned
    obtain rfl : Block.zero = b := Option.some.inj hb
    exact absurd hsigned (by decide)
  · intro _ b hb _
    rw [readSector_format] at hb
    obtain rfl : bootSector = b := Option.some.inj hb
    exact bootSector_mountable.2
  · rw [run_cons, run_cons, run_cons, run_cons, run_cons, run_nil]
    exact initialized_init (readSector_format _) bootSector_mountable

/-- The two ways out of step: a second `init` that fails at the sector size, and a `format` of a
mounted volume with another layout, whose geometry is not the one that `format` has written. -/
theorem remount_mixes_geometry :
    ¬(fresh.run oneSector [.init, .disk wideBoot, .init]).Coherent ∧
      ¬(fresh.run oneSector [.disk clusteredBoot, .init, .format]).Coherent ∧
      (fresh.run oneSector [.disk clusteredBoot, .init, .format]).volume.geometry ≠
        .ofBoot bootSector := by
  have hwrites : ∀ lba b d, (oneSector.writeSector lba b d).1 = true := fun _ _ _ => rfl
  have hmounted : (fresh.run oneSector [.disk clusteredBoot, .init]).volume.initialized = true := by
    decide
  rw [run_cons, run_cons, run_cons, run_cons, run_cons, run_cons, run_nil, run_nil]
  refine ⟨?_, not_coherent_format hwrites hmounted, ?_⟩
  · intro h
    obtain ⟨b, -, hb, hgeometry, -⟩ := h (by decide)
    have hsize := congrArg Geometry.bytesPerSec hgeometry
    exact absurd (hsize.trans hb.2) (by decide)
  · intro h
    have hold : (fresh.run oneSector [.disk clusteredBoot, .init]).volume.geometry.secPerClust ≠
        (Geometry.ofBoot bootSector).secPerClust := by decide
    rw [run_cons, run_cons, run_nil, ← (step_format oneSector _).1.geometry] at hold
    exact hold (congrArg Geometry.secPerClust h)

end Session

end DavOS.Fat16
