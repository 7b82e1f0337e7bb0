import DavOS.Ata.Drive
import DavOS.Fat16.Listing

/-!
# The sector numbers of the FAT16 driver

Reference: `fs/fat16/fat16.go`, and `LBA28ToRegs` in `drivers/ata/ata.go`.

The driver computes sector numbers in `uint32` from fields of the boot sector that `init` does not
check. `Computes` lists the expressions of the source, each with the value of the same expression
over the integers; none of them wraps, and all fit into the 28 bits of the registers
(`Computes.exact`). That the driver uses no other number is shown for an arbitrary disk
(`Disk.Reaches`), so it holds for one that keeps the numbers and for a drive behind the ATA driver.
-/

namespace DavOS.Fat16

/-! ## The expressions -/

namespace Geometry

variable (g : Geometry)

/-- The first sector of the root directory, over the integers. -/
def rootBase : ℕ := g.reservedSec.toNat + g.numFATs.toNat * g.fatSz16.toNat

/-- The number of sectors of the root directory, over the integers. -/
def rootLength : ℕ := (g.rootEntCnt.toNat * 32 + 511) / 512

/-- The first sector of the data, over the integers. -/
def dataBase : ℕ := g.rootBase + g.rootLength

end Geometry

/-- A sector number as the source computes it, and the value of the expression over the integers.
Only `cluster - 2` stays a 16-bit number in both. -/
inductive Computes (g : Geometry) : UInt32 → ℕ → Prop
  /-- `init` -/
  | boot : Computes g 0 0
  /-- `findFreeCluster` -/
  | fat {sec : UInt32} (hsec : sec < g.fatSz16.toUInt32) :
      Computes g (g.fatStart + sec) (g.reservedSec.toNat + sec.toNat)
  /-- `setFATEntry`, the first FAT -/
  | entry (cluster : UInt16) :
      Computes g (g.fatStart + cluster.toUInt32 * 2 / 512)
        (g.reservedSec.toNat + cluster.toNat * 2 / 512)
  /-- `setFATEntry`, the second FAT -/
  | copy (cluster : UInt16) :
      Computes g (g.fatStart + g.fatSz16.toUInt32 + cluster.toUInt32 * 2 / 512)
        (g.reservedSec.toNat + g.fatSz16.toNat + cluster.toNat * 2 / 512)
  /-- The passes over the root directory -/
  | root {sec : UInt32} (hsec : sec < g.rootSectors) :
      Computes g (g.rootStart + sec) (g.rootBase + sec.toNat)
  /-- `clusterToSector` -/
  | data (cluster : UInt16) :
      Computes g (g.clusterToSector cluster)
        (g.dataBase + (cluster - 2).toNat * g.secPerClust.toNat)

/-- The number is the value, and what a drive takes the registers for. -/
structure Exact (lba : UInt32) (n : ℕ) : Prop where
  value : lba.toNat = n
  lt : n < 2 ^ 28
  registers : (Ata.lba28ToRegs lba).sector = n

/-- A number that is computed without a wrap is exact if it is below `2 ^ 28`. -/
theorem exact_of_lt {lba : UInt32} {n : ℕ} (hvalue : lba.toNat = n) (hlt : n < 2 ^ 28) :
    Exact lba n :=
  ⟨hvalue, hlt, (Ata.sector_lba28ToRegs_of_lt (hvalue ▸ hlt)).trans hvalue⟩

/-- The sector of a FAT entry, counted from the start of the FAT, does not wrap. -/
theorem toNat_fatSector (cluster : UInt16) :
    (cluster.toUInt32 * 2 / 512).toNat = cluster.toNat * 2 / 512 := by
  have hlt := cluster.toNat_lt
  rw [UInt32.toNat_div, UInt32.toNat_mul, UInt16.toNat_toUInt32,
    show (2 : UInt32).toNat = 2 from rfl, show (512 : UInt32).toNat = 512 from rfl,
    Nat.mod_eq_of_lt (by omega)]

/-- The root directory has fewer than `2 ^ 13` sectors, whatever the boot sector says. -/
theorem Geometry.rootLength_lt (g : Geometry) : g.rootLength < 2 ^ 13 := by
  have hlt := g.rootEntCnt.toNat_lt
  rw [rootLength]
  omega

namespace Geometry.Located

variable {g : Geometry} (hg : g.Located)
include hg

/-- The FAT starts behind the reserved sectors. -/
theorem exact_fatStart : Exact g.fatStart g.reservedSec.toNat :=
  exact_of_lt hg.fatStart (g.reservedSec.toNat_lt.trans (by decide))

/-- Over the integers, the first sector of the root directory has a number of 25 bits. -/
theorem rootBase_lt : g.rootBase < 2 ^ 16 + 2 ^ 24 := by
  have hlt := hg.rootStart_lt
  rwa [hg.rootStart, hg.fatStart] at hlt

/-- The start of the root directory is computed without a wrap. -/
theorem exact_rootStart : Exact g.rootStart g.rootBase := by
  refine exact_of_lt ?_ (hg.rootBase_lt.trans (by decide))
  rw [hg.rootStart, hg.fatStart, rootBase]

/-- The start of the data is computed without a wrap. -/
theorem exact_dataStart : Exact g.dataStart g.dataBase := by
  have hroot := hg.rootBase_lt
  have hlength := g.rootLength_lt
  refine exact_of_lt ?_ (by rw [dataBase]; omega)
  rw [hg.dataStart, hg.exact_rootStart.value, hg.rootSectors, dataBase, rootLength]

end Geometry.Located

/-- **No sector number wraps**, and each is below `2 ^ 28`. -/
theorem Computes.exact {g : Geometry} (hg : g.Located) {lba : UInt32} {n : ℕ}
    (h : Computes g lba n) : Exact lba n := by
  have hreserved := g.reservedSec.toNat_lt
  have hfatSz := g.fatSz16.toNat_lt
  have hroot := hg.rootBase_lt
  have hlength := g.rootLength_lt
  cases h with
  | boot => exact exact_of_lt rfl (by decide)
  | @fat sec hsec =>
    rw [UInt32.lt_iff_toNat_lt, UInt16.toNat_toUInt32] at hsec
    refine exact_of_lt ?_ (by omega)
    rw [UInt32.toNat_add, hg.fatStart, Nat.mod_eq_of_lt (by omega)]
  | entry cluster =>
    have hlt := cluster.toNat_lt
    refine exact_of_lt ?_ (by omega)
    rw [UInt32.toNat_add, hg.fatStart, toNat_fatSector, Nat.mod_eq_of_lt (by omega)]
  | copy cluster =>
    have hlt := cluster.toNat_lt
    refine exact_of_lt ?_ (by omega)
    rw [UInt32.toNat_add, UInt32.toNat_add, hg.fatStart, toNat_fatSector, UInt16.toNat_toUInt32,
      Nat.mod_eq_of_lt (by omega), Nat.mod_eq_of_lt (by omega)]
  | @root sec hsec =>
    rw [UInt32.lt_iff_toNat_lt, hg.rootSectors] at hsec
    rw [Geometry.rootLength] at hlength
    refine exact_of_lt ?_ (by omega)
    rw [UInt32.toNat_add, hg.exact_rootStart.value, Nat.mod_eq_of_lt (by omega)]
  | data cluster =>
    have hmul : (cluster - 2).toNat * g.secPerClust.toNat < 2 ^ 16 * 2 ^ 8 :=
      Nat.mul_lt_mul'' (cluster - 2).toNat_lt g.secPerClust.toNat_lt
    have hbase : g.dataBase < 2 ^ 16 + 2 ^ 24 + 2 ^ 13 := by
      rw [Geometry.dataBase]
      omega
    refine exact_of_lt ?_ (by omega)
    rw [Geometry.clusterToSector, UInt32.toNat_add, UInt32.toNat_mul, hg.exact_dataStart.value,
      UInt16.toNat_toUInt32, UInt8.toNat_toUInt32,
      Nat.mod_eq_of_lt (show _ * _ < 2 ^ 32 by omega), Nat.mod_eq_of_lt (by omega)]

/-! ## The transfers of a call -/

variable {σ : Type}

/-- The second disk comes from the first one by transfers at numbers in `P` only. -/
inductive Disk.Reaches (D : Disk σ) (P : UInt32 → Prop) (d : σ) : σ → Prop
  | refl : D.Reaches P d d
  | read {d' : σ} {lba : UInt32} (h : D.Reaches P d d') (hlba : P lba) :
      D.Reaches P d (D.readSector lba d').2
  | write {d' : σ} {lba : UInt32} (h : D.Reaches P d d') (hlba : P lba) (b : Sector) :
      D.Reaches P d (D.writeSector lba b d').2

/-- A call that keeps the geometry and makes transfers at numbers in `P` only. -/
structure Transfers (D : Disk σ) (P : UInt32 → Prop) (v v' : Volume σ) : Prop where
  geometry : v'.geometry = v.geometry
  reaches : D.Reaches P v.disk v'.disk

namespace Transfers

section Steps

variable {D : Disk σ} {P : UInt32 → Prop} {v w w' : Volume σ}

/-- Doing nothing transfers no sector. -/
theorem refl (v : Volume σ) : Transfers D P v v := ⟨rfl, .refl⟩

/-- The buffer is no part of the disk. -/
theorem setBuf (h : Transfers D P v w) (buf : Sector) :
    Transfers D P v { w with fatBuf := buf } := ⟨h.geometry, h.reaches⟩

/-- A read of an allowed sector is an allowed transfer. -/
theorem readSector (h : Transfers D P v w) {lba : UInt32} (hlba : P lba) {ok : Bool}
    (heq : Fat16.readSector D lba w = (ok, w')) : Transfers D P v w' := by
  have hread := h.reaches.read hlba
  unfold Fat16.readSector at heq
  split at heq
  · next hsome =>
    rw [hsome] at hread
    cases heq
    exact ⟨h.geometry, hread⟩
  · next hnone =>
    rw [hnone] at hread
    cases heq
    exact ⟨h.geometry, hread⟩

/-- A write of an allowed sector is an allowed transfer. -/
theorem writeSector (h : Transfers D P v w) {lba : UInt32} (hlba : P lba) {ok : Bool}
    (heq : Fat16.writeSector D lba w = (ok, w')) : Transfers D P v w' := by
  cases heq
  exact ⟨h.geometry, h.reaches.write hlba _⟩

/-- A scan transfers the sectors of its list only. -/
theorem scan {β : Type} {start : UInt32} {f : ℕ → Sector → Option β} {secs : List ℕ} {r : Scan β}
    (h : Transfers D P v w) (hsecs : ∀ sec ∈ secs, P (start + .ofNat sec))
    (heq : Fat16.scan D start f secs w = (r, w')) : Transfers D P v w' := by
  induction secs generalizing w with
  | nil =>
    cases heq
    exact h
  | cons sec rest ih =>
    have hsec := hsecs sec List.mem_cons_self
    unfold Fat16.scan at heq
    split at heq
    · next hfailed =>
      cases heq
      exact h.readSector hsec hfailed
    · next hok =>
      split at heq
      · cases heq
        exact h.readSector hsec hok
      · exact ih (h.readSector hsec hok)
          (fun sec' hsec' => hsecs sec' (List.mem_cons_of_mem _ hsec')) heq

/-- The listing of a directory reads the sectors of its range only. -/
theorem listSectors {start : UInt32} {secs : List ℕ} (h : Transfers D P v w)
    (hsecs : ∀ sec ∈ secs, P (start + .ofNat sec)) :
    Transfers D P v (Fat16.listSectors D start secs w).2 := by
  induction secs generalizing w with
  | nil => exact h
  | cons sec rest ih =>
    have hsec := hsecs sec List.mem_cons_self
    unfold Fat16.listSectors
    split
    · next hfailed => exact h.readSector hsec hfailed
    · next hok =>
      split
      · exact h.readSector hsec hok
      · exact ih (h.readSector hsec hok)
          fun sec' hsec' => hsecs sec' (List.mem_cons_of_mem _ hsec')

end Steps

end Transfers

/-- What a pass finds, it finds in one of its sectors. -/
theorem exists_of_scan_found {D : Disk σ} {β : Type} {start : UInt32} {f : ℕ → Sector → Option β}
    {secs : List ℕ} {b : β} {w w' : Volume σ} (h : scan D start f secs w = (.found b, w')) :
    ∃ sec ∈ secs, ∃ buf, f sec buf = some b := by
  induction secs generalizing w with
  | nil => cases h
  | cons sec rest ih =>
    unfold scan at h
    split at h
    · cases h
    · split at h
      · next b' hb =>
        cases h
        exact ⟨sec, List.mem_cons_self, _, hb⟩
      · obtain ⟨sec', hsec', hfound⟩ := ih h
        exact ⟨sec', List.mem_cons_of_mem _ hsec', hfound⟩

/-! ## The numbers that the calls use -/

/-- A number that the driver computes on a volume of the geometry `g`. -/
def IsSectorNumber (g : Geometry) (lba : UInt32) : Prop := ∃ n, Computes g lba n

/-- The sectors of the first FAT have numbers of the geometry. -/
theorem isSectorNumber_fat {g : Geometry} {sec : ℕ}
    (h : sec ∈ List.range g.fatSz16.toNat) : IsSectorNumber g (g.fatStart + .ofNat sec) := by
  rw [List.mem_range] at h
  refine ⟨_, .fat ?_⟩
  have hlt := g.fatSz16.toNat_lt
  rwa [UInt32.lt_iff_toNat_lt, UInt16.toNat_toUInt32, UInt32.toNat_ofNat',
    Nat.mod_eq_of_lt (by omega)]

/-- The sectors of the root directory have numbers of the geometry. -/
theorem isSectorNumber_root {g : Geometry} {sec : ℕ}
    (h : sec ∈ List.range g.rootSectors.toNat) :
    IsSectorNumber g (g.rootStart + .ofNat sec) := by
  rw [List.mem_range] at h
  refine ⟨_, .root ?_⟩
  have hlt := g.rootSectors.toNat_lt
  rwa [UInt32.lt_iff_toNat_lt, UInt32.toNat_ofNat', Nat.mod_eq_of_lt (by omega)]

/-- The two ways of computing the sector of a FAT entry agree. -/
theorem ofNat_fatSector (cluster : UInt16) :
    UInt32.ofNat (cluster.toNat * 2 / 512) = cluster.toUInt32 * 2 / 512 := by
  have hlt := cluster.toNat_lt
  rw [← UInt32.toNat_inj, toNat_fatSector, UInt32.toNat_ofNat', Nat.mod_eq_of_lt (by omega)]

/-- The sector of a FAT entry has a number of the geometry, for every cluster. -/
theorem isSectorNumber_entry (g : Geometry) (cluster : UInt16) :
    IsSectorNumber g (g.fatStart + .ofNat (cluster.toNat * 2 / 512)) := by
  rw [ofNat_fatSector]
  exact ⟨_, .entry cluster⟩

/-- So has the sector of the same entry in the second FAT. -/
theorem isSectorNumber_copy (g : Geometry) (cluster : UInt16) :
    IsSectorNumber g (g.fatStart + g.fatSz16.toUInt32 + .ofNat (cluster.toNat * 2 / 512)) := by
  rw [ofNat_fatSector]
  exact ⟨_, .copy cluster⟩

namespace Transfers

section Calls

variable {D : Disk σ} {v w w' : Volume σ} (h : Transfers D (IsSectorNumber v.geometry) v w)
include h

/-- The numbers are those of the geometry before the transfers, which these do not change. -/
theorem isSectorNumber {lba : UInt32} (hlba : IsSectorNumber w.geometry lba) :
    IsSectorNumber v.geometry lba := h.geometry ▸ hlba

/-- A scan of the root directory transfers sectors of the geometry. -/
theorem scanRoot {g : Geometry} (hg : g = v.geometry) {β : Type} {f : ℕ → Sector → Option β}
    {r : Scan β} (heq : Fat16.scan D g.rootStart f (List.range g.rootSectors.toNat) w = (r, w')) :
    Transfers D (IsSectorNumber v.geometry) v w' :=
  h.scan (fun _ hsec => hg ▸ isSectorNumber_root hsec) heq

/-- The search for a free cluster reads sectors of the FAT only. -/
theorem findFreeCluster {c : UInt16} (heq : Fat16.findFreeCluster D w = (c, w')) :
    Transfers D (IsSectorNumber v.geometry) v w' := by
  have hfat : ∀ sec ∈ List.range w.geometry.fatSz16.toNat,
      IsSectorNumber v.geometry (w.geometry.fatStart + .ofNat sec) :=
    fun _ hsec => h.isSectorNumber (isSectorNumber_fat hsec)
  unfold Fat16.findFreeCluster at heq
  split at heq
  · next hfound =>
    cases heq
    exact h.scan hfat hfound
  · next hother =>
    cases heq
    exact h.scan hfat hother

/-- Marking a cluster reads and writes its sector in the two FATs. -/
theorem setFATEntry {cluster value : UInt16} {ok : Bool}
    (heq : Fat16.setFATEntry D cluster value w = (ok, w')) :
    Transfers D (IsSectorNumber v.geometry) v w' := by
  have hentry := h.isSectorNumber (isSectorNumber_entry w.geometry cluster)
  unfold Fat16.setFATEntry at heq
  dsimp only at heq
  split at heq
  · next hfailed =>
    cases heq
    exact h.readSector hentry hfailed
  · next w₁ hread =>
    have h₁ := h.readSector hentry hread
    have hentry₁ := h₁.isSectorNumber (isSectorNumber_entry w₁.geometry cluster)
    split at heq
    · next hfailed =>
      cases heq
      exact (h₁.setBuf _).writeSector hentry₁ hfailed
    · next w₂ hwrite =>
      have h₂ := (h₁.setBuf _).writeSector hentry₁ hwrite
      cases heq
      exact h₂.writeSector (h₂.isSectorNumber (isSectorNumber_copy w₂.geometry cluster)) rfl

/-- All transfers of `createFile`: the scans, the two FATs, the entry and the data. -/
theorem createFile {n : FileName} {data : Sector} {dataLen : UInt32} {r : Except String Unit}
    (heq : Fat16.createFile D n data dataLen w = (r, w')) :
    Transfers D (IsSectorNumber v.geometry) v w' := by
  have hroot := h.geometry
  unfold Fat16.createFile at heq
  dsimp only at heq
  split at heq
  · cases heq
    exact h
  split at heq
  · next hscan =>
    cases heq
    exact h.scanRoot hroot hscan
  · next hscan =>
    cases heq
    exact h.scanRoot hroot hscan
  next w₁ hscan =>
  have h₁ := (h.scanRoot hroot hscan).findFreeCluster rfl
  split at heq
  · cases heq
    exact h₁
  split at heq
  · next hset =>
    cases heq
    exact h₁.setFATEntry hset
  next w₂ hset =>
  have h₂ := h₁.setFATEntry hset
  split at heq
  · next hslot =>
    cases heq
    exact h₂.scanRoot hroot hslot
  · next hslot =>
    cases heq
    exact h₂.scanRoot hroot hslot
  next dirSec i w₃ hslot =>
  have h₃ := h₂.scanRoot hroot hslot
  -- the slot was found in a sector of the directory
  have hdir : IsSectorNumber v.geometry (w.geometry.rootStart + .ofNat dirSec) := by
    obtain ⟨sec, hsec, buf, hfound⟩ := exists_of_scan_found hslot
    obtain ⟨_, -, hpair⟩ := Option.map_eq_some_iff.mp hfound
    cases hpair
    exact h.isSectorNumber (isSectorNumber_root hsec)
  split at heq
  · next hread =>
    cases heq
    exact h₃.readSector hdir hread
  next w₄ hread =>
  have h₄ := h₃.readSector hdir hread
  split at heq
  · next hwrite =>
    cases heq
    exact (h₄.setBuf _).writeSector hdir hwrite
  next w₅ hwrite =>
  have h₅ := (h₄.setBuf _).writeSector hdir hwrite
  have hdata := h₅.isSectorNumber ⟨_, .data (Fat16.findFreeCluster D w₁).1⟩
  split at heq
  · next hdone =>
    cases heq
    exact (h₅.setBuf _).writeSector hdata hdone
  · next hdone =>
    cases heq
    exact (h₅.setBuf _).writeSector hdata hdone

/-- All transfers of `readFile`: the scan of the directory and the data. -/
theorem readFile {n : FileName} {r : Option (UInt32 × Sector)}
    (heq : Fat16.readFile D n w = (r, w')) : Transfers D (IsSectorNumber v.geometry) v w' := by
  unfold Fat16.readFile at heq
  split at heq
  · cases heq
    exact h
  split at heq
  · next hscan =>
    cases heq
    exact h.scanRoot h.geometry hscan
  · next hscan =>
    cases heq
    exact h.scanRoot h.geometry hscan
  next e w₁ hscan =>
  have h₁ := h.scanRoot h.geometry hscan
  split at heq
  · cases heq
    exact h₁
  -- the last transfer goes to the buffer of the caller
  have hread := h₁.reaches.read (h₁.isSectorNumber ⟨_, .data (cluster e)⟩)
  split at heq
  · next hdisk =>
    rw [hdisk] at hread
    cases heq
    exact ⟨h₁.geometry, hread⟩
  · next hdisk =>
    rw [hdisk] at hread
    cases heq
    exact ⟨h₁.geometry, hread⟩

/-- All transfers of `listDir` are reads of the root directory. -/
theorem listDir : Transfers D (IsSectorNumber v.geometry) v (Fat16.listDir D w).2 := by
  unfold Fat16.listDir
  split
  · exact h
  · exact h.listSectors fun _ hsec => h.isSectorNumber (isSectorNumber_root hsec)

end Calls

end Transfers

/-! ## Runs on a mounted volume -/

/-- The functions of the package that transfer sectors of a mounted volume. -/
inductive Operation where
  | listDir
  | createFile (n : FileName) (data : Sector) (dataLen : UInt32)
  | readFile (n : FileName)
  | findFreeCluster
  | setFATEntry (cluster value : UInt16)

def Operation.run (D : Disk σ) (v : Volume σ) : Operation → Volume σ
  | .listDir => (Fat16.listDir D v).2
  | .createFile n data dataLen => (Fat16.createFile D n data dataLen v).2
  | .readFile n => (Fat16.readFile D n v).2
  | .findFreeCluster => (Fat16.findFreeCluster D v).2
  | .setFATEntry cluster value => (Fat16.setFATEntry D cluster value v).2

def runOperations (D : Disk σ) (ops : List Operation) (v : Volume σ) : Volume σ :=
  ops.foldl (fun v op => op.run D v) v

/-- Each operation on a mounted volume transfers sectors of the geometry. -/
theorem Transfers.operation {D : Disk σ} {v w : Volume σ}
    (h : Transfers D (IsSectorNumber v.geometry) v w) (op : Operation) :
    Transfers D (IsSectorNumber v.geometry) v (op.run D w) := by
  cases op with
  | listDir => exact h.listDir
  | createFile n data dataLen => exact h.createFile rfl
  | readFile n => exact h.readFile rfl
  | findFreeCluster => exact h.findFreeCluster rfl
  | setFATEntry cluster value => exact h.setFATEntry rfl

/-- So does a run of operations, by induction on its length. -/
theorem transfers_runOperations (D : Disk σ) (ops : List Operation) (v : Volume σ) :
    Transfers D (IsSectorNumber v.geometry) v (runOperations D ops v) := by
  induction ops using List.reverseRecOn with
  | nil => exact .refl v
  | append_singleton ops op ih =>
    rw [runOperations, List.foldl_append]
    exact ih.operation op

/-! ## Disks that show the numbers -/

/-- A disk that keeps the numbers it is given. -/
def Disk.logged (D : Disk σ) : Disk (σ × List UInt32) where
  readSector lba d := ((D.readSector lba d.1).1, (D.readSector lba d.1).2, d.2 ++ [lba])
  writeSector lba b d := ((D.writeSector lba b d.1).1, (D.writeSector lba b d.1).2, d.2 ++ [lba])

/-- `l'` is `l` with more elements behind it, all of them in `Q`. -/
def Extends {α : Type} (Q : α → Prop) (l l' : List α) : Prop :=
  ∃ new, l' = l ++ new ∧ ∀ x ∈ new, Q x

/-- A list extends itself by nothing. -/
theorem Extends.refl {α : Type} {Q : α → Prop} (l : List α) : Extends Q l l :=
  ⟨[], (List.append_nil l).symm, fun _ hx => absurd hx List.not_mem_nil⟩

/-- A list is extended by one more element that satisfies the predicate. -/
theorem Extends.concat {α : Type} {Q : α → Prop} {l l' : List α} {x : α} (h : Extends Q l l')
    (hx : Q x) : Extends Q l (l' ++ [x]) := by
  obtain ⟨new, rfl, hall⟩ := h
  refine ⟨new ++ [x], List.append_assoc .., fun y hy => ?_⟩
  rcases List.mem_append.mp hy with hy | hy
  · exact hall y hy
  · rwa [List.mem_singleton.mp hy]

/-- An extension satisfies every weaker predicate. -/
theorem Extends.imp {α : Type} {Q Q' : α → Prop} {l l' : List α} (h : Extends Q l l')
    (hQ : ∀ x, Q x → Q' x) : Extends Q' l l' := by
  obtain ⟨new, rfl, hall⟩ := h
  exact ⟨new, rfl, fun x hx => hQ x (hall x hx)⟩

/-- The log of a disk grows by the sectors that are transferred. -/
theorem Disk.Reaches.extends_log {D : Disk σ} {P : UInt32 → Prop} {d d' : σ × List UInt32}
    (h : D.logged.Reaches P d d') : Extends P d.2 d'.2 := by
  induction h with
  | refl => exact .refl _
  | read _ hlba ih => exact ih.concat hlba
  | write _ hlba _ ih => exact ih.concat hlba

/-- The offsets that `init` computes are exact. -/
structure OffsetsExact (g : Geometry) : Prop where
  fatStart : Exact g.fatStart g.reservedSec.toNat
  rootStart : Exact g.rootStart g.rootBase
  rootSectors : g.rootSectors.toNat = g.rootLength
  dataStart : Exact g.dataStart g.dataBase

/-- On a volume that `init` has mounted, the three starts are exact. -/
theorem Geometry.Located.offsetsExact {g : Geometry} (hg : g.Located) : OffsetsExact g :=
  ⟨hg.exact_fatStart, hg.exact_rootStart, hg.rootSectors, hg.exact_dataStart⟩

/-- **The sector arithmetic never wraps.** Once `init` has accepted a boot sector, whatever its
fields are, the offsets and every number that the driver computes from them, for any sector of a
pass and any cluster, have the value of the expression over the integers, are below `2 ^ 28`, and
are what the registers hold; and no operation uses another number. -/
theorem sector_numbers_exact (D : Disk σ) {v₀ v : Volume (σ × List UInt32)}
    (hinit : init D.logged v₀ = (.ok (), v)) :
    v.disk.2 = v₀.disk.2 ++ [0] ∧ (∃ b, Mountable b ∧ v.geometry = .ofBoot b) ∧
      OffsetsExact v.geometry ∧ (∀ lba n, Computes v.geometry lba n → Exact lba n) ∧
      ∀ ops, Extends (fun lba => ∃ n, Computes v.geometry lba n ∧ Exact lba n) v.disk.2
        (runOperations D.logged ops v).disk.2 := by
  obtain ⟨b, d, hread, hb, rfl⟩ := mounted_of_ok hinit
  have hg := Geometry.located_ofBoot b
  refine ⟨?_, ⟨b, hb, rfl⟩, hg.offsetsExact, fun _ _ h => h.exact hg, fun ops => ?_⟩
  · exact (congrArg (fun r => r.2.2) hread).symm
  · refine (transfers_runOperations D.logged ops _).reaches.extends_log.imp ?_
    rintro lba ⟨n, hn⟩
    exact ⟨n, hn, hn.exact hg⟩

/-- The boot sector whose fields are as large as they can be. -/
def largestBoot : Sector :=
  (Block.fill 0xFF).put 11 0x00 |>.put 12 0x02 |>.put 510 0x55 |>.put 511 0xAA

/-- The highest sector number that the driver can compute. -/
theorem sector_numbers_exact_largest :
    ∃ v, init Session.oneSector.logged
        ⟨.ofBoot bootSector, false, Block.zero, (largestBoot, [])⟩ = (.ok (), v) ∧
      Exact (v.geometry.clusterToSector 1) 33492481 := by
  have hinit := init_of_mountable (D := Session.oneSector.logged)
    (v := ⟨.ofBoot bootSector, false, Block.zero, (largestBoot, [])⟩) (b := largestBoot) rfl
    (by decide)
  obtain ⟨-, -, -, hexact, -⟩ := sector_numbers_exact Session.oneSector hinit
  have hvalue : (Geometry.ofBoot largestBoot).dataBase + (1 - 2 : UInt16).toNat *
      (Geometry.ofBoot largestBoot).secPerClust.toNat = 33492481 := by decide
  have hlast := hexact _ _ (.data 1)
  rw [hvalue] at hlast
  exact ⟨_, hinit, hlast⟩

/-! ## Behind the ATA driver -/

/-- The drive, through `ata.ReadSector` and `ata.WriteSector`. What a failed read would leave in the
buffer does not matter, as it leaves it as it was. -/
def ataDisk : Disk Ata.Drive where
  readSector lba d :=
    match Ata.readSector Ata.Drive.port lba Block.zero d with
    | (ok, buf, d) => (if ok then some buf else none, d)
  writeSector lba b d := Ata.writeSector Ata.Drive.port lba b d

/-- The drive is commanded to access the sectors that the registers hold, and no others. -/
theorem Disk.Reaches.extends_accesses {P : UInt32 → Prop} {d d' : Ata.Drive}
    (h : ataDisk.Reaches P d d') :
    Extends (fun a => ∃ lba, P lba ∧ a.sector = lba.toNat % 2 ^ 28) d.accesses d'.accesses := by
  induction h with
  | refl => exact .refl _
  | @read d' lba _ hlba ih =>
    cases hread : Ata.readSector Ata.Drive.port lba Block.zero d' with
    | mk ok rest =>
      obtain ⟨buf, d''⟩ := rest
      have hdisk : (ataDisk.readSector lba d').2 = d'' := by simp only [ataDisk, hread]
      rw [hdisk]
      rcases d'.readSector_accesses lba _ hread with heq | heq
      · rwa [heq]
      · rw [heq]
        exact ih.concat ⟨lba, hlba, rfl⟩
  | @write d' lba _ hlba b ih =>
    cases hwrite : Ata.writeSector Ata.Drive.port lba b d' with
    | mk ok d'' =>
      have hdisk : (ataDisk.writeSector lba b d').2 = d'' := by simp only [ataDisk, hwrite]
      rw [hdisk]
      rcases d'.writeSector_accesses lba b hwrite with heq | heq
      · rwa [heq]
      · rw [heq]
        exact ih.concat ⟨lba, hlba, rfl⟩

/-- **The sectors of a drive.** On a volume that is mounted from a drive behind the ATA driver, the
sectors that the drive is commanded to access are those that the expressions of the source denote
over the integers. -/
theorem accesses_computed {v₀ v : Volume Ata.Drive} (hinit : init ataDisk v₀ = (.ok (), v))
    (ops : List Operation) :
    Extends (fun a => ∃ lba, Computes v.geometry lba a.sector) v.disk.accesses
      (runOperations ataDisk ops v).disk.accesses := by
  obtain ⟨b, d, -, -, rfl⟩ := mounted_of_ok hinit
  refine (transfers_runOperations ataDisk ops _).reaches.extends_accesses.imp ?_
  rintro a ⟨lba, ⟨n, hn⟩, hsector⟩
  have hexact := hn.exact (Geometry.located_ofBoot b)
  rw [hexact.value, Nat.mod_eq_of_lt hexact.lt] at hsector
  exact ⟨lba, hsector ▸ hn⟩

end DavOS.Fat16
