import DavOS.Lib.ByteBlock
import Mathlib.Data.Fin.VecNotation

/-!
# The FAT16 driver

`fs/fat16/fat16.go` over an arbitrary disk: `init` mounts a volume, `format` writes an empty one,
and `createFile` and `readFile` are the only operations on files. A file is one cluster, and of its
cluster one sector. The variables of the package are the fields of `Volume`; all sector transfers
but the last one of `readFile` go through the one buffer `fatBuf`.

Every directory pass and the search for a free cluster read the sectors of a region one after
another until the buffer answers the question. They are `scan` with the question as a parameter.
-/

namespace DavOS.Fat16

abbrev Sector := Block 512

/-- The two calls of the ATA driver. A read that fails has not written to the buffer. -/
structure Disk (σ : Type) where
  readSector : UInt32 → σ → Option Sector × σ
  writeSector : UInt32 → Sector → σ → Bool × σ

/-- The parameters of the boot sector, and the four offsets that `init` computes from them. -/
structure Geometry where
  bytesPerSec : UInt16
  secPerClust : UInt8
  reservedSec : UInt16
  numFATs : UInt8
  rootEntCnt : UInt16
  totSec16 : UInt16
  fatSz16 : UInt16
  fatStart : UInt32
  rootStart : UInt32
  dataStart : UInt32
  rootSectors : UInt32
  deriving DecidableEq

structure Volume (σ : Type) where
  geometry : Geometry
  initialized : Bool
  fatBuf : Sector
  disk : σ

/-- The name of a file: eight bytes and three bytes of extension, padded with spaces. -/
structure FileName where
  name : Fin 8 → UInt8
  ext : Fin 3 → UInt8
  deriving DecidableEq

/-! ## Sector transfers -/

section Transfers

variable {σ : Type} (D : Disk σ)

/-- `ata.ReadSector(lba, &fatBuf)`. -/
def readSector (lba : UInt32) (v : Volume σ) : Bool × Volume σ :=
  match D.readSector lba v.disk with
  | (some s, d) => (true, { v with fatBuf := s, disk := d })
  | (none, d) => (false, { v with disk := d })

/-- `ata.WriteSector(lba, &fatBuf)`. -/
def writeSector (lba : UInt32) (v : Volume σ) : Bool × Volume σ :=
  let (ok, d) := D.writeSector lba v.fatBuf v.disk
  (ok, { v with disk := d })

/-- Writes the buffer to the sectors `start + sec`, up to the first one that fails. -/
def writeSectors (start : UInt32) : List ℕ → Volume σ → Bool × Volume σ
  | [], v => (true, v)
  | sec :: rest, v =>
    match writeSector D (start + .ofNat sec) v with
    | (false, v) => (false, v)
    | (true, v) => writeSectors start rest v

/-- How a pass over the sectors of a region ends. -/
inductive Scan (β : Type) where
  | found (b : β)
  | exhausted
  | failed

/-- Reads the sectors `start + sec` into the buffer up to the first one that `f` answers. -/
def scan {β : Type} (start : UInt32) (f : ℕ → Sector → Option β) :
    List ℕ → Volume σ → Scan β × Volume σ
  | [], v => (.exhausted, v)
  | sec :: rest, v =>
    match readSector D (start + .ofNat sec) v with
    | (false, v) => (.failed, v)
    | (true, v) =>
      match f sec v.fatBuf with
      | some b => (.found b, v)
      | none => scan start f rest v

end Transfers

/-! ## Mounting and formatting -/

section Mount

variable {σ : Type} (D : Disk σ)

/-- The fields of the boot sector, as `init` assigns them before it has checked any of them. -/
def Geometry.assign (g : Geometry) (b : Sector) : Geometry :=
  { g with
    bytesPerSec := b.get16 11
    secPerClust := b.get 13
    reservedSec := b.get16 14
    numFATs := b.get 16
    rootEntCnt := b.get16 17
    totSec16 := b.get16 19
    fatSz16 := b.get16 22 }

/-- The offsets, from the fields. -/
def Geometry.locate (g : Geometry) : Geometry :=
  let fatStart := g.reservedSec.toUInt32
  let rootStart := fatStart + g.numFATs.toUInt32 * g.fatSz16.toUInt32
  let rootSectors := (g.rootEntCnt.toUInt32 * 32 + 511) / 512
  { g with fatStart, rootStart, rootSectors, dataStart := rootStart + rootSectors }

abbrev Signed (b : Sector) : Prop := b.get 510 = 0x55 ∧ b.get 511 = 0xAA

/-- Init reads the MBR/BPB from sector 0 and calculates offsets. An error is the text printed. -/
def init (v : Volume σ) : Except String Unit × Volume σ :=
  match readSector D 0 v with
  | (false, v) => (.error "FAT16: Read Error\n", v)
  | (true, v) =>
    if ¬Signed v.fatBuf then
      (.error "FAT16: Invalid Signature. Run 'fat_format' first.\n",
        { v with initialized := false })
    else
      let g := v.geometry.assign v.fatBuf
      -- neither the fields nor `initialized` are taken back here
      if g.bytesPerSec ≠ 512 then
        (.error "FAT16 Error: BytesPerSec != 512\n", { v with geometry := g })
      else (.ok (), { v with geometry := g.locate, initialized := true })

/-- `"MSWIN4.1"`. -/
def oem : Fin 8 → UInt8 := ![0x4D, 0x53, 0x57, 0x49, 0x4E, 0x34, 0x2E, 0x31]

/-- The boot sector of a formatted disk: 512 bytes a sector, 1 sector a cluster, 1 reserved
sector, 2 FATs of 160 sectors, 512 root entries, 40960 sectors in all. -/
def bootSector : Sector :=
  Block.zero.put 0 0xEB |>.put 1 0x3C |>.put 2 0x90 |>.blit 3 oem
    |>.put 11 0x00 |>.put 12 0x02 |>.put 13 1 |>.put 14 1 |>.put 15 0 |>.put 16 2
    |>.put 17 0x00 |>.put 18 0x02 |>.put 19 0x00 |>.put 20 0xA0 |>.put 21 0xF8
    |>.put 22 160 |>.put 23 0 |>.put 510 0x55 |>.put 511 0xAA

/-- Format writes a minimal FAT16 BPB to sector 0, and zeros to both FATs and the root
directory. -/
def format (v : Volume σ) : Bool × Volume σ :=
  match writeSector D 0 { v with fatBuf := bootSector } with
  | (false, v) => (false, v)
  | (true, v) =>
    match writeSectors D 1 (List.range 160) { v with fatBuf := Block.zero } with
    | (false, v) => (false, v)
    | (true, v) =>
      match writeSectors D (1 + 160) (List.range 160) v with
      | (false, v) => (false, v)
      | (true, v) => writeSectors D (1 + 160 * 2) (List.range 32) v

end Mount

/-! ## Directory entries -/

abbrev DirEntry := Block 32

/-- The entry of a directory sector that starts at `i * DirEntrySize`. -/
def entry (buf : Sector) (i : ℕ) : DirEntry := buf.slice (i * 32) 32

def entries (buf : Sector) : List DirEntry := (List.range 16).map (entry buf)

abbrev IsEnd (e : DirEntry) : Prop := e.get 0 = 0x00

abbrev IsDeleted (e : DirEntry) : Prop := e.get 0 = 0xE5

abbrev IsLabel (e : DirEntry) : Prop := e.get 11 &&& 0x08 ≠ 0

abbrev HasName (n : FileName) (e : DirEntry) : Prop :=
  (∀ j : Fin 8, e.get j = n.name j) ∧ ∀ j : Fin 3, e.get (8 + j) = n.ext j

def cluster (e : DirEntry) : UInt16 := e.get16 26

def size (e : DirEntry) : UInt32 := e.get32 28

/-- Whether the pass for an existing name stops at this sector. An end marker stops the pass over
this sector only: the `break` leaves the inner one of the two loops. -/
def holdsDuplicate (n : FileName) (buf : Sector) : Bool :=
  ((entries buf).takeWhile fun e => ¬IsEnd e).any fun e =>
    ¬IsDeleted e ∧ ¬IsLabel e ∧ HasName n e

/-- The first entry of a sector at which `readFile` leaves its loops: an end marker, or a match.
Volume labels are not passed over. -/
def searchEntry (n : FileName) (buf : Sector) : Option DirEntry :=
  (entries buf).find? fun e => IsEnd e ∨ ¬IsDeleted e ∧ HasName n e

def freeEntry (buf : Sector) : Option ℕ :=
  (List.range 16).find? fun i => IsEnd (entry buf i) ∨ IsDeleted (entry buf i)

/-- The directory entry of a new file, written to the buffer field by field. -/
def putEntry (buf : Sector) (i : ℕ) (n : FileName) (cluster : UInt16) (dataLen : UInt32) : Sector :=
  buf.blit (i * 32) n.name |>.blit (i * 32 + 8) n.ext |>.put (i * 32 + 11) 0x00
    |>.blit (i * 32 + 12) (fun _ : Fin 14 => 0x00) |>.put16 (i * 32 + 26) cluster
    |>.put32 (i * 32 + 28) dataLen

/-- The data of a file, with zeros after the first `dataLen` bytes. -/
def padded (data : Sector) (dataLen : UInt32) : Sector := fun i =>
  if i.val < dataLen.toNat then data i else 0

/-! ## Clusters -/

section Files

variable {σ : Type} (D : Disk σ)

/-- The first free cluster of a FAT sector, narrowed to 16 bits. -/
def freeIn (sec : ℕ) (buf : Sector) : Option UInt16 :=
  (List.range 256).findSome? fun i =>
    let cluster := sec * 256 + i
    if cluster < 2 then none
    else if buf.get16 (i * 2) = 0x0000 then some (.ofNat cluster) else none

/-- FindFreeCluster finds a free cluster in the FAT (returns 0 if none). -/
def findFreeCluster (v : Volume σ) : UInt16 × Volume σ :=
  match scan D v.geometry.fatStart freeIn (List.range v.geometry.fatSz16.toNat) v with
  | (.found cluster, v) => (cluster, v)
  | (_, v) => (0, v)

/-- SetFATEntry sets a FAT entry value, in both FATs. The result of the second write is not
looked at. -/
def setFATEntry (cluster value : UInt16) (v : Volume σ) : Bool × Volume σ :=
  let sec := UInt32.ofNat (cluster.toNat * 2 / 512)
  match readSector D (v.geometry.fatStart + sec) v with
  | (false, v) => (false, v)
  | (true, v) =>
    match writeSector D (v.geometry.fatStart + sec)
      { v with fatBuf := v.fatBuf.put16 (cluster.toNat * 2 % 512) value } with
    | (false, v) => (false, v)
    | (true, v) =>
      (true, (writeSector D (v.geometry.fatStart + v.geometry.fatSz16.toUInt32 + sec) v).2)

/-- ClusterToSector converts a cluster number to LBA sector. -/
def Geometry.clusterToSector (g : Geometry) (cluster : UInt16) : UInt32 :=
  g.dataStart + (cluster - 2).toUInt32 * g.secPerClust.toUInt32

/-! ## Files -/

/-- CreateFile creates a file in the root directory. An error is the text printed; the exits that
print nothing have the empty one. -/
def createFile (n : FileName) (data : Sector) (dataLen : UInt32) (v : Volume σ) :
    Except String Unit × Volume σ :=
  if v.initialized = false then (.error "FAT16: Not initialized\n", v) else
  let rootStart := v.geometry.rootStart
  let root := List.range v.geometry.rootSectors.toNat
  -- Check if file with same name already exists
  match scan D rootStart (fun _ buf => if holdsDuplicate n buf then some () else none) root v with
  | (.failed, v) => (.error "", v)
  | (.found (), v) => (.error "FAT16: File already exists\n", v)
  | (.exhausted, v) =>
  -- Find free cluster in FAT
  match findFreeCluster D v with
  | (cluster, v) =>
  if cluster = 0 then (.error "FAT16: No free clusters\n", v) else
  -- Mark cluster as end-of-chain in FAT
  match setFATEntry D cluster 0xFFFF v with
  | (false, v) => (.error "FAT16: FAT write error\n", v)
  | (true, v) =>
  -- Find free directory entry
  match scan D rootStart (fun sec buf => (freeEntry buf).map (sec, ·)) root v with
  | (.failed, v) => (.error "", v)
  | (.exhausted, v) => (.error "FAT16: Root directory full\n", v)
  | (.found (dirSec, i), v) =>
  -- Re-read sector for modification
  match readSector D (rootStart + .ofNat dirSec) v with
  | (false, v) => (.error "", v)
  | (true, v) =>
  match writeSector D (rootStart + .ofNat dirSec)
    { v with fatBuf := putEntry v.fatBuf i n cluster dataLen } with
  | (false, v) => (.error "", v)
  | (true, v) =>
  -- Write data to cluster
  match writeSector D (v.geometry.clusterToSector cluster)
    { v with fatBuf := padded data dataLen } with
  | (false, v) => (.error "", v)
  | (true, v) => (.ok (), v)

/-- ReadFile reads a file by name: its size, and the sector for the buffer of the caller. -/
def readFile (n : FileName) (v : Volume σ) : Option (UInt32 × Sector) × Volume σ :=
  if v.initialized = false then (none, v) else
  match scan D v.geometry.rootStart (fun _ buf => searchEntry n buf)
    (List.range v.geometry.rootSectors.toNat) v with
  | (.failed, v) => (none, v)
  | (.exhausted, v) => (none, v)
  | (.found e, v) =>
    if IsEnd e then (none, v)
    else
      match D.readSector (v.geometry.clusterToSector (cluster e)) v.disk with
      | (none, d) => (none, { v with disk := d })
      | (some s, d) => (some (size e, s), { v with disk := d })

end Files

end DavOS.Fat16
