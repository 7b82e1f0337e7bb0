import DavOS.Lib.PackedBits

/-!
# The page frame allocator

Reference: `mem/allocator.go`, `mem/allocator_gccgo.go` and the memory map of `mem/multiboot.go`.

The bitmap lies in physical memory, so the memory is part of the state. It is taken to behave as
memory: a byte that is read is the byte that was last written there. `kernelEnd` and `bootstrapEnd`
are symbols of the linker script, and part of the platform with the memory map.
-/

namespace DavOS.Mem

abbrev pageSize : UInt64 := 4096

abbrev maxMMapEntries : ℕ := 64

structure MMapEntry where
  baseLo : UInt32
  baseHi : UInt32
  lenLo : UInt32
  lenHi : UInt32
  typ : UInt32

/-- The memory map, `mmapEntries` up to `mmapCount`, and the ends of the kernel image. -/
structure Platform where
  mmap : List MMapEntry
  kernelEnd : UInt64
  bootstrapEnd : UInt64
  mmap_length : mmap.length ≤ maxMMapEntries

def Platform.kernelEndPhys (pl : Platform) : UInt64 :=
  if pl.bootstrapEnd > pl.kernelEnd then pl.bootstrapEnd else pl.kernelEnd

def alignUp (v a : UInt64) : UInt64 := (v + (a - 1)) &&& ~~~(a - 1)

def alignDown (v a : UInt64) : UInt64 := v &&& ~~~(a - 1)

def u64FromHiLo (hi lo : UInt32) : UInt64 := (hi.toUInt64 <<< 32) ||| lo.toUInt64

namespace MMapEntry

def base (e : MMapEntry) : UInt64 := u64FromHiLo e.baseHi e.baseLo

def length (e : MMapEntry) : UInt64 := u64FromHiLo e.lenHi e.lenLo

/-- The end address, as the allocator computes it. -/
def stop (e : MMapEntry) : UInt64 := e.base + e.length

end MMapEntry

/-- The available entries; all loops over the memory map skip the others. -/
def Platform.available (pl : Platform) : List MMapEntry := pl.mmap.filter fun e => e.typ = 1

def Platform.maxAvailableEnd (pl : Platform) : UInt64 :=
  pl.available.foldl (fun maxEnd e => if e.stop > maxEnd then e.stop else maxEnd) 0

/-- The variables of the package, and the physical memory. -/
structure Allocator where
  pfaReady : Bool
  totalPages : UInt64
  freePages : UInt64
  bitmapPhys : UInt64
  bitmapBytes : UInt64
  scanStart : UInt64
  memory : UInt64 → UInt8

namespace Allocator

/-! ## The bitmap -/

/-- `*bitmapBytePtr(off)` -/
def bitmapByte (s : Allocator) (off : UInt64) : UInt8 := s.memory (s.bitmapPhys + off)

/-- The assignment `*bitmapBytePtr(off) = b`. -/
def storeBitmapByte (off : UInt64) (b : UInt8) (s : Allocator) : Allocator :=
  { s with memory := fun addr => if addr = s.bitmapPhys + off then b else s.memory addr }

def bitmapGet (page : UInt64) (s : Allocator) : Bool :=
  let byteIdx := page >>> 3
  let bit : UInt8 := 1 <<< (page &&& 7).toUInt8
  s.bitmapByte byteIdx &&& bit ≠ 0

def bitmapSet (page : UInt64) (used : Bool) (s : Allocator) : Allocator :=
  let byteIdx := page >>> 3
  let bit : UInt8 := 1 <<< (page &&& 7).toUInt8
  let b := s.bitmapByte byteIdx
  s.storeBitmapByte byteIdx (if used then b ||| bit else b &&& ~~~bit)

/-! ## Ranges -/

/-- The body of the loop of `markFreeRange`. -/
def markFree (page : UInt64) (s : Allocator) : Allocator :=
  if s.bitmapGet page then
    let s := s.bitmapSet page false
    { s with freePages := s.freePages + 1 }
  else s

/-- The body of the loop of `markUsedRange`. -/
def markUsed (page : UInt64) (s : Allocator) : Allocator :=
  if ¬ s.bitmapGet page then
    let s := s.bitmapSet page true
    { s with freePages := if s.freePages > 0 then s.freePages - 1 else s.freePages }
  else s

/-- The loop of both: `mark` the pages from address `addr` up to `stop`. It leaves at the first page
that is not below `totalPages`, so that many rounds are enough. -/
def markLoop (mark : UInt64 → Allocator → Allocator) (stop : UInt64) :
    ℕ → UInt64 → Allocator → Allocator
  | 0, _, s => s
  | rounds + 1, addr, s =>
    if addr < stop then
      let page := addr / pageSize
      if page ≥ s.totalPages then s
      else markLoop mark stop rounds (addr + pageSize) (mark page s)
    else s

def markFreeRange (startPhys endPhys : UInt64) (s : Allocator) : Allocator :=
  if endPhys ≤ startPhys then s
  else
    markLoop markFree (alignDown endPhys pageSize) s.totalPages.toNat (alignUp startPhys pageSize) s

def markUsedRange (startPhys endPhys : UInt64) (s : Allocator) : Allocator :=
  if endPhys ≤ startPhys then s
  else
    markLoop markUsed (alignUp endPhys pageSize) s.totalPages.toNat (alignDown startPhys pageSize) s

/-! ## Initialisation -/

/-- Where the bitmap fits into an available entry. -/
def placeBitmap (kend bitmapBytes : UInt64) (e : MMapEntry) : Option UInt64 :=
  if e.stop ≤ e.base ∨ e.stop ≤ kend then none
  else
    let start := if e.base < kend then kend else e.base
    let start := alignUp start pageSize
    if start + bitmapBytes ≤ e.stop then some start else none

/-- The placement of the bitmap, with the fallback to the end of the kernel. -/
def findBitmap (pl : Platform) (bitmapBytes : UInt64) : UInt64 :=
  let kend := pl.kernelEndPhys
  let bitmapPhys := (pl.available.findSome? (placeBitmap kend bitmapBytes)).getD 0
  if bitmapPhys = 0 then alignUp kend pageSize else bitmapPhys

/-- The loop that marks everything as used. -/
def fillBitmap (s : Allocator) : Allocator :=
  (List.range s.bitmapBytes.toNat).foldl (fun s i => s.storeBitmapByte (UInt64.ofNat i) 0xFF) s

def initPFA (pl : Platform) (s : Allocator) : Bool × Allocator :=
  let s := { s with pfaReady := false, freePages := 0 }
  let maxEnd := pl.maxAvailableEnd
  if maxEnd = 0 then (false, s)
  else
    let s := { s with totalPages := (maxEnd + (pageSize - 1)) / pageSize }
    if s.totalPages = 0 then (false, s)
    else
      let s := { s with bitmapBytes := (s.totalPages + 7) / 8 }
      let s := { s with bitmapPhys := findBitmap pl s.bitmapBytes }
      let bitmapPages := alignUp s.bitmapBytes pageSize / pageSize
      let bitmapEnd := s.bitmapPhys + bitmapPages * pageSize
      let s := s.fillBitmap
      let s := pl.available.foldl (fun s e => s.markFreeRange e.base e.stop) s
      let s := s.markUsedRange 0 bitmapEnd
      (true, { s with scanStart := bitmapEnd / pageSize, pfaReady := true })

/-! ## Pages -/

def usedPages (s : Allocator) : UInt64 := s.totalPages - s.freePages

/-- The loop of `AllocPage`, from `page` on. -/
def allocLoop : ℕ → UInt64 → Allocator → UInt64 × Allocator
  | 0, _, s => (0, s)
  | rounds + 1, page, s =>
    if page < s.totalPages then
      if ¬ s.bitmapGet page then
        let s := s.bitmapSet page true
        (page * pageSize, { s with freePages := if s.freePages > 0 then s.freePages - 1
          else s.freePages })
      else allocLoop rounds (page + 1) s
    else (0, s)

/-- `AllocPage`; the loop leaves at `totalPages`, so that many rounds are enough. -/
def allocPage (s : Allocator) : UInt64 × Allocator :=
  if ¬ s.pfaReady then (0, s) else allocLoop s.totalPages.toNat s.scanStart s

def freePage (addr : UInt64) (s : Allocator) : Bool × Allocator :=
  if ¬ s.pfaReady then (false, s)
  else if addr % pageSize ≠ 0 then (false, s)
  else
    let page := addr / pageSize
    if page < s.scanStart ∨ page ≥ s.totalPages then (false, s)
    else if ¬ s.bitmapGet page then (false, s)
    else
      let s := s.bitmapSet page false
      (true, { s with freePages := s.freePages + 1 })

end Allocator

end DavOS.Mem
