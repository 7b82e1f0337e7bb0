import DavOS.Lib.LittleEndian
import DavOS.Lib.PackedBits
import DavOS.Mem.Allocator

/-!
# Reading the Multiboot information

Reference: `mem/multiboot.go`.

The boot loader leaves its information in memory: a total size, then tags of given sizes, one of
which is the memory map. All sizes are untrusted. The model keeps a trace of what could go wrong:
each read of memory, each store to the table and each value of the count (`ParseEvent`).

The loop over the tags may not end when addresses wrap, so it takes a number of rounds and answers
`none` when these are used up. `multiboot_parsing_safe` says that rounds enough exist.
-/

namespace DavOS.Mem

open LittleEndian (Memory load value toNat_add_of_lt toNat_add_ofNat
  toNat_add_toUInt64)

deriving instance DecidableEq, Inhabited for MMapEntry

/-! ## The functions of the package -/

def multiboot2TagTypeEnd : UInt32 := 0

def multiboot2TagTypeMmap : UInt32 := 6

def readU32 (mem : Memory) (addr : UInt64) : UInt32 := .ofNat (value (load mem addr 4))

def readU64 (mem : Memory) (addr : UInt64) : UInt64 := .ofNat (value (load mem addr 8))

def alignUp8 (p : UInt64) : UInt64 := (p + 7) &&& ~~~7

/-- An access of the parser. -/
inductive ParseEvent
  | read (addr : UInt64) (width : ℕ)
  | setCount (count : ℕ)
  | store (index : ℕ)
deriving DecidableEq

/-- The variables of the package, and what has been done so far. -/
structure MemoryMap where
  mmapEntries : Vector MMapEntry maxMMapEntries
  mmapCount : ℕ
  trace : List ParseEvent

namespace MemoryMap

def log (events : List ParseEvent) (s : MemoryMap) : MemoryMap :=
  { s with trace := s.trace ++ events }

/-- The entry that is read at an address. -/
def entryAt (mem : Memory) (ep : UInt64) : MMapEntry :=
  let base := readU64 mem ep
  let length := readU64 mem (ep + 8)
  let typ := readU32 mem (ep + 16)
  { baseLo := base.toUInt32
    baseHi := (base >>> 32).toUInt32
    lenLo := length.toUInt32
    lenHi := (length >>> 32).toUInt32
    typ }

/-- The body of the loop over the entries. -/
def readEntry (mem : Memory) (ep : UInt64) (s : MemoryMap) : MemoryMap where
  mmapEntries := s.mmapEntries.set! s.mmapCount (entryAt mem ep)
  mmapCount := s.mmapCount + 1
  trace := s.trace ++ [.read ep 8, .read (ep + 8) 8, .read (ep + 16) 4, .store s.mmapCount,
    .setCount (s.mmapCount + 1)]

/-- The loop over the entries. Each round adds one to the count, so there are at most as many as the
table has room for. -/
def readEntries (mem : Memory) (entrySize entriesEnd : UInt64) :
    ℕ → UInt64 → MemoryMap → MemoryMap
  | 0, _, s => s
  | room + 1, ep, s =>
    if ep + entrySize ≤ entriesEnd ∧ s.mmapCount < maxMMapEntries then
      readEntries mem entrySize entriesEnd room (ep + entrySize) (s.readEntry mem ep)
    else s

/-- What is done for a tag with the memory map. -/
def readMmapTag (mem : Memory) (p : UInt64) (tagSize : UInt32) (foundMmap : Bool) (s : MemoryMap) :
    Bool × MemoryMap :=
  if tagSize ≥ 16 then
    let entrySize := readU32 mem (p + 8)
    let s := s.log [.read (p + 8) 4, .read (p + 12) 4]
    if entrySize ≥ 24 then
      let s := readEntries mem entrySize.toUInt64 (p + tagSize.toUInt64)
        (maxMMapEntries - s.mmapCount) (p + 16) s
      (s.mmapCount > 0, s)
    else (foundMmap, s)
  else (foundMmap, s)

/-- The loop over the tags. -/
def readTags (mem : Memory) (stop : UInt64) :
    ℕ → UInt64 → Bool → MemoryMap → Option (Bool × MemoryMap)
  | 0, _, _, _ => none
  | rounds + 1, p, foundMmap, s =>
    if p + 8 ≤ stop then
      let tagType := readU32 mem p
      let tagSize := readU32 mem (p + 4)
      let s := s.log [.read p 4, .read (p + 4) 4]
      if tagType = multiboot2TagTypeEnd then some (foundMmap, s)
      else if tagSize < 8 ∨ p + tagSize.toUInt64 > stop then some (foundMmap, s)
      else
        let (foundMmap, s) :=
          if tagType = multiboot2TagTypeMmap then s.readMmapTag mem p tagSize foundMmap
          else (foundMmap, s)
        readTags mem stop rounds (alignUp8 (p + tagSize.toUInt64)) foundMmap s
    else some (foundMmap, s)

def initMultiboot (mem : Memory) (rounds : ℕ) (mbInfoAddr : UInt64) (s : MemoryMap) :
    Option (Bool × MemoryMap) :=
  let s := { s with mmapCount := 0 }.log [.setCount 0]
  if mbInfoAddr = 0 then some (false, s)
  else
    let totalSize := readU32 mem mbInfoAddr
    let s := s.log [.read mbInfoAddr 4]
    if totalSize < 16 then some (false, s)
    else readTags mem (mbInfoAddr + totalSize.toUInt64) rounds (mbInfoAddr + 8) false s

/-- `MMapEntry(i)` -/
def mmapEntry (s : MemoryMap) (i : ℤ) : MMapEntry :=
  if i < 0 ∨ i ≥ s.mmapCount then ⟨0, 0, 0, 0, 0⟩ else s.mmapEntries[i.toNat]!

/-! ## Addresses -/

/-- Tags are aligned to eight bytes. -/
theorem toNat_alignUp8 {p : UInt64} (h : p.toNat + 7 < 2 ^ 64) :
    (alignUp8 p).toNat = 8 * ((p.toNat + 7) / 8) := by
  have hmask : (~~~7 : UInt64).toBitVec = BitVec.allOnes 64 <<< 3 := by decide
  have hsum : (p + 7).toNat = p.toNat + 7 := by
    rw [UInt64.toNat_add, show (7 : UInt64).toNat = 7 from rfl]
    omega
  rw [alignUp8, PackedBits.toNat_and_of_mask hmask, hsum]
  rfl

/-! ## What the parser may do -/

/-- The accesses that do no harm: the bytes read are those of the total size or lie within it, and
the table has a place for what is stored. -/
def Allowed (info : UInt64) (size : ℕ) : ParseEvent → Prop
  | .read addr width => ∀ k < width, info.toNat ≤ (addr + .ofNat k).toNat ∧
      ((addr + .ofNat k).toNat < info.toNat + 4 ∨ (addr + .ofNat k).toNat < info.toNat + size)
  | .setCount count => count ≤ 64
  | .store index => index < 64

section Safety

variable (mem : Memory) {info : UInt64} {size : ℕ} {before : List ParseEvent} {s : MemoryMap}

/-- A read inside the information is allowed. -/
theorem allowed_read {addr : UInt64} {width : ℕ} (hfits : info.toNat + size < 2 ^ 64)
    (hlow : info.toNat ≤ addr.toNat) (hhigh : addr.toNat + width ≤ info.toNat + size) :
    Allowed info size (.read addr width) := by
  intro k hk
  rw [toNat_add_ofNat (by omega)]
  omega

/-- The read of the size is allowed whatever the size is. -/
theorem allowed_header (hfits : info.toNat + 4 < 2 ^ 64) :
    Allowed info size (.read info 4) := by
  intro k hk
  rw [toNat_add_ofNat (by omega)]
  omega

/-- So far only harmless accesses, and the count tells whether an entry has been stored. -/
structure Safe (info : UInt64) (size : ℕ) (before : List ParseEvent) (s : MemoryMap) : Prop where
  count_le : s.mmapCount ≤ 64
  exists_new : ∃ new, s.trace = before ++ new ∧ (∀ e ∈ new, Allowed info size e) ∧
    ((∃ i, .store i ∈ new) ↔ 0 < s.mmapCount)

/-- A state stays safe if the new events are allowed. -/
theorem Safe.extend (h : Safe info size before s) {s' : MemoryMap} {events : List ParseEvent}
    (htrace : s'.trace = s.trace ++ events) (hallowed : ∀ e ∈ events, Allowed info size e)
    (hcount : s'.mmapCount ≤ 64)
    (hstored : (∃ i, .store i ∈ events) ∨ 0 < s.mmapCount ↔ 0 < s'.mmapCount) :
    Safe info size before s' := by
  obtain ⟨new, hnew, hall, hiff⟩ := h.exists_new
  refine ⟨hcount, new ++ events, by rw [htrace, hnew, List.append_assoc], ?_, ?_⟩
  · intro e he
    exact (List.mem_append.mp he).elim (hall e) (hallowed e)
  · rw [← hstored, ← hiff, ← exists_or, exists_congr]
    intro i
    rw [List.mem_append, or_comm]

/-- Two reads. -/
theorem Safe.log (h : Safe info size before s) {a b : UInt64} {m n : ℕ}
    (ha : Allowed info size (.read a m)) (hb : Allowed info size (.read b n)) :
    Safe info size before (s.log [.read a m, .read b n]) := by
  refine h.extend rfl ?_ h.count_le (by simp [MemoryMap.log])
  intro e he
  obtain rfl | rfl : e = .read a m ∨ e = .read b n := by simpa using he
  · exact ha
  · exact hb

/-- Reading an entry inside the information is safe. -/
theorem Safe.readEntry (h : Safe info size before s) (hcount : s.mmapCount < 64) {ep : UInt64}
    (hfits : info.toNat + size < 2 ^ 64) (hlow : info.toNat ≤ ep.toNat)
    (hhigh : ep.toNat + 20 ≤ info.toNat + size) : Safe info size before (s.readEntry mem ep) := by
  have hsecond : (ep + 8).toNat = ep.toNat + 8 := toNat_add_ofNat (k := 8) (by omega)
  have hthird : (ep + 16).toNat = ep.toNat + 16 := toNat_add_ofNat (k := 16) (by omega)
  refine h.extend rfl ?_ (Nat.succ_le_of_lt hcount)
    (by simp [MemoryMap.readEntry])
  intro e he
  simp only [List.mem_cons, List.not_mem_nil, or_false] at he
  obtain rfl | rfl | rfl | rfl | rfl := he
  · exact allowed_read hfits hlow (by omega)
  · exact allowed_read hfits (by omega) (by omega)
  · exact allowed_read hfits (by omega) (by omega)
  · exact hcount
  · exact hcount

/-- The entries that are read lie in their tag, whatever their size is. -/
theorem Safe.readEntries (h : Safe info size before s) {entrySize entriesEnd : UInt64}
    (hentry : 24 ≤ entrySize.toNat) (hfits : info.toNat + size + entrySize.toNat < 2 ^ 64)
    (hend : entriesEnd.toNat ≤ info.toNat + size) (room : ℕ) {ep : UInt64}
    (hlow : info.toNat ≤ ep.toNat) (hhigh : ep.toNat ≤ entriesEnd.toNat) :
    Safe info size before (readEntries mem entrySize entriesEnd room ep s) := by
  induction room generalizing ep s with
  | zero => exact h
  | succ room ih =>
    rw [MemoryMap.readEntries]
    split
    · next hnext =>
      have hsum : (ep + entrySize).toNat = ep.toNat + entrySize.toNat :=
        toNat_add_of_lt (by omega)
      have hle := UInt64.le_iff_toNat_le.mp hnext.1
      exact ih (h.readEntry mem hnext.2 (by omega) hlow (by omega)) (by omega) hle
    · exact h

/-- Reading a memory-map tag inside the information is safe, whatever its entry size is. -/
theorem Safe.readMmapTag (h : Safe info size before s) {p : UInt64} {tagSize : UInt32}
    {foundMmap : Bool} (hfound : foundMmap = true ↔ 0 < s.mmapCount)
    (hfits : info.toNat + size + 2 ^ 32 < 2 ^ 64) (hlow : info.toNat ≤ p.toNat)
    (hhigh : p.toNat + tagSize.toNat ≤ info.toNat + size) :
    Safe info size before (s.readMmapTag mem p tagSize foundMmap).2 ∧
      ((s.readMmapTag mem p tagSize foundMmap).1 = true ↔
        0 < (s.readMmapTag mem p tagSize foundMmap).2.mmapCount) := by
  rw [MemoryMap.readMmapTag]
  by_cases hheader : tagSize ≥ 16
  swap
  · rw [if_neg hheader]
    exact ⟨h, hfound⟩
  rw [if_pos hheader]
  have hheader : 16 ≤ tagSize.toNat := UInt32.le_iff_toNat_le.mp hheader
  have hsize : (p + 8).toNat = p.toNat + 8 := toNat_add_ofNat (k := 8) (by omega)
  have hversion : (p + 12).toNat = p.toNat + 12 := toNat_add_ofNat (k := 12) (by omega)
  have hstart : (p + 16).toNat = p.toNat + 16 := toNat_add_ofNat (k := 16) (by omega)
  have hread : Safe info size before (s.log [.read (p + 8) 4, .read (p + 12) 4]) :=
    h.log (allowed_read (by omega) (by omega) (by omega))
      (allowed_read (by omega) (by omega) (by omega))
  dsimp only
  by_cases hentry : readU32 mem (p + 8) ≥ 24
  swap
  · rw [if_neg hentry]
    exact ⟨hread, hfound⟩
  rw [if_pos hentry]
  have hentry : 24 ≤ (readU32 mem (p + 8)).toNat := UInt32.le_iff_toNat_le.mp hentry
  have hlt := (readU32 mem (p + 8)).toNat_lt
  have hend : (p + tagSize.toUInt64).toNat = p.toNat + tagSize.toNat :=
    toNat_add_toUInt64 (by omega)
  refine ⟨hread.readEntries mem ?_ ?_ ?_ _ ?_ ?_, decide_eq_true_iff⟩
  · rwa [UInt32.toNat_toUInt64]
  · rw [UInt32.toNat_toUInt64]
    omega
  · omega
  · omega
  · omega

/-- The loop over the tags moves on by at least eight bytes in each round. -/
theorem Safe.readTags (h : Safe info size before s) (foundMmap : Bool)
    (hfound : foundMmap = true ↔ 0 < s.mmapCount) (hfits : info.toNat + size + 2 ^ 32 < 2 ^ 64)
    {stop : UInt64} (hstop : stop.toNat = info.toNat + size) (rounds : ℕ) (p : UInt64)
    (hlow : info.toNat ≤ p.toNat) (hhigh : p.toNat ≤ stop.toNat + 7)
    (hrounds : stop.toNat + 8 ≤ p.toNat + 8 * rounds) :
    ∃ found s', readTags mem stop rounds p foundMmap s = some (found, s') ∧
      Safe info size before s' ∧ (found = true ↔ 0 < s'.mmapCount) := by
  induction rounds generalizing p foundMmap s with
  | zero => omega
  | succ rounds ih =>
    have hnext : (p + 8).toNat = p.toNat + 8 := toNat_add_ofNat (k := 8) (by omega)
    rw [MemoryMap.readTags]
    by_cases hmore : p + 8 ≤ stop
    swap
    · rw [if_neg hmore]
      exact ⟨_, _, rfl, h, hfound⟩
    rw [if_pos hmore]
    have hmore := UInt64.le_iff_toNat_le.mp hmore
    have hfour : (p + 4).toNat = p.toNat + 4 := toNat_add_ofNat (k := 4) (by omega)
    have hread : Safe info size before (s.log [.read p 4, .read (p + 4) 4]) :=
      h.log (allowed_read (by omega) hlow (by omega))
        (allowed_read (by omega) (by omega) (by omega))
    dsimp only
    by_cases htype : readU32 mem p = multiboot2TagTypeEnd
    · rw [if_pos htype]
      exact ⟨_, _, rfl, hread, hfound⟩
    rw [if_neg htype]
    generalize htagSize : readU32 mem (p + 4) = tagSize
    by_cases hbad : tagSize < 8 ∨ p + tagSize.toUInt64 > stop
    · rw [if_pos hbad]
      exact ⟨_, _, rfl, hread, hfound⟩
    rw [if_neg hbad]
    obtain ⟨hsize, hin⟩ := not_or.mp hbad
    have hsize : 8 ≤ tagSize.toNat := UInt32.le_iff_toNat_le.mp (UInt32.not_lt.mp hsize)
    have hin := UInt64.le_iff_toNat_le.mp (UInt64.not_lt.mp hin)
    have hlt := tagSize.toNat_lt
    have hsum : (p + tagSize.toUInt64).toNat = p.toNat + tagSize.toNat :=
      toNat_add_toUInt64 (by omega)
    have halign := toNat_alignUp8 (p := p + tagSize.toUInt64) (by omega)
    by_cases hmmap : readU32 mem p = multiboot2TagTypeMmap
    · rw [if_pos hmmap]
      obtain ⟨hsafe, hiff⟩ := hread.readMmapTag mem hfound hfits hlow
        (show p.toNat + tagSize.toNat ≤ info.toNat + size by omega)
      exact ih hsafe _ hiff _ (by omega) (by omega) (by omega)
    · rw [if_neg hmmap]
      exact ih hread _ hfound _ (by omega) (by omega) (by omega)

end Safety

/-! ## Enough rounds -/

/-- One more round makes no difference to a walk that has ended. -/
theorem readTags_succ {mem : Memory} {stop p : UInt64} {rounds : ℕ} {foundMmap : Bool}
    {s : MemoryMap} {result : Bool × MemoryMap}
    (h : readTags mem stop rounds p foundMmap s = some result) :
    readTags mem stop (rounds + 1) p foundMmap s = some result := by
  induction rounds generalizing p foundMmap s with
  | zero => exact absurd h nofun
  | succ rounds ih =>
    rw [readTags] at h ⊢
    split at h
    · next hmore =>
      rw [if_pos hmore]
      dsimp only at h ⊢
      split at h
      · next htype => rwa [if_pos htype]
      · next htype =>
        rw [if_neg htype]
        split at h
        · next hbad => rwa [if_pos hbad]
        · next hbad =>
          rw [if_neg hbad]
          exact ih h
    · next hmore => rwa [if_neg hmore]

/-- Nor do more rounds. -/
theorem readTags_of_le {mem : Memory} {stop p : UInt64} {rounds rounds' : ℕ} {foundMmap : Bool}
    {s : MemoryMap} {result : Bool × MemoryMap}
    (h : readTags mem stop rounds p foundMmap s = some result) (hle : rounds ≤ rounds') :
    readTags mem stop rounds' p foundMmap s = some result := by
  induction hle with
  | refl => exact h
  | step _ ih => exact readTags_succ ih

/-- The state before the first tag is safe. -/
theorem safe_start (info : UInt64) (size : ℕ) (s : MemoryMap) :
    Safe info size s.trace ({ s with mmapCount := 0 }.log [.setCount 0]) := by
  refine ⟨Nat.zero_le _, [.setCount 0], rfl, ?_, ?_⟩
  · intro e he
    rw [List.mem_singleton.mp he]
    exact Nat.zero_le _
  · simp [log]

/-- `initMultiboot` ends, after rounds enough. -/
theorem initMultiboot_safe (mem : Memory) (info : UInt64) (s : MemoryMap)
    (h : info.toNat + (readU32 mem info).toNat + 2 ^ 32 < 2 ^ 64) :
    ∃ enough found s', (∀ rounds ≥ enough,
        initMultiboot mem rounds info s = some (found, s')) ∧
      Safe info (readU32 mem info).toNat s.trace s' ∧ (found = true ↔ 0 < s'.mmapCount) := by
  have hstart := safe_start info (readU32 mem info).toNat s
  simp only [initMultiboot]
  by_cases hnull : info = 0
  · simp only [if_pos hnull]
    exact ⟨0, _, _, fun _ _ => rfl, hstart, by simp [log]⟩
  simp only [if_neg hnull]
  have hread : Safe info (readU32 mem info).toNat s.trace
      (({ s with mmapCount := 0 }.log [.setCount 0]).log [.read info 4]) := by
    refine hstart.extend rfl ?_ hstart.count_le (by simp [log])
    intro e he
    rw [List.mem_singleton.mp he]
    exact allowed_header (by omega)
  by_cases hsmall : readU32 mem info < 16
  · simp only [if_pos hsmall]
    exact ⟨0, _, _, fun _ _ => rfl, hread, by simp [log]⟩
  simp only [if_neg hsmall]
  have hsmall : 16 ≤ (readU32 mem info).toNat :=
    UInt32.le_iff_toNat_le.mp (UInt32.not_lt.mp hsmall)
  have hstop : (info + (readU32 mem info).toUInt64).toNat =
      info.toNat + (readU32 mem info).toNat := toNat_add_toUInt64 (by omega)
  have hfirst : (info + 8).toNat = info.toNat + 8 := toNat_add_ofNat (k := 8) (by omega)
  obtain ⟨found, s', hrun, hsafe, hfound⟩ := hread.readTags mem
    false (by simp [log]) h hstop (readU32 mem info).toNat (info + 8) (by omega) (by omega)
    (by omega)
  exact ⟨_, found, s', fun rounds hle => readTags_of_le hrun hle, hsafe, hfound⟩

/-- **Parsing is safe on any bytes.** For every memory, every address of the information and every
total size with room behind it, `initMultiboot` ends. It reads bytes of the information only, the
count is at most 64 throughout, nothing is stored outside the table, and the answer says whether an
entry was stored. -/
theorem multiboot_parsing_safe (mem : Memory) (info : UInt64) (s : MemoryMap)
    (h : info.toNat + (readU32 mem info).toNat + 2 ^ 32 < 2 ^ 64) :
    ∃ enough found s' new, (∀ rounds ≥ enough,
        initMultiboot mem rounds info s = some (found, s')) ∧
      s'.trace = s.trace ++ new ∧
      (∀ addr width, .read addr width ∈ new → ∀ k < width,
        let byte := (addr + .ofNat k).toNat
        info.toNat ≤ byte ∧ (byte < info.toNat + 4 ∨
          byte < info.toNat + (readU32 mem info).toNat)) ∧
      (∀ count, .setCount count ∈ new → count ≤ 64) ∧ (∀ i, .store i ∈ new → i < 64) ∧
      (found = true ↔ ∃ i, .store i ∈ new) := by
  obtain ⟨enough, found, s', hrun, ⟨-, new, htrace, hallowed, hstored⟩, hfound⟩ :=
    initMultiboot_safe mem info s h
  refine ⟨enough, found, s', new, hrun, htrace, ?_, ?_, ?_, hfound.trans hstored.symm⟩
  · exact fun addr width hread => hallowed _ hread
  · exact fun count hset => hallowed _ hset
  · exact fun i hstore => hallowed _ hstore

/-- More rounds do not matter. -/
theorem initMultiboot_of_le {mem : Memory} {info : UInt64} {rounds rounds' : ℕ} {s : MemoryMap}
    {result : Bool × MemoryMap} (h : initMultiboot mem rounds info s = some result)
    (hle : rounds ≤ rounds') : initMultiboot mem rounds' info s = some result := by
  rw [initMultiboot] at h ⊢
  dsimp only at h ⊢
  split_ifs at h ⊢ with hnull hsmall
  · exact h
  · exact h
  · exact readTags_of_le h hle

def emptyMap : MemoryMap := ⟨Vector.replicate _ ⟨0, 0, 0, 0, 0⟩, 0, []⟩

/-- A memory map with one entry at address 16. Everything else, the total size too, is as large as
it can be. -/
def largeMemory : Memory := fun a =>
  if a.toNat < 16 then 0xFF
  else [6, 0, 0, 0, 40, 0, 0, 0, 24, 0, 0, 0].getD (a.toNat - 16) 0xFF

/-- The entry is stored, and the tag behind it does not fit. -/
theorem largest_sizes_parsed :
    (readU32 largeMemory 8).toNat = 2 ^ 32 - 1 ∧
    ∃ enough s' new,
      (∀ rounds ≥ enough, initMultiboot largeMemory rounds 8 emptyMap = some (true, s')) ∧
      s'.trace = [] ++ new ∧ (∃ i, .store i ∈ new) ∧ ∀ i, .store i ∈ new → i < 64 := by
  have hfound : (initMultiboot largeMemory 2 8 emptyMap).map Prod.fst = some true := by decide
  obtain ⟨⟨-, s₂⟩, hrun₂, rfl⟩ := Option.map_eq_some_iff.mp hfound
  obtain ⟨enough, found, s', new, hrun, htrace, -, -, hstore, hstored⟩ :=
    multiboot_parsing_safe largeMemory 8 emptyMap (by decide)
  have hsame := (hrun _ (Nat.le_add_right enough 2)).symm.trans
    (initMultiboot_of_le hrun₂ (Nat.le_add_left 2 enough))
  cases hsame
  exact ⟨by decide, enough, s₂, new, hrun, htrace, hstored.mp rfl, hstore⟩

end MemoryMap

end DavOS.Mem
