import DavOS.Lib.CopyLoop
import DavOS.Mem.Multiboot

/-!
# The memory map that the boot loader leaves

The information as it is laid out in memory: the total size, then tags that are padded to eight
bytes each, up to the end tag. `memory_map_recovered` says that parsing gives back the entries of
the memory maps among them, in order, as far as the table has room.
-/

namespace DavOS.Mem

open LittleEndian (Memory bytes length_bytes Holds holds_append placed holds_placed toNat_add_of_lt
  toNat_add_ofNat toNat_add_toUInt64)

/-! ## The layout -/

/-- An entry of a memory map. -/
structure Region where
  base : UInt64
  length : UInt64
  typ : UInt32
  /-- What fills the entry up to its size. -/
  rest : List UInt8

namespace Region

def encode (r : Region) : List UInt8 :=
  bytes 8 r.base.toNat ++ bytes 8 r.length.toNat ++ bytes 4 r.typ.toNat ++ r.rest

/-- The entry in halves, as the package stores it. -/
def entry (r : Region) : MMapEntry where
  baseLo := r.base.toUInt32
  baseHi := (r.base >>> 32).toUInt32
  lenLo := r.length.toUInt32
  lenHi := (r.length >>> 32).toUInt32
  typ := r.typ

end Region

structure MapTag where
  entrySize : UInt32
  entryVersion : UInt32
  regions : List Region
  le_entrySize : 24 ≤ entrySize.toNat
  length_encode : ∀ r ∈ regions, r.encode.length = entrySize.toNat

structure OtherTag where
  typ : UInt32
  contents : List UInt8
  typ_ne_end : typ ≠ multiboot2TagTypeEnd
  typ_ne_mmap : typ ≠ multiboot2TagTypeMmap

inductive Tag
  | map (t : MapTag)
  | other (t : OtherTag)

namespace Tag

def typ : Tag → UInt32
  | map _ => multiboot2TagTypeMmap
  | other t => t.typ

/-- What follows the type and the size of the tag. -/
def body : Tag → List UInt8
  | map t => bytes 4 t.entrySize.toNat ++ bytes 4 t.entryVersion.toNat ++
      t.regions.flatMap Region.encode
  | other t => t.contents

def regions : Tag → List Region
  | map t => t.regions
  | other _ => []

def size (t : Tag) : ℕ := 8 + t.body.length

def encode (t : Tag) : List UInt8 := bytes 4 t.typ.toNat ++ bytes 4 t.size ++ t.body

def paddedSize (t : Tag) : ℕ := 8 * ((t.size + 7) / 8)

end Tag

/-- The tags stand from an address on, with any bytes in between, and the end tag follows. -/
def TagsAt (mem : Memory) : UInt64 → List Tag → Prop
  | p, [] => Holds mem p (bytes 4 multiboot2TagTypeEnd.toNat ++ bytes 4 8)
  | p, t :: tags => Holds mem p t.encode ∧ TagsAt mem (p + .ofNat t.paddedSize) tags

def tagsSize (tags : List Tag) : ℕ := (tags.map Tag.paddedSize).sum

def totalSize (tags : List Tag) : ℕ := 8 + tagsSize tags + 8

/-- The information stands at an address. The second word of its header may be anything. -/
structure LaidOut (mem : Memory) (info : UInt64) (tags : List Tag) : Prop where
  header : Holds mem info (bytes 4 (totalSize tags))
  tagsAt : TagsAt mem (info + 8) tags

/-- The tags with zeros between them, and the end tag. -/
def encodeTags : List Tag → List UInt8
  | [] => bytes 4 multiboot2TagTypeEnd.toNat ++ bytes 4 8
  | t :: tags => t.encode ++ List.replicate (t.paddedSize - t.size) 0 ++ encodeTags tags

/-- The information as one string, as `buildMultibootBuffer` of the tests builds it. -/
def encodeInformation (tags : List Tag) : List UInt8 :=
  bytes 4 (totalSize tags) ++ bytes 4 0 ++ encodeTags tags

/-- Memory that holds encoded tags holds each of them at its place. -/
theorem tagsAt_of_holds {mem : Memory} {p : UInt64} {tags : List Tag}
    (h : Holds mem p (encodeTags tags)) : TagsAt mem p tags := by
  induction tags generalizing p with
  | nil => exact h
  | cons t tags ih =>
    have hlength : (t.encode ++ List.replicate (t.paddedSize - t.size) 0).length =
        t.paddedSize := by
      have hle : t.size ≤ t.paddedSize := by
        rw [Tag.paddedSize]
        omega
      have hencode : t.encode.length = t.size := by
        simp only [Tag.encode, Tag.size, List.length_append, length_bytes]
      rw [List.length_append, hencode, List.length_replicate, Nat.add_sub_cancel' hle]
    rw [encodeTags, holds_append, holds_append, hlength] at h
    exact ⟨h.1.1, ih h.2⟩

/-- Memory that holds the encoded information has its header and its tags. -/
theorem laidOut_of_holds {mem : Memory} {info : UInt64} {tags : List Tag}
    (h : Holds mem info (encodeInformation tags)) : LaidOut mem info tags := by
  simp only [encodeInformation, holds_append, List.length_append, length_bytes] at h
  exact ⟨h.1.1, tagsAt_of_holds h.2⟩

/-! ## Reading what was written -/

section Read

variable {mem : Memory} {a : UInt64}

/-- A number of four bytes is read back. -/
theorem toNat_readU32 {v : ℕ} (h : Holds mem a (bytes 4 v)) (hv : v < 2 ^ 32) :
    (readU32 mem a).toNat = v := by
  rw [readU32, h.value_load hv, UInt32.toNat_ofNat_of_lt' hv]

/-- A word of four bytes is read back. -/
theorem readU32_eq {v : UInt32} (h : Holds mem a (bytes 4 v.toNat)) : readU32 mem a = v := by
  rw [← UInt32.toNat_inj, toNat_readU32 h v.toNat_lt]

/-- A word of eight bytes is read back. -/
theorem readU64_eq {v : UInt64} (h : Holds mem a (bytes 8 v.toNat)) : readU64 mem a = v := by
  rw [readU64, h.value_load v.toNat_lt, UInt64.ofNat_toNat]

/-- An encoded region is read back as an entry. -/
theorem entryAt_eq {r : Region} (h : Holds mem a r.encode) : MemoryMap.entryAt mem a = r.entry := by
  simp only [Region.encode, holds_append, List.length_append, length_bytes] at h
  obtain ⟨⟨⟨hbase, hlength⟩, htyp⟩, -⟩ := h
  have hbase := readU64_eq hbase
  have hlength : readU64 mem (a + 8) = r.length := readU64_eq hlength
  have htyp : readU32 mem (a + 16) = r.typ := readU32_eq htyp
  rw [MemoryMap.entryAt, hbase, hlength, htyp]
  rfl

end Read

/-! ## The loops -/

namespace MemoryMap

variable {mem : Memory} {s : MemoryMap}

/-- What the table holds. -/
def stored (s : MemoryMap) : List MMapEntry := s.mmapEntries.toList.take s.mmapCount

/-- The number of stored entries is the count. -/
theorem length_stored (h : s.mmapCount ≤ 64) : s.stored.length = s.mmapCount := by
  rw [stored, List.length_take, Vector.length_toList, min_eq_left h]

/-- One more entry is stored at the end. -/
theorem stored_readEntry (h : s.mmapCount < 64) (ep : UInt64) :
    (s.readEntry mem ep).stored = s.stored ++ [entryAt mem ep] :=
  CopyLoop.take_set!_succ s.mmapEntries h _

/-- Cutting a list before it is extended makes no difference to what is cut afterwards. -/
theorem take_take_append {α : Type*} (l l' : List α) (n : ℕ) :
    (l.take n ++ l').take n = (l ++ l').take n := by
  rw [List.take_append, List.take_append, List.take_take, min_self, List.length_take]
  congr 2
  omega

section Entries

variable (entrySize entriesEnd : UInt64) {ep : UInt64}

/-- The loop over the entries ends behind the tag or when the table is full. -/
theorem readEntries_stop (h : ¬(ep + entrySize ≤ entriesEnd ∧ s.mmapCount < maxMMapEntries))
    (room : ℕ) : readEntries mem entrySize entriesEnd room ep s = s := by
  cases room with
  | zero => rfl
  | succ room => rw [readEntries, if_neg h]

/-- One round of the loop. -/
theorem readEntries_step (h : ep + entrySize ≤ entriesEnd) (hcount : s.mmapCount < 64) :
    readEntries mem entrySize entriesEnd (64 - s.mmapCount) ep s =
      readEntries mem entrySize entriesEnd (64 - (s.readEntry mem ep).mmapCount) (ep + entrySize)
        (s.readEntry mem ep) := by
  have hroom : 64 - s.mmapCount = 64 - (s.mmapCount + 1) + 1 := by omega
  rw [hroom, readEntries, if_pos ⟨h, hcount⟩]
  rfl

/-- The loop over the entries stores them in order, as far as there is room. -/
theorem stored_readEntries {regions : List Region} (hcount : s.mmapCount ≤ 64)
    (hlength : ∀ r ∈ regions, r.encode.length = entrySize.toNat) (hpos : 0 < entrySize.toNat)
    (hholds : Holds mem ep (regions.flatMap Region.encode))
    (hend : entriesEnd.toNat = ep.toNat + regions.length * entrySize.toNat)
    (hfits : entriesEnd.toNat + entrySize.toNat < 2 ^ 64) :
    (readEntries mem entrySize entriesEnd (64 - s.mmapCount) ep s).stored =
        (s.stored ++ regions.map Region.entry).take 64 ∧
      (readEntries mem entrySize entriesEnd (64 - s.mmapCount) ep s).mmapCount ≤ 64 := by
  have hsum : (ep + entrySize).toNat = ep.toNat + entrySize.toNat := toNat_add_of_lt (by omega)
  induction regions generalizing ep s with
  | nil =>
    rw [readEntries_stop entrySize entriesEnd, List.map_nil, List.append_nil,
      List.take_of_length_le]
    · exact ⟨rfl, hcount⟩
    · rw [length_stored hcount]
      exact hcount
    · rintro ⟨hle, -⟩
      rw [UInt64.le_iff_toNat_le, hsum, hend, List.length_nil] at hle
      omega
  | cons r regions ih =>
    rw [List.length_cons, Nat.succ_mul] at hend
    by_cases hfull : s.mmapCount < 64
    swap
    · rw [readEntries_stop entrySize entriesEnd fun h => hfull h.2, List.take_append_of_le_length,
        List.take_of_length_le]
      · exact ⟨rfl, hcount⟩
      · rw [length_stored hcount]
        exact hcount
      · rw [length_stored hcount]
        omega
    rw [List.flatMap_cons, holds_append, hlength r (List.mem_cons_self ..),
      UInt64.ofNat_toNat] at hholds
    have hle : ep + entrySize ≤ entriesEnd := by
      rw [UInt64.le_iff_toNat_le, hsum, hend]
      omega
    have hnext := ih (s := s.readEntry mem ep) hfull
      (fun r hr => hlength r (List.mem_cons_of_mem _ hr)) hholds.2 (by omega)
      (toNat_add_of_lt (by omega))
    rw [readEntries_step entrySize entriesEnd hle hfull, hnext.1, stored_readEntry hfull,
      entryAt_eq hholds.1, List.append_assoc]
    exact ⟨rfl, hnext.2⟩

end Entries

section Tags

variable {p : UInt64} {foundMmap : Bool}

/-- The table holds some entries, and the answer so far says whether there are any. -/
structure Found (foundMmap : Bool) (s : MemoryMap) (entries : List MMapEntry) : Prop where
  stored : s.stored = entries.take 64
  count_le : s.mmapCount ≤ 64
  found_iff : foundMmap = true ↔ 0 < s.mmapCount

/-- A memory-map tag adds its regions, as far as there is room. -/
theorem found_readMmapTag {t : MapTag} {entries : List MMapEntry} (h : Found foundMmap s entries)
    (hholds : Holds mem p (Tag.map t).encode) {tagSize : UInt32}
    (hsize : tagSize.toNat = (Tag.map t).size)
    (hfits : p.toNat + (Tag.map t).size + 2 ^ 32 ≤ 2 ^ 64) :
    Found (s.readMmapTag mem p tagSize foundMmap).1 (s.readMmapTag mem p tagSize foundMmap).2
      (entries ++ t.regions.map Region.entry) := by
  have hlength : (t.regions.flatMap Region.encode).length =
      t.regions.length * t.entrySize.toNat := by
    rw [List.length_flatMap, List.map_congr_left t.length_encode, List.map_const',
      List.sum_replicate_nat]
  have hbody : (Tag.map t).size = 16 + t.regions.length * t.entrySize.toNat := by
    rw [Tag.size, Tag.body, List.length_append, List.length_append, length_bytes, length_bytes,
      hlength]
    omega
  simp only [Tag.encode, Tag.body, holds_append, List.length_append, length_bytes] at hholds
  obtain ⟨-, ⟨hentry, -⟩, hregions⟩ := hholds
  have hentry : readU32 mem (p + 8) = t.entrySize := readU32_eq hentry
  have hregions : Holds mem (p + 16) (t.regions.flatMap Region.encode) := by
    rw [show p + 16 = p + 8 + 8 by rw [UInt64.add_assoc]; rfl]
    exact hregions
  have hle := t.le_entrySize
  have hlt := t.entrySize.toNat_lt
  have hstart : (p + 16).toNat = p.toNat + 16 := toNat_add_ofNat (k := 16) (by omega)
  have hend : (p + tagSize.toUInt64).toNat = p.toNat + (Tag.map t).size := by
    rw [toNat_add_toUInt64 (by omega), hsize]
  have hentrySize : t.entrySize.toUInt64.toNat = t.entrySize.toNat := UInt32.toNat_toUInt64 _
  have hheader : 16 ≤ tagSize := by
    rw [UInt32.le_iff_toNat_le, hsize, hbody]
    exact Nat.le_add_right ..
  obtain ⟨hstored, hcount⟩ := stored_readEntries t.entrySize.toUInt64 (p + tagSize.toUInt64)
    (s := s.log [.read (p + 8) 4, .read (p + 12) 4]) h.count_le
    (hentrySize ▸ t.length_encode) (by omega) hregions (by rw [hentrySize]; omega) (by omega)
  rw [readMmapTag, if_pos hheader]
  dsimp only
  rw [hentry, if_pos (show 24 ≤ t.entrySize from UInt32.le_iff_toNat_le.mpr hle)]
  refine ⟨?_, hcount, decide_eq_true_iff⟩
  have hbefore : (s.log [.read (p + 8) 4, .read (p + 12) 4]).stored = entries.take 64 := h.stored
  rw [hbefore, take_take_append] at hstored
  exact hstored

/-- What is logged does not matter. -/
theorem Found.log {entries : List MMapEntry} (h : Found foundMmap s entries)
    (events : List ParseEvent) : Found foundMmap (s.log events) entries :=
  ⟨h.stored, h.count_le, h.found_iff⟩

/-- What is read at the beginning of a tag. -/
theorem readTags_tag {t : Tag} (hholds : Holds mem p t.encode) {stop : UInt64} (rounds : ℕ)
    (halign : 8 ∣ p.toNat) (hsize : t.size < 2 ^ 32) (hin : p.toNat + t.paddedSize + 8 ≤ stop.toNat)
    (hfits : stop.toNat + 2 ^ 32 ≤ 2 ^ 64) :
    readTags mem stop (rounds + 1) p foundMmap s =
      let s := s.log [.read p 4, .read (p + 4) 4]
      let (foundMmap, s) :=
        if t.typ = multiboot2TagTypeMmap then s.readMmapTag mem p (.ofNat t.size) foundMmap
        else (foundMmap, s)
      readTags mem stop rounds (p + .ofNat t.paddedSize) foundMmap s := by
  have hpadded : t.paddedSize = 8 * ((t.size + 7) / 8) := rfl
  have hle : 8 ≤ t.size := Nat.le_add_right ..
  have hend : t.typ ≠ multiboot2TagTypeEnd := by
    cases t with
    | map t => exact show multiboot2TagTypeMmap ≠ multiboot2TagTypeEnd by decide
    | other t => exact t.typ_ne_end
  simp only [Tag.encode, holds_append, length_bytes] at hholds
  obtain ⟨⟨htype, htagSize⟩, -⟩ := hholds
  have htype := readU32_eq htype
  have htoNat : (UInt32.ofNat t.size).toNat = t.size := UInt32.toNat_ofNat_of_lt' hsize
  have htagSize : readU32 mem (p + 4) = .ofNat t.size := by
    rw [← UInt32.toNat_inj, htoNat]
    exact toNat_readU32 htagSize hsize
  have hmore : p + 8 ≤ stop := by
    have hnext : (p + 8).toNat = p.toNat + 8 := toNat_add_ofNat (k := 8) (by omega)
    rw [UInt64.le_iff_toNat_le, hnext]
    omega
  have hsum : (p + (UInt32.ofNat t.size).toUInt64).toNat = p.toNat + t.size := by
    rw [toNat_add_toUInt64 (by omega), htoNat]
  have hgood : ¬((UInt32.ofNat t.size) < 8 ∨ p + (UInt32.ofNat t.size).toUInt64 > stop) := by
    rw [not_or, UInt32.not_lt, UInt32.le_iff_toNat_le, htoNat, gt_iff_lt, UInt64.not_lt,
      UInt64.le_iff_toNat_le, hsum]
    exact ⟨hle, by omega⟩
  have hnext : alignUp8 (p + (UInt32.ofNat t.size).toUInt64) = p + .ofNat t.paddedSize := by
    rw [← UInt64.toNat_inj, toNat_alignUp8 (by omega), hsum, toNat_add_ofNat (by omega)]
    omega
  rw [readTags, if_pos hmore]
  dsimp only
  rw [htype, htagSize, if_neg hend, if_neg hgood, hnext]

/-- The loop over the tags finds the entries of all memory maps. -/
theorem readTags_laidOut {tags : List Tag} {entries : List MMapEntry}
    (h : Found foundMmap s entries) (htags : TagsAt mem p tags) (halign : 8 ∣ p.toNat)
    {stop : UInt64} (hstop : stop.toNat = p.toNat + tagsSize tags + 8)
    (hsize : tagsSize tags < 2 ^ 32) (hfits : stop.toNat + 2 ^ 32 ≤ 2 ^ 64) {rounds : ℕ}
    (hrounds : tags.length < rounds) :
    ∃ found s', readTags mem stop rounds p foundMmap s = some (found, s') ∧
      Found found s' (entries ++ (tags.flatMap Tag.regions).map Region.entry) := by
  induction tags generalizing p foundMmap s entries rounds with
  | nil =>
    obtain ⟨rounds, rfl⟩ := Nat.exists_eq_add_of_lt hrounds
    rw [TagsAt, holds_append] at htags
    have hend : p + 8 ≤ stop := by
      have hnext : (p + 8).toNat = p.toNat + 8 := toNat_add_ofNat (k := 8) (by omega)
      rw [UInt64.le_iff_toNat_le, hnext]
      omega
    rw [readTags, if_pos hend]
    dsimp only
    rw [if_pos (readU32_eq htags.1), List.flatMap_nil, List.map_nil, List.append_nil]
    exact ⟨_, _, rfl, h.log _⟩
  | cons t tags ih =>
    obtain ⟨rounds, rfl⟩ := Nat.exists_eq_succ_of_ne_zero (Nat.ne_zero_of_lt hrounds)
    obtain ⟨hholds, htags⟩ := htags
    have hcons : tagsSize (t :: tags) = t.paddedSize + tagsSize tags := List.sum_cons
    have hpadded : t.paddedSize = 8 * ((t.size + 7) / 8) := rfl
    have hnext : (p + .ofNat t.paddedSize).toNat = p.toNat + t.paddedSize :=
      toNat_add_ofNat (by omega)
    rw [readTags_tag hholds rounds halign (by omega) (by omega) hfits, List.flatMap_cons,
      List.map_append, ← List.append_assoc]
    dsimp only
    generalize hstep : (if t.typ = multiboot2TagTypeMmap then _ else _) = step
    obtain ⟨found, s'⟩ := step
    refine ih ?_ htags (by omega) (by omega) (by omega) (Nat.lt_of_succ_lt_succ hrounds)
    cases t with
    | map t =>
      have hsize : (Tag.map t).size < 2 ^ 32 := by omega
      have htag := found_readMmapTag (h.log [.read p 4, .read (p + 4) 4]) hholds
        (UInt32.toNat_ofNat_of_lt' hsize) (by omega)
      rw [if_pos (show (Tag.map t).typ = multiboot2TagTypeMmap from rfl)] at hstep
      rwa [hstep] at htag
    | other t =>
      rw [if_neg (show (Tag.other t).typ ≠ multiboot2TagTypeMmap from t.typ_ne_mmap)] at hstep
      cases hstep
      rw [Tag.regions, List.map_nil, List.append_nil]
      exact h.log _

end Tags

/-- The accessor returns the regions in their order. -/
theorem mmapEntry_eq {entries : List MMapEntry} {foundMmap : Bool} (h : Found foundMmap s entries)
    {i : ℕ} (hi : i < entries.length) (hroom : i < 64) : s.mmapEntry i = entries[i] := by
  have hcount : i < s.mmapCount := by
    rw [← length_stored h.count_le, h.stored, List.length_take]
    omega
  have hget : s.stored[i]? = some s.mmapEntries[i]! := by
    rw [stored, List.getElem?_take_of_lt hcount, Vector.getElem?_toList,
      getElem?_pos s.mmapEntries i hroom, getElem!_pos s.mmapEntries i hroom]
  rw [h.stored, List.getElem?_take_of_lt hroom, List.getElem?_eq_getElem hi,
    Option.some_inj] at hget
  rw [mmapEntry, if_neg (by omega), hget, Int.toNat_natCast]

/-- **Parsing recovers the memory map.** For information at an address that is not null, with room
behind it, the table then holds the first 64 entries of the memory maps, in halves and in order, and
the answer says whether there are any. What the table held before does not matter. -/
theorem memory_map_recovered (mem : Memory) (info : UInt64) (tags : List Tag) (s : MemoryMap)
    (hinfo : info ≠ 0) (halign : 8 ∣ info.toNat) (hsize : totalSize tags < 2 ^ 32)
    (hfits : info.toNat + totalSize tags + 2 ^ 32 ≤ 2 ^ 64) (h : LaidOut mem info tags) :
    let regions := tags.flatMap Tag.regions
    ∃ enough found s', (∀ rounds ≥ enough, initMultiboot mem rounds info s = some (found, s')) ∧
      s'.mmapCount = min 64 regions.length ∧
      (∀ i (hi : i < regions.length), i < 64 → s'.mmapEntry i = (regions[i]).entry) ∧
      (found = true ↔ regions ≠ []) := by
  intro regions
  have htotal : totalSize tags = tagsSize tags + 16 := by
    rw [totalSize]
    omega
  have hread : (readU32 mem info).toNat = totalSize tags := toNat_readU32 h.header hsize
  have hlarge : ¬readU32 mem info < 16 := by
    rw [UInt32.not_lt, UInt32.le_iff_toNat_le, hread, htotal]
    exact Nat.le_add_left ..
  have hfirst : (info + 8).toNat = info.toNat + 8 := toNat_add_ofNat (k := 8) (by omega)
  have hstop : (info + (readU32 mem info).toUInt64).toNat =
      (info + 8).toNat + tagsSize tags + 8 := by
    rw [toNat_add_toUInt64 (by omega), hread]
    omega
  have hempty : Found false (({ s with mmapCount := 0 }.log [.setCount 0]).log [.read info 4]) [] :=
    ⟨rfl, Nat.zero_le _, by simp [log]⟩
  obtain ⟨found, s', hrun, hfound⟩ := readTags_laidOut hempty h.tagsAt (by omega) hstop
    (by omega) (by omega) (Nat.lt_succ_self _)
  rw [List.nil_append] at hfound
  have hcount : s'.mmapCount = min 64 regions.length := by
    rw [← length_stored hfound.count_le, hfound.stored, List.length_take, List.length_map]
  refine ⟨tags.length + 1, found, s', ?_, hcount, ?_, ?_⟩
  · intro rounds hle
    rw [initMultiboot]
    dsimp only
    rw [if_neg hinfo, if_neg hlarge]
    exact readTags_of_le hrun hle
  · intro i hi hroom
    rw [mmapEntry_eq hfound (by rwa [List.length_map]) hroom, List.getElem_map]
  · rw [hfound.found_iff, hcount, ← List.length_pos_iff]
    omega

def bootRegion : Region := ⟨0x100000, 0x7EE0000, 1, [0, 0, 0, 0]⟩

/-- A tag of eleven bytes, and a memory map with one entry. -/
def bootTags : List Tag :=
  [.other ⟨1, [0x61, 0x62, 0], by decide, by decide⟩,
    .map ⟨24, 0, [bootRegion], by decide, by decide⟩]

/-- The other tag is skipped with its padding. -/
theorem one_region_recovered :
    ∃ enough found s', (∀ rounds ≥ enough,
        initMultiboot (placed 8 (encodeInformation bootTags)) rounds 8 emptyMap =
          some (found, s')) ∧
      s'.mmapCount = 1 ∧ s'.mmapEntry 0 = ⟨0x100000, 0, 0x7EE0000, 0, 1⟩ ∧ found = true := by
  obtain ⟨enough, found, s', hrun, hcount, hentry, hfound⟩ := memory_map_recovered
    (placed 8 (encodeInformation bootTags)) 8 bootTags emptyMap (by decide) (by decide) (by decide)
    (by decide) (laidOut_of_holds (holds_placed 8 (by decide)))
  exact ⟨enough, found, s', hrun, hcount, (hentry 0 (by decide) (by decide)).trans (by decide),
    hfound.mpr nofun⟩

/-- Information at the null address is laid out like any other, and is not read. -/
theorem null_information_ignored :
    LaidOut (placed 0 (encodeInformation bootTags)) 0 bootTags ∧ 8 ∣ (0 : UInt64).toNat ∧
    (bootTags.flatMap Tag.regions).length = 1 ∧
    ∀ rounds, ∃ s', initMultiboot (placed 0 (encodeInformation bootTags)) rounds 0 emptyMap =
      some (false, s') ∧ s'.mmapCount = 0 :=
  ⟨laidOut_of_holds (holds_placed 0 (by decide)), by decide, by decide, fun _ => ⟨_, rfl, rfl⟩⟩

/-- A memory map without entries, whose entries would be as large as they can be. -/
def sparseTags : List Tag := [.map ⟨0xFFFFFFFF, 0, [], by decide, by decide⟩]

/-- At the top of the address space the end of an entry wraps around, and the table is filled with
entries that are not there. -/
theorem wrapped_information_misread :
    let info : UInt64 := 0xFFFFFFFEFFFFFFF0
    LaidOut (placed info (encodeInformation sparseTags)) info sparseTags ∧ info ≠ 0 ∧
    8 ∣ info.toNat ∧ totalSize sparseTags < 2 ^ 32 ∧ info.toNat + totalSize sparseTags < 2 ^ 64 ∧
    sparseTags.flatMap Tag.regions = [] ∧
    (initMultiboot (placed info (encodeInformation sparseTags)) 3 info emptyMap).map
      (fun result => (result.1, result.2.mmapCount)) = some (true, 64) :=
  ⟨laidOut_of_holds (holds_placed _ (by decide)), by decide, by decide, by decide, by decide, rfl,
    by decide⟩

end MemoryMap

end DavOS.Mem
