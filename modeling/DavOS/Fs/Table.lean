import Mathlib.Data.Fintype.Basic
import Mathlib.Data.List.FinRange
import Mathlib.Logic.Function.Basic
import Mathlib.Tactic.Linarith

/-!
# The in-memory file system

Reference: `fs/fs.go`.

A table of 32 entries; the data of a file is one page, addressed directly. The allocator and the
memory are behind `Machine`, since the allocator keeps its bitmap in the same memory.
-/

namespace DavOS.Fs

abbrev maxFiles : ℕ := 32

abbrev maxName : ℕ := 16

abbrev pageSize : UInt32 := 4096

/-- `[maxName]byte` -/
abbrev NameArray := Fin maxName → UInt8

structure FileEntry where
  used : Bool
  nameLen : UInt8
  name : NameArray
  size : UInt64
  page : UInt64

/-- The page allocator and the memory, over their state. -/
structure Machine (τ : Type) where
  pfaReady : τ → Bool
  allocPage : τ → UInt64 × τ
  freePage : UInt64 → τ → Bool × τ
  load : τ → UInt64 → UInt8
  store : UInt64 → UInt8 → τ → τ

structure FileSystem (τ : Type) where
  files : Fin maxFiles → FileEntry
  machine : τ

/-- The loop of `Write` that copies the data into the page, byte by byte. -/
def copyBytes {τ : Type} (M : Machine τ) (dst src : UInt64) (n : ℕ) (m : τ) : τ :=
  (List.range n).foldl
    (fun m i => M.store (dst + UInt64.ofNat i) (M.load m (src + UInt64.ofNat i)) m) m

/-- The last byte is copied last. -/
theorem copyBytes_succ {τ : Type} (M : Machine τ) (dst src : UInt64) (n : ℕ) (m : τ) :
    copyBytes M dst src (n + 1) m =
      M.store (dst + UInt64.ofNat n) (M.load (copyBytes M dst src n m) (src + UInt64.ofNat n))
        (copyBytes M dst src n m) := by
  rw [copyBytes, List.range_succ, List.foldl_append]
  rfl

def copyName (dst : FileEntry) (src : NameArray) (nameLen : ℤ) : FileEntry :=
  { dst with
    nameLen := UInt8.ofNat nameLen.toNat
    name := fun j => if (j : ℤ) < nameLen then src j else 0 }

/-- The test of `findByName`. -/
def FileEntry.hasName (e : FileEntry) (name : NameArray) (nameLen : ℤ) : Bool :=
  e.used ∧ (e.nameLen.toNat : ℤ) = nameLen ∧
    ∀ j : Fin maxName, (j : ℤ) < nameLen → e.name j = name j

namespace FileSystem

variable {τ : Type} (M : Machine τ)

/-- `Init`; the bytes of the names stay. -/
def init (s : FileSystem τ) : FileSystem τ :=
  { s with files := fun i => { s.files i with used := false, nameLen := 0, size := 0, page := 0 } }

def findFreeSlot (s : FileSystem τ) : Option (Fin maxFiles) :=
  (List.finRange maxFiles).find? fun i => ¬ (s.files i).used

def findByName (name : NameArray) (nameLen : ℤ) (s : FileSystem τ) : Option (Fin maxFiles) :=
  if nameLen ≤ 0 ∨ nameLen > maxName then none
  else (List.finRange maxFiles).find? fun i => (s.files i).hasName name nameLen

/-- `Lookup`: the page, the size, and whether there is such a file. -/
def lookup (name : NameArray) (nameLen : ℤ) (s : FileSystem τ) : UInt64 × UInt64 × Bool :=
  match s.findByName name nameLen with
  | none => (0, 0, false)
  | some i => ((s.files i).page, (s.files i).size, true)

/-- The end of `Write`: the data and its size. -/
def fill (i : Fin maxFiles) (data : UInt64) (dataLen : UInt32) (s : FileSystem τ) :
    FileSystem τ where
  files := Function.update s.files i { s.files i with size := dataLen.toUInt64 }
  machine := copyBytes M (s.files i).page data dataLen.toNat s.machine

def write (name : NameArray) (nameLen : ℤ) (data : UInt64) (dataLen : UInt32) (s : FileSystem τ) :
    Bool × FileSystem τ :=
  if nameLen ≤ 0 ∨ nameLen > maxName then (false, s)
  else
    let dataLen := if dataLen > pageSize then pageSize else dataLen
    let idx := match s.findByName name nameLen with
      | some i => some i
      | none => s.findFreeSlot
    match idx with
    | none => (false, s)
    | some i =>
      if (s.files i).used then (true, s.fill M i data dataLen)
      else if ¬ M.pfaReady s.machine then (false, s)
      else
        let (p, m) := M.allocPage s.machine
        if p = 0 then (false, { s with machine := m })
        else
          let e := copyName { s.files i with used := true, page := p } name nameLen
          (true, fill M i data dataLen ⟨Function.update s.files i e, m⟩)

def remove (name : NameArray) (nameLen : ℤ) (s : FileSystem τ) : Bool × FileSystem τ :=
  match s.findByName name nameLen with
  | none => (false, s)
  | some i =>
    let m :=
      if (s.files i).used ∧ (s.files i).page ≠ 0 then (M.freePage (s.files i).page s.machine).2
      else s.machine
    (true,
      { files := Function.update s.files i
          { s.files i with used := false, nameLen := 0, size := 0, page := 0 }
        machine := m })

end FileSystem

/-- The length that `Write` takes of the data. -/
def clamp (dataLen : UInt32) : UInt32 := if dataLen > pageSize then pageSize else dataLen

/-- The size is cut to one page. -/
theorem toNat_clamp (dataLen : UInt32) : (clamp dataLen).toNat = min dataLen.toNat 4096 := by
  have hlt : dataLen > pageSize ↔ 4096 < dataLen.toNat := UInt32.lt_iff_toNat_lt
  rw [clamp]
  split
  case isTrue h => exact (Nat.min_eq_right (Nat.le_of_lt (hlt.mp h))).symm
  case isFalse h => exact (Nat.min_eq_left (Nat.not_lt.mp (mt hlt.mpr h))).symm

/-- The entry of a new file. -/
def FileEntry.created (e : FileEntry) (name : NameArray) (nameLen : ℤ) (page : UInt64)
    (size : UInt64) : FileEntry :=
  { copyName { e with used := true, page } name nameLen with size }

def FileEntry.cleared (e : FileEntry) : FileEntry :=
  { e with used := false, nameLen := 0, size := 0, page := 0 }

/-! ## Names -/

/-- The bytes of a name that count. -/
def nameBytes (name : NameArray) (n : ℕ) : List UInt8 := (List.ofFn name).take n

def FileEntry.bytes (e : FileEntry) : List UInt8 := nameBytes e.name e.nameLen.toNat

/-- A name has the length that is passed. -/
theorem length_nameBytes (name : NameArray) {n : ℕ} (hn : n ≤ maxName) :
    (nameBytes name n).length = n := by
  rw [nameBytes, List.length_take, List.length_ofFn, Nat.min_eq_left hn]

/-- Two arrays agree on their first `n` elements. -/
theorem take_ofFn_eq_iff {α : Type*} {k : ℕ} (f g : Fin k → α) (n : ℕ) :
    (List.ofFn f).take n = (List.ofFn g).take n ↔ ∀ j : Fin k, j.val < n → f j = g j := by
  constructor
  · intro heq j hj
    have hget := congrArg (fun l : List α => l[j.val]?) heq
    simpa [List.getElem?_take, hj] using hget
  · intro hall
    apply List.ext_getElem
    · simp
    · intro j hj _
      simp only [List.length_take, List.length_ofFn, lt_inf_iff] at hj
      simpa using hall ⟨j, hj.2⟩ hj.1

/-- Names of one length are compared byte by byte. -/
theorem nameBytes_eq_iff (name name' : NameArray) (n : ℕ) :
    nameBytes name n = nameBytes name' n ↔ ∀ j : Fin maxName, j.val < n → name j = name' j :=
  take_ofFn_eq_iff name name' n

/-- The lengths that names may have. -/
def ValidLen (nameLen : ℤ) : Prop := 1 ≤ nameLen ∧ nameLen ≤ maxName

/-- A length is refused if it is not positive or too large for a name. -/
theorem not_validLen_iff {nameLen : ℤ} : ¬ ValidLen nameLen ↔ nameLen ≤ 0 ∨ nameLen > maxName := by
  rw [ValidLen]
  omega

/-- An entry has a name if its bytes are those of the name. -/
theorem FileEntry.hasName_iff {e : FileEntry} (he : e.nameLen.toNat ≤ maxName) {nameLen : ℤ}
    (hlen : ValidLen nameLen) (name : NameArray) :
    e.hasName name nameLen = true ↔ e.used = true ∧ e.bytes = nameBytes name nameLen.toNat := by
  obtain ⟨hlow, hhigh⟩ := hlen
  obtain ⟨n, rfl⟩ := Int.eq_ofNat_of_zero_le (show 0 ≤ nameLen by omega)
  simp only [FileEntry.hasName, decide_eq_true_eq, FileEntry.bytes, Int.toNat_natCast, Nat.cast_inj,
    Nat.cast_lt]
  refine and_congr_right fun _ => ⟨?_, ?_⟩
  · rintro ⟨rfl, hall⟩
    exact (nameBytes_eq_iff ..).mpr hall
  · intro heq
    have hn : e.nameLen.toNat = n := by
      have hlength := congrArg List.length heq
      rwa [length_nameBytes _ he, length_nameBytes _ (by omega)] at hlength
    subst hn
    exact ⟨rfl, (nameBytes_eq_iff ..).mp heq⟩

/-! ## The table -/

/-- What holds of the entries in use, apart from their pages. -/
structure Named (files : Fin maxFiles → FileEntry) : Prop where
  nameLen : ∀ i, (files i).used = true →
    1 ≤ (files i).nameLen.toNat ∧ (files i).nameLen.toNat ≤ maxName
  size : ∀ i, (files i).used = true → (files i).size.toNat ≤ 4096
  distinct : ∀ i j, (files i).used = true → (files j).used = true →
    (files i).bytes = (files j).bytes → i = j

namespace FileSystem

variable {τ : Type} {M : Machine τ} {s : FileSystem τ} {name : NameArray} {nameLen : ℤ}

/-- A file that is found is in use. -/
theorem used_of_findByName {i : Fin maxFiles} (h : s.findByName name nameLen = some i) :
    (s.files i).used = true := by
  rw [findByName] at h
  split at h
  · cases h
  · have hname := List.find?_some h
    simp only [FileEntry.hasName, decide_eq_true_eq] at hname
    exact hname.1

/-- A file that is found has the name. -/
theorem findByName_some (hs : Named s.files) {i : Fin maxFiles}
    (h : s.findByName name nameLen = some i) :
    ValidLen nameLen ∧ (s.files i).used = true ∧
      (s.files i).bytes = nameBytes name nameLen.toNat := by
  have hused := used_of_findByName h
  rw [findByName] at h
  split at h
  case isTrue => cases h
  case isFalse hbad =>
    have hlen : ValidLen nameLen := not_not.mp (mt not_validLen_iff.mp hbad)
    have hname := List.find?_some h
    exact ⟨hlen, (FileEntry.hasName_iff (hs.nameLen i hused).2 hlen name).mp hname⟩

/-- If none is found, no file has the name. -/
theorem findByName_none (hs : Named s.files) (hlen : ValidLen nameLen)
    (h : s.findByName name nameLen = none) {i : Fin maxFiles} (hused : (s.files i).used = true) :
    (s.files i).bytes ≠ nameBytes name nameLen.toNat := by
  intro heq
  rw [findByName, if_neg (fun hbad => not_validLen_iff.mpr hbad hlen)] at h
  have hnone := List.find?_eq_none.mp h i (List.mem_finRange i)
  exact hnone ((FileEntry.hasName_iff (hs.nameLen i hused).2 hlen name).mpr ⟨hused, heq⟩)

/-- A free slot is not in use. -/
theorem findFreeSlot_some {i : Fin maxFiles} (h : s.findFreeSlot = some i) :
    (s.files i).used = false := by
  simpa using List.find?_some h

/-- If there is none, all slots are in use. -/
theorem findFreeSlot_none (h : s.findFreeSlot = none) (i : Fin maxFiles) :
    (s.files i).used = true := by
  simpa using List.find?_eq_none.mp h i (List.mem_finRange i)

/-! ## What the operations do -/

/-- Everything that `Write` can do, with the reason. -/
inductive Written (M : Machine τ) (s : FileSystem τ) (name : NameArray) (nameLen : ℤ)
    (data : UInt64) (dataLen : UInt32) : Bool × FileSystem τ → Prop
  | badName (hlen : ¬ ValidLen nameLen) : Written M s name nameLen data dataLen (false, s)
  | overwrote {i : Fin maxFiles} (hlen : ValidLen nameLen)
    (hi : s.findByName name nameLen = some i) :
    Written M s name nameLen data dataLen (true, s.fill M i data (clamp dataLen))
  | full (hlen : ValidLen nameLen) (habsent : s.findByName name nameLen = none)
    (hfull : ∀ i, (s.files i).used = true) : Written M s name nameLen data dataLen (false, s)
  | notReady (hlen : ValidLen nameLen) (habsent : s.findByName name nameLen = none)
    (hready : M.pfaReady s.machine = false) : Written M s name nameLen data dataLen (false, s)
  | noPage (hlen : ValidLen nameLen) (habsent : s.findByName name nameLen = none)
    (hpage : (M.allocPage s.machine).1 = 0) :
    Written M s name nameLen data dataLen (false, { s with machine := (M.allocPage s.machine).2 })
  | created {i : Fin maxFiles} (hlen : ValidLen nameLen)
    (habsent : s.findByName name nameLen = none) (hi : (s.files i).used = false)
    (hready : M.pfaReady s.machine = true) (hpage : (M.allocPage s.machine).1 ≠ 0) :
    Written M s name nameLen data dataLen
      (true,
        { files := Function.update s.files i ((s.files i).created name nameLen
            (M.allocPage s.machine).1 (clamp dataLen).toUInt64)
          machine := copyBytes M (M.allocPage s.machine).1 data (clamp dataLen).toNat
            (M.allocPage s.machine).2 })

/-- `Write` ends in one of the ways of `Written`. -/
theorem written (M : Machine τ) (s : FileSystem τ) (name : NameArray) (nameLen : ℤ) (data : UInt64)
    (dataLen : UInt32) :
    Written M s name nameLen data dataLen (s.write M name nameLen data dataLen) := by
  rw [write]
  by_cases hlen : ValidLen nameLen
  swap
  · rw [if_pos (not_validLen_iff.mp hlen)]
    exact .badName hlen
  rw [if_neg (fun hbad => not_validLen_iff.mpr hbad hlen), ← clamp]
  cases hfind : s.findByName name nameLen with
  | some i =>
    simp only [used_of_findByName hfind, if_true]
    exact .overwrote hlen hfind
  | none =>
    cases hslot : s.findFreeSlot with
    | none => exact .full hlen hfind (findFreeSlot_none hslot)
    | some i =>
      simp only [findFreeSlot_some hslot, Bool.false_eq_true, if_false]
      by_cases hready : M.pfaReady s.machine = true
      swap
      · rw [if_pos hready]
        exact .notReady hlen hfind (by simpa using hready)
      rw [if_neg (not_not.mpr hready)]
      by_cases hpage : (M.allocPage s.machine).1 = 0
      · rw [if_pos hpage]
        exact .noPage hlen hfind hpage
      · rw [if_neg hpage]
        simp only [fill, Function.update_idem, Function.update_self]
        exact .created hlen hfind (findFreeSlot_some hslot) hready hpage

end FileSystem

/-! ## The table after an operation -/

section

variable {τ : Type} {s : FileSystem τ} {name : NameArray} {nameLen : ℤ}
  {files : Fin maxFiles → FileEntry} {i : Fin maxFiles} {e : FileEntry}

/-- A symmetric relation between the entries in use is kept if a new entry has it to the others. -/
theorem pairwise_update {R : FileEntry → FileEntry → Prop} (hsymm : ∀ a b, R a b → R b a)
    (hs : ∀ j k, (files j).used = true → (files k).used = true → j ≠ k → R (files j) (files k))
    (he : e.used = true → ∀ k ≠ i, (files k).used = true → R e (files k)) {j k : Fin maxFiles}
    (hj : (Function.update files i e j).used = true)
    (hk : (Function.update files i e k).used = true) (hne : j ≠ k) :
    R (Function.update files i e j) (Function.update files i e k) := by
  by_cases hji : j = i
  · subst hji
    rw [Function.update_self] at hj ⊢
    rw [Function.update_of_ne hne.symm] at hk ⊢
    exact he hj k hne.symm hk
  · rw [Function.update_of_ne hji] at hj ⊢
    by_cases hki : k = i
    · subst hki
      rw [Function.update_self] at hk ⊢
      exact hsymm _ _ (he hk j hji hj)
    · rw [Function.update_of_ne hki] at hk ⊢
      exact hs j k hj hk hne

/-- An entry may be replaced by one whose name no other entry has. -/
theorem Named.update (hs : Named files)
    (he : e.used = true → (1 ≤ e.nameLen.toNat ∧ e.nameLen.toNat ≤ maxName) ∧ e.size.toNat ≤ 4096 ∧
      ∀ j ≠ i, (files j).used = true → (files j).bytes ≠ e.bytes) :
    Named (Function.update files i e) where
  nameLen := (Function.forall_update_iff files fun _ e =>
      e.used = true → 1 ≤ e.nameLen.toNat ∧ e.nameLen.toNat ≤ maxName).mpr
    ⟨fun hused => (he hused).1, fun j _ => hs.nameLen j⟩
  size := (Function.forall_update_iff files fun _ e => e.used = true → e.size.toNat ≤ 4096).mpr
    ⟨fun hused => (he hused).2.1, fun j _ => hs.size j⟩
  distinct := by
    intro j k hj hk heq
    by_contra hne
    refine pairwise_update (R := fun a b => a.bytes ≠ b.bytes) (fun _ _ => Ne.symm) ?_ ?_ hj hk hne
      heq
    · exact fun j k hj hk hne heq => hne (hs.distinct j k hj hk heq)
    · exact fun hused k hki hk => ((he hused).2.2 k hki hk).symm

/-- A new size keeps the names apart. -/
theorem Named.resize (hs : Named files) {size : UInt64} (hsize : size.toNat ≤ 4096) :
    Named (Function.update files i { files i with size }) := by
  refine hs.update fun hused => ⟨hs.nameLen i hused, hsize, fun j hj hjused heq => hj ?_⟩
  exact hs.distinct j i hjused hused heq

/-- A cleared entry keeps the names apart. -/
theorem Named.clear (hs : Named files) : Named (Function.update files i (files i).cleared) :=
  hs.update fun hused => absurd hused (by simp [FileEntry.cleared])

/-- The entries in use after one is cleared. -/
theorem used_update_cleared {j : Fin maxFiles}
    (hj : (Function.update files i (files i).cleared j).used = true) :
    j ≠ i ∧ Function.update files i (files i).cleared j = files j := by
  have hji : j ≠ i := by
    rintro rfl
    simp [FileEntry.cleared] at hj
  exact ⟨hji, Function.update_of_ne hji ..⟩

/-- A new entry has the name that it was given. -/
theorem bytes_created (name : NameArray) (e : FileEntry) (hlen : ValidLen nameLen)
    (page size : UInt64) :
    (e.created name nameLen page size).nameLen.toNat = nameLen.toNat ∧
      (e.created name nameLen page size).bytes = nameBytes name nameLen.toNat := by
  obtain ⟨hlow, hhigh⟩ := hlen
  rw [show (maxName : ℤ) = 16 from rfl] at hhigh
  have hnat : (e.created name nameLen page size).nameLen.toNat = nameLen.toNat := by
    simp only [FileEntry.created, copyName, UInt8.toNat_ofNat']
    omega
  refine ⟨hnat, ?_⟩
  rw [FileEntry.bytes, hnat, nameBytes_eq_iff]
  intro j hj
  simp only [FileEntry.created, copyName]
  rw [if_pos (by omega)]

/-- A new entry under a name that is not in use keeps the names apart. -/
theorem Named.create (hs : Named s.files) (hlen : ValidLen nameLen)
    (habsent : s.findByName name nameLen = none) (page : UInt64) {size : UInt64}
    (hsize : size.toNat ≤ 4096) :
    Named (Function.update s.files i ((s.files i).created name nameLen page size)) := by
  obtain ⟨hnat, hbytes⟩ := bytes_created name (s.files i) hlen page size
  refine hs.update fun _ => ⟨?_, hsize, ?_⟩
  · rw [hnat]
    rw [ValidLen] at hlen
    omega
  · intro j _ hjused
    rw [hbytes]
    exact FileSystem.findByName_none hs hlen habsent hjused

end

end DavOS.Fs
