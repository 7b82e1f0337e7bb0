import DavOS.Fs.Table
import Mathlib.Data.Set.Card

/-!
# The file system as a finite map

The files are a map from names to byte strings with at most 32 names. The map is given by the
history of the calls that succeeded: a name maps to the data of its last `Write`, unless a `Remove`
came after it (`contents`). Every state that is reached represents the map of its history
(`Run.represents`).

The page source is arbitrary, and so is what happens to the rest of the memory between two calls. A
call of `Write` may rely on two things: a new page overlaps no page of a file, and the data overlaps
neither.
-/

namespace DavOS.Fs

/-! ## The memory -/

/-- The allocator, over its own state. -/
structure PageSource (σ : Type) where
  pfaReady : σ → Bool
  allocPage : σ → UInt64 × σ
  freePage : UInt64 → σ → Bool × σ

structure World (σ : Type) where
  memory : UInt64 → UInt8
  source : σ

variable {σ : Type}

def PageSource.machine (src : PageSource σ) : Machine (World σ) where
  pfaReady := fun w => src.pfaReady w.source
  allocPage := fun w =>
    ((src.allocPage w.source).1, { w with source := (src.allocPage w.source).2 })
  freePage := fun p w =>
    ((src.freePage p w.source).1, { w with source := (src.freePage p w.source).2 })
  load := fun w a => w.memory a
  store := fun a b w => { w with memory := Function.update w.memory a b }

/-- No byte of `n` bytes at `a` is in the page `p`. -/
def Apart (a : UInt64) (n : ℕ) (p : UInt64) : Prop :=
  ∀ i < n, ∀ j < 4096, a + UInt64.ofNat i ≠ p + UInt64.ofNat j

/-- The bytes at an address. -/
def bytesAt (memory : UInt64 → UInt8) (a : UInt64) (n : ℕ) : List UInt8 :=
  (List.range n).map fun i => memory (a + UInt64.ofNat i)

/-- Bytes depend on their addresses only. -/
theorem bytesAt_congr {memory memory' : UInt64 → UInt8} {a : UInt64} {n : ℕ}
    (h : ∀ i < n, memory' (a + UInt64.ofNat i) = memory (a + UInt64.ofNat i)) :
    bytesAt memory' a n = bytesAt memory a n := by
  refine List.map_congr_left fun i hi => ?_
  exact h i (List.mem_range.mp hi)

/-- The bytes of a page have addresses of their own. -/
theorem ofNat_add_inj {p : UInt64} {i j : ℕ} (hi : i < 4096) (hj : j < 4096) :
    p + UInt64.ofNat i = p + UInt64.ofNat j ↔ i = j := by
  rw [UInt64.add_right_inj, ← UInt64.toNat_inj,
    UInt64.toNat_ofNat_of_lt' (show i < 2 ^ 64 by omega),
    UInt64.toNat_ofNat_of_lt' (show j < 2 ^ 64 by omega)]

/-- The copy loop, with data outside the page. -/
theorem copyBytes_memory (src : PageSource σ) (dst data : UInt64) (n : ℕ) (hn : n ≤ 4096)
    (hdata : Apart data n dst) (w : World σ) :
    (∀ i < n, (copyBytes src.machine dst data n w).memory (dst + UInt64.ofNat i) =
      w.memory (data + UInt64.ofNat i)) ∧
    ∀ a, (∀ i < n, a ≠ dst + UInt64.ofNat i) →
      (copyBytes src.machine dst data n w).memory a = w.memory a := by
  induction n with
  | zero => exact ⟨by simp, fun _ _ => rfl⟩
  | succ n ih =>
    obtain ⟨hcopied, hkept⟩ := ih (by omega) fun i hi => hdata i (by omega)
    set w' := copyBytes src.machine dst data n w
    have hstep : (copyBytes src.machine dst data (n + 1) w).memory =
        Function.update w'.memory (dst + UInt64.ofNat n) (w'.memory (data + UInt64.ofNat n)) := by
      rw [copyBytes_succ]
      rfl
    rw [hstep]
    constructor
    · intro i hi
      by_cases hlast : i = n
      · subst hlast
        rw [Function.update_self]
        -- the byte that is read now was not written before
        exact hkept _ fun j hj => hdata i hi j (by omega)
      · rw [Function.update_of_ne (by rw [ne_eq, ofNat_add_inj (by omega) (by omega)]; exact hlast)]
        exact hcopied i (by omega)
    · intro a ha
      rw [Function.update_of_ne (ha n (by omega))]
      exact hkept a fun i hi => ha i (by omega)

/-! ## Histories -/

/-- A call that succeeded. -/
inductive Event
  | wrote (name data : List UInt8)
  | removed (name : List UInt8)

/-- The map after a history, the last call first: the data of the last `Write`, unless the file was
removed after it. -/
def contents : List Event → List UInt8 → Option (List UInt8)
  | [], _ => none
  | .wrote n data :: h, name => if n = name then some data else contents h name
  | .removed n :: h, name => if n = name then none else contents h name

/-- The map has the maximal number of names. -/
def Full (h : List Event) : Prop := {name | (contents h name).isSome}.ncard = maxFiles

/-! ## Representation -/

def FileEntry.data (memory : UInt64 → UInt8) (e : FileEntry) : List UInt8 :=
  bytesAt memory e.page e.size.toNat

/-- The table and the memory represent a map. -/
structure Represents (s : FileSystem (World σ)) (dir : List UInt8 → Option (List UInt8)) :
    Prop where
  named : Named s.files
  apart : ∀ i j, (s.files i).used = true → (s.files j).used = true → i ≠ j →
    Apart (s.files i).page 4096 (s.files j).page
  files : ∀ i, (s.files i).used = true →
    dir (s.files i).bytes = some ((s.files i).data s.machine.memory)
  names : ∀ name, (dir name).isSome → ∃ i, (s.files i).used = true ∧ (s.files i).bytes = name

/-- Pages are apart from each other. -/
theorem Apart.symm {p q : UInt64} (h : Apart p 4096 q) : Apart q 4096 p :=
  fun i hi j hj heq => h j hj i hi heq.symm

/-- After a write the name has the new bytes. -/
theorem contents_wrote (n data : List UInt8) (h : List Event) :
    contents (.wrote n data :: h) = Function.update (contents h) n (some data) := by
  funext name
  by_cases hname : name = n
  · simp [contents, hname]
  · simp [contents, Function.update_of_ne hname, Ne.symm hname]

/-- After a removal the name has none. -/
theorem contents_removed (n : List UInt8) (h : List Event) :
    contents (.removed n :: h) = Function.update (contents h) n none := by
  funext name
  by_cases hname : name = n
  · simp [contents, hname]
  · simp [contents, Function.update_of_ne hname, Ne.symm hname]

namespace Represents

variable {s : FileSystem (World σ)} {dir : List UInt8 → Option (List UInt8)} {i : Fin maxFiles}

/-- The data of a file depends on its page only. -/
theorem data_congr (hs : Represents s dir) {memory : UInt64 → UInt8} {j : Fin maxFiles}
    (hused : (s.files j).used = true)
    (hkept : ∀ k < 4096, memory ((s.files j).page + UInt64.ofNat k) =
      s.machine.memory ((s.files j).page + UInt64.ofNat k)) :
    (s.files j).data memory = (s.files j).data s.machine.memory := by
  have hsize := hs.named.size j hused
  exact bytesAt_congr fun k hk => hkept k (by omega)

/-- A file is written: a new one, or one of that name. -/
theorem put (hs : Represents s dir) (e : FileEntry) (w : World σ) {data : List UInt8}
    (hnamed : Named (Function.update s.files i e)) (hused : e.used = true)
    (hold : (s.files i).used = true → (s.files i).bytes = e.bytes)
    (hpage : ∀ j ≠ i, (s.files j).used = true → Apart e.page 4096 (s.files j).page)
    (hdata : e.data w.memory = data)
    (hkept : ∀ j ≠ i, (s.files j).used = true → ∀ k < 4096,
      w.memory ((s.files j).page + UInt64.ofNat k) =
        s.machine.memory ((s.files j).page + UInt64.ofNat k)) :
    Represents ⟨Function.update s.files i e, w⟩ (Function.update dir e.bytes (some data)) where
  named := hnamed
  apart := by
    intro j k hj hk hne
    exact pairwise_update (R := fun a b => Apart a.page 4096 b.page) (fun _ _ h => h.symm)
      hs.apart (fun _ => hpage) hj hk hne
  files := by
    intro j hj
    by_cases hji : j = i
    · subst hji
      simp only [Function.update_self, hdata]
    · have hne : (s.files j).bytes ≠ e.bytes := by
        intro heq
        refine hji (hnamed.distinct j i hj ?_ ?_)
        · rwa [Function.update_self]
        · rwa [Function.update_self, Function.update_of_ne hji]
      simp only [Function.update_of_ne hji] at hj ⊢
      rw [Function.update_of_ne hne, hs.files j hj, hs.data_congr hj (hkept j hji hj)]
  names := by
    intro name hname
    by_cases heq : name = e.bytes
    · exact ⟨i, by simp only [Function.update_self, hused, heq, and_self]⟩
    · rw [Function.update_of_ne heq] at hname
      obtain ⟨j, hj, hbytes⟩ := hs.names name hname
      have hji : j ≠ i := by
        rintro rfl
        exact heq (hbytes.symm.trans (hold hj))
      exact ⟨j, by simp only [Function.update_of_ne hji, hj, hbytes, and_self]⟩

/-- Clearing an entry removes its name. -/
theorem delete (hs : Represents s dir) (hused : (s.files i).used = true) {source : σ} :
    Represents ⟨Function.update s.files i (s.files i).cleared, ⟨s.machine.memory, source⟩⟩
      (Function.update dir (s.files i).bytes none) := by
  refine ⟨hs.named.clear, ?_, ?_, ?_⟩
  · intro j k hj hk hne
    obtain ⟨-, hjsame⟩ := used_update_cleared hj
    obtain ⟨-, hksame⟩ := used_update_cleared hk
    simp only [hjsame, hksame] at hj hk ⊢
    exact hs.apart j k hj hk hne
  · intro j hj
    obtain ⟨hji, hjsame⟩ := used_update_cleared hj
    simp only [hjsame] at hj ⊢
    rw [Function.update_of_ne fun heq => hji (hs.named.distinct j i hj hused heq)]
    exact hs.files j hj
  · intro name hname
    have hne : name ≠ (s.files i).bytes := by
      rintro rfl
      simp at hname
    rw [Function.update_of_ne hne] at hname
    obtain ⟨j, hj, hbytes⟩ := hs.names name hname
    have hji : j ≠ i := by
      rintro rfl
      exact hne hbytes.symm
    exact ⟨j, by simp only [Function.update_of_ne hji, hj, hbytes, and_self]⟩

end Represents

/-! ## Runs -/

variable (src : PageSource σ)

/-- What a call of `Write` may rely on. A page that it gets for a new file is not handed out: it
overlaps no page of a file. The data overlaps no page of a file, also not the new one. -/
structure Proper (s : FileSystem (World σ)) (name : NameArray) (nameLen : ℤ) (data : UInt64)
    (dataLen : UInt32) : Prop where
  fresh : s.findByName name nameLen = none → (src.allocPage s.machine.source).1 ≠ 0 →
    ∀ i, (s.files i).used = true → Apart (src.allocPage s.machine.source).1 4096 (s.files i).page
  data_apart : ∀ i, (s.files i).used = true → Apart data (clamp dataLen).toNat (s.files i).page
  data_apart_new : s.findByName name nameLen = none → (src.allocPage s.machine.source).1 ≠ 0 →
    Apart data (clamp dataLen).toNat (src.allocPage s.machine.source).1

/-- The data of a call of `Write`. -/
def writeData (s : FileSystem (World σ)) (data : UInt64) (dataLen : UInt32) : List UInt8 :=
  bytesAt s.machine.memory data (min dataLen.toNat 4096)

/-- The states that calls lead to after `Init`, with the history of the calls that succeeded. -/
inductive Run : FileSystem (World σ) → List Event → Prop
  | init (s : FileSystem (World σ)) : Run s.init []
  /-- between two calls, everything but the files may change -/
  | elsewhere {s : FileSystem (World σ)} {h : List Event} (hrun : Run s h) (w : World σ)
    (hw : ∀ i, (s.files i).used = true → ∀ k < 4096,
      w.memory ((s.files i).page + UInt64.ofNat k) =
        s.machine.memory ((s.files i).page + UInt64.ofNat k)) :
    Run { s with machine := w } h
  | write {s : FileSystem (World σ)} {h : List Event} (hrun : Run s h) {name : NameArray}
    {nameLen : ℤ} {data : UInt64} {dataLen : UInt32}
    (hproper : Proper src s name nameLen data dataLen) :
    Run (s.write src.machine name nameLen data dataLen).2
      (if (s.write src.machine name nameLen data dataLen).1 then
        .wrote (nameBytes name nameLen.toNat) (writeData s data dataLen) :: h
      else h)
  | remove {s : FileSystem (World σ)} {h : List Event} (hrun : Run s h) (name : NameArray)
    (nameLen : ℤ) :
    Run (s.remove src.machine name nameLen).2
      (if (s.remove src.machine name nameLen).1 then .removed (nameBytes name nameLen.toNat) :: h
      else h)

/-- After `Init` the directory is empty. -/
theorem represents_init (s : FileSystem (World σ)) : Represents s.init (contents []) where
  named := ⟨by simp [FileSystem.init], by simp [FileSystem.init], by simp [FileSystem.init]⟩
  apart := by simp [FileSystem.init]
  files := by simp [FileSystem.init]
  names := by simp [contents]

variable {src}

/-- Memory outside the pages of the files does not matter. -/
theorem Represents.elsewhere {s : FileSystem (World σ)} {dir : List UInt8 → Option (List UInt8)}
    (hs : Represents s dir) (w : World σ)
    (hw : ∀ i, (s.files i).used = true → ∀ k < 4096,
      w.memory ((s.files i).page + UInt64.ofNat k) =
        s.machine.memory ((s.files i).page + UInt64.ofNat k)) :
    Represents { s with machine := w } dir where
  named := hs.named
  apart := hs.apart
  files := by
    intro i hi
    rw [hs.files i hi, hs.data_congr hi (hw i hi)]
  names := hs.names

/-- The data that is copied into a page is read back from it. -/
theorem data_copied {w : World σ} {page data : UInt64} {dataLen : UInt32}
    (hdata : Apart data (clamp dataLen).toNat page) {e : FileEntry} (hpage : e.page = page)
    (hsize : e.size = (clamp dataLen).toUInt64) :
    e.data (copyBytes src.machine page data (clamp dataLen).toNat w).memory =
      bytesAt w.memory data (min dataLen.toNat 4096) := by
  have hlen := toNat_clamp dataLen
  obtain ⟨hcopied, -⟩ := copyBytes_memory src page data _ (by omega) hdata w
  rw [FileEntry.data, hpage, hsize, UInt32.toNat_toUInt64, ← hlen]
  exact List.map_congr_left fun i hi => hcopied i (List.mem_range.mp hi)

/-- Copying into a page does not change a page apart from it. -/
theorem page_kept {w : World σ} {page other data : UInt64} {dataLen : UInt32}
    (hdata : Apart data (clamp dataLen).toNat page) (hother : Apart page 4096 other) :
    ∀ k < 4096, (copyBytes src.machine page data (clamp dataLen).toNat w).memory
      (other + UInt64.ofNat k) = w.memory (other + UInt64.ofNat k) := by
  intro k hk
  have hlen := toNat_clamp dataLen
  obtain ⟨-, hkept⟩ := copyBytes_memory src page data _ (by omega) hdata w
  exact hkept _ fun i hi => (hother i (by omega) k hk).symm

/-- `Write` under proper conditions writes to the directory, or fails and leaves it as it was. -/
theorem Represents.write {s : FileSystem (World σ)} {h : List Event}
    (hs : Represents s (contents h)) {name : NameArray} {nameLen : ℤ} {data : UInt64}
    {dataLen : UInt32} (hproper : Proper src s name nameLen data dataLen) :
    Represents (s.write src.machine name nameLen data dataLen).2
      (contents (if (s.write src.machine name nameLen data dataLen).1 then
        .wrote (nameBytes name nameLen.toNat) (writeData s data dataLen) :: h
      else h)) := by
  have hsize : (clamp dataLen).toUInt64.toNat ≤ 4096 := by
    rw [UInt32.toNat_toUInt64, toNat_clamp]
    exact Nat.min_le_right ..
  have hwritten := FileSystem.written src.machine s name nameLen data dataLen
  generalize s.write src.machine name nameLen data dataLen = r at hwritten ⊢
  cases hwritten with
  | badName => exact hs
  | full => exact hs
  | notReady => exact hs
  | noPage => exact hs.elsewhere _ fun _ _ _ _ => rfl
  | overwrote hlen hi =>
    rename_i i
    obtain ⟨-, hused, hbytes⟩ := FileSystem.findByName_some hs.named hi
    have hapart := hproper.data_apart i hused
    have hput := hs.put { s.files i with size := (clamp dataLen).toUInt64 }
      (copyBytes src.machine (s.files i).page data (clamp dataLen).toNat s.machine)
      (hs.named.resize hsize) hused (fun _ => rfl)
      (fun j hji hj => hs.apart i j hused hj (Ne.symm hji)) (data_copied hapart rfl rfl)
      (fun j hji hj => page_kept hapart (hs.apart i j hused hj (Ne.symm hji)))
    rw [if_pos rfl, contents_wrote, ← hbytes]
    exact hput
  | created hlen habsent hi hready hpage =>
    rename_i i
    have hfresh := hproper.fresh habsent hpage
    have hapart := hproper.data_apart_new habsent hpage
    set p := (src.allocPage s.machine.source).1
    set w : World σ := { s.machine with source := (src.allocPage s.machine.source).2 }
    have hput := hs.put ((s.files i).created name nameLen p (clamp dataLen).toUInt64)
      (copyBytes src.machine p data (clamp dataLen).toNat w)
      (hs.named.create hlen habsent p hsize) rfl (fun hused => absurd hused (by simp [hi]))
      (fun j _ hj => hfresh j hj) (data_copied hapart rfl rfl)
      (fun j _ hj => page_kept hapart (hfresh j hj))
    rw [(bytes_created name (s.files i) hlen p _).2] at hput
    rw [if_pos rfl, contents_wrote]
    exact hput

/-- `Remove` removes from the directory, or fails and leaves it as it was. -/
theorem Represents.remove {s : FileSystem (World σ)} {h : List Event}
    (hs : Represents s (contents h)) (name : NameArray) (nameLen : ℤ) :
    Represents (s.remove src.machine name nameLen).2
      (contents (if (s.remove src.machine name nameLen).1 then
        .removed (nameBytes name nameLen.toNat) :: h else h)) := by
  rw [FileSystem.remove]
  cases hfind : s.findByName name nameLen with
  | none => exact hs
  | some i =>
    obtain ⟨-, hused, hbytes⟩ := FileSystem.findByName_some hs.named hfind
    rw [if_pos rfl, contents_removed, ← hbytes]
    dsimp only
    split
    · exact hs.delete hused
    · exact hs.delete hused

/-- After any run the table represents the history of successful operations. -/
theorem Run.represents {s : FileSystem (World σ)} {h : List Event} (hrun : Run src s h) :
    Represents s (contents h) := by
  induction hrun with
  | init s => exact represents_init s
  | elsewhere _ w hw ih => exact ih.elsewhere w hw
  | write _ hproper ih => exact ih.write hproper
  | remove _ name nameLen ih => exact ih.remove name nameLen

/-! ## What callers see -/

namespace Represents

variable {s : FileSystem (World σ)} {dir : List UInt8 → Option (List UInt8)} {name : NameArray}
  {nameLen : ℤ}

/-- A name is found exactly if the directory has it. -/
theorem findByName_eq_none_iff (hs : Represents s dir) (hlen : ValidLen nameLen) :
    s.findByName name nameLen = none ↔ dir (nameBytes name nameLen.toNat) = none := by
  constructor
  · intro hnone
    by_contra hsome
    obtain ⟨i, hused, hbytes⟩ := hs.names _ (Option.isSome_iff_ne_none.mpr hsome)
    exact FileSystem.findByName_none hs.named hlen hnone hused hbytes
  · intro hnone
    cases hfind : s.findByName name nameLen with
    | none => rfl
    | some i =>
      obtain ⟨-, hused, hbytes⟩ := FileSystem.findByName_some hs.named hfind
      have hfile := hs.files i hused
      rw [hbytes, hnone] at hfile
      cases hfile

/-- `Lookup` finds the names of the directory, and gives their bytes. -/
theorem lookup_spec (hs : Represents s dir) (name : NameArray) (nameLen : ℤ) :
    ((s.lookup name nameLen).2.2 = true ↔
      ValidLen nameLen ∧ (dir (nameBytes name nameLen.toNat)).isSome) ∧
    ((s.lookup name nameLen).2.2 = true →
      dir (nameBytes name nameLen.toNat) = some (bytesAt s.machine.memory
        (s.lookup name nameLen).1 (s.lookup name nameLen).2.1.toNat)) := by
  rw [FileSystem.lookup]
  cases hfind : s.findByName name nameLen with
  | none =>
    refine ⟨iff_of_false (by simp) ?_, by simp⟩
    rintro ⟨hlen, hsome⟩
    rw [(hs.findByName_eq_none_iff hlen).mp hfind] at hsome
    cases hsome
  | some i =>
    obtain ⟨hlen, hused, hbytes⟩ := FileSystem.findByName_some hs.named hfind
    have hfile := hs.files i hused
    rw [hbytes] at hfile
    exact ⟨iff_of_true rfl ⟨hlen, by rw [hfile]; rfl⟩, fun _ => hfile⟩

/-- The names of the map are those of the entries in use, so it is full when all of them are. -/
theorem full_iff (hs : Represents s dir) :
    {name | (dir name).isSome}.ncard = maxFiles ↔ ∀ i, (s.files i).used = true := by
  have himage : {name | (dir name).isSome} =
      (fun i => (s.files i).bytes) '' {i | (s.files i).used = true} := by
    ext name
    simp only [Set.mem_ofPred_eq, Set.mem_image]
    constructor
    · exact hs.names name
    · rintro ⟨i, hused, rfl⟩
      rw [hs.files i hused]
      rfl
  have hinj : Set.InjOn (fun i => (s.files i).bytes) {i | (s.files i).used = true} :=
    fun i hi j hj heq => hs.named.distinct i j hi hj heq
  have huniv : {i | (s.files i).used = true} = Set.univ ↔
      {i | (s.files i).used = true}.ncard = maxFiles := by
    rw [Set.eq_univ_iff_ncard, Nat.card_fin]
  rw [himage, hinj.ncard_image, ← huniv, Set.eq_univ_iff_forall]
  rfl

end Represents

/-- `Write` fails in these cases only, and then the files are as before. -/
theorem Represents.write_false_iff {s : FileSystem (World σ)}
    {dir : List UInt8 → Option (List UInt8)} (hs : Represents s dir) (name : NameArray)
    (nameLen : ℤ) (data : UInt64) (dataLen : UInt32) :
    ((s.write src.machine name nameLen data dataLen).1 = false ↔
      ¬ ValidLen nameLen ∨ dir (nameBytes name nameLen.toNat) = none ∧
        ({name | (dir name).isSome}.ncard = maxFiles ∨ src.pfaReady s.machine.source = false ∨
          (src.allocPage s.machine.source).1 = 0)) ∧
    ((s.write src.machine name nameLen data dataLen).1 = false →
      (s.write src.machine name nameLen data dataLen).2.files = s.files ∧
      (s.write src.machine name nameLen data dataLen).2.machine.memory = s.machine.memory) := by
  rw [hs.full_iff]
  have hwritten := FileSystem.written src.machine s name nameLen data dataLen
  generalize s.write src.machine name nameLen data dataLen = r at hwritten ⊢
  cases hwritten with
  | badName hlen => exact ⟨iff_of_true rfl (.inl hlen), fun _ => ⟨rfl, rfl⟩⟩
  | overwrote hlen hi =>
    refine ⟨iff_of_false (by simp) ?_, by simp⟩
    rw [← hs.findByName_eq_none_iff hlen, hi]
    simp [hlen]
  | full hlen habsent hfull =>
    exact ⟨iff_of_true rfl (.inr ⟨(hs.findByName_eq_none_iff hlen).mp habsent, .inl hfull⟩),
      fun _ => ⟨rfl, rfl⟩⟩
  | notReady hlen habsent hready =>
    exact ⟨iff_of_true rfl (.inr ⟨(hs.findByName_eq_none_iff hlen).mp habsent, .inr (.inl hready)⟩),
      fun _ => ⟨rfl, rfl⟩⟩
  | noPage hlen habsent hpage =>
    exact ⟨iff_of_true rfl (.inr ⟨(hs.findByName_eq_none_iff hlen).mp habsent, .inr (.inr hpage)⟩),
      fun _ => ⟨rfl, rfl⟩⟩
  | created hlen habsent hi hready hpage =>
    refine ⟨iff_of_false (by simp) ?_, by simp⟩
    rintro (hbad | ⟨-, hfull | hnot | hzero⟩)
    · exact hbad hlen
    · simp [hfull] at hi
    · exact Bool.false_ne_true (hnot.symm.trans hready)
    · exact hpage hzero

/-- `Remove` fails exactly for names that are invalid or not in the directory, and then changes
nothing. -/
theorem Represents.remove_false_iff {s : FileSystem (World σ)}
    {dir : List UInt8 → Option (List UInt8)} (hs : Represents s dir) (name : NameArray)
    (nameLen : ℤ) :
    ((s.remove src.machine name nameLen).1 = false ↔
      ¬ ValidLen nameLen ∨ dir (nameBytes name nameLen.toNat) = none) ∧
    ((s.remove src.machine name nameLen).1 = false →
      (s.remove src.machine name nameLen).2 = s) := by
  rw [FileSystem.remove]
  cases hfind : s.findByName name nameLen with
  | none =>
    refine ⟨iff_of_true rfl ?_, fun _ => rfl⟩
    by_cases hlen : ValidLen nameLen
    · exact .inr ((hs.findByName_eq_none_iff hlen).mp hfind)
    · exact .inl hlen
  | some i =>
    obtain ⟨hlen, -, -⟩ := FileSystem.findByName_some hs.named hfind
    refine ⟨iff_of_false (by simp) ?_, by simp⟩
    rw [← hs.findByName_eq_none_iff hlen, hfind]
    simp [hlen]

/-- Bytes of a name array past its length do not count. -/
theorem name_tail_irrelevant (s : FileSystem (World σ)) {name name' : NameArray} {nameLen : ℤ}
    (hname : ∀ j : Fin maxName, (j : ℤ) < nameLen → name j = name' j) :
    s.lookup name nameLen = s.lookup name' nameLen ∧
    (∀ data dataLen, s.write src.machine name nameLen data dataLen =
      s.write src.machine name' nameLen data dataLen) ∧
    s.remove src.machine name nameLen = s.remove src.machine name' nameLen := by
  have hfind : s.findByName name nameLen = s.findByName name' nameLen := by
    have hsame : ∀ e : FileEntry, e.hasName name nameLen = e.hasName name' nameLen := by
      intro e
      simp only [FileEntry.hasName, decide_eq_decide]
      refine and_congr_right fun _ => and_congr_right fun _ => forall_congr' fun j => ?_
      refine imp_congr_right fun hj => ?_
      rw [hname j hj]
    simp only [FileSystem.findByName, hsame]
  have hcopy : ∀ e : FileEntry, copyName e name nameLen = copyName e name' nameLen := by
    intro e
    have hbytes : (fun j : Fin maxName => if (j : ℤ) < nameLen then name j else 0) =
        fun j : Fin maxName => if (j : ℤ) < nameLen then name' j else 0 := by
      funext j
      split
      · exact hname j ‹_›
      · rfl
    simp only [copyName, hbytes]
  refine ⟨?_, ?_, ?_⟩
  · simp only [FileSystem.lookup, hfind]
  · intro data dataLen
    simp only [FileSystem.write, hfind, hcopy]
  · simp only [FileSystem.remove, hfind]

/-- **The file system is a finite map** from names to byte strings, with at most 32 names. In every
state that a run of calls leads to, `Lookup` finds the data of the last `Write` of the name, unless
it was removed since; `Write` and `Remove` fail in the cases stated only, and then change no file;
and two name arrays that agree up to the length are the same name. -/
theorem files_are_map (src : PageSource σ) {s : FileSystem (World σ)} {h : List Event}
    (hrun : Run src s h) :
    (∀ name nameLen,
      ((s.lookup name nameLen).2.2 = true ↔
        ValidLen nameLen ∧ (contents h (nameBytes name nameLen.toNat)).isSome) ∧
      ((s.lookup name nameLen).2.2 = true →
        contents h (nameBytes name nameLen.toNat) = some (bytesAt s.machine.memory
          (s.lookup name nameLen).1 (s.lookup name nameLen).2.1.toNat))) ∧
    (∀ name nameLen data dataLen,
      ((s.write src.machine name nameLen data dataLen).1 = false ↔
        ¬ ValidLen nameLen ∨ contents h (nameBytes name nameLen.toNat) = none ∧
          (Full h ∨ src.pfaReady s.machine.source = false ∨
            (src.allocPage s.machine.source).1 = 0)) ∧
      ((s.write src.machine name nameLen data dataLen).1 = false →
        (s.write src.machine name nameLen data dataLen).2.files = s.files ∧
        (s.write src.machine name nameLen data dataLen).2.machine.memory = s.machine.memory)) ∧
    (∀ name nameLen,
      ((s.remove src.machine name nameLen).1 = false ↔
        ¬ ValidLen nameLen ∨ contents h (nameBytes name nameLen.toNat) = none) ∧
      ((s.remove src.machine name nameLen).1 = false →
        (s.remove src.machine name nameLen).2 = s)) ∧
    ∀ name name' nameLen, (∀ j : Fin maxName, (j : ℤ) < nameLen → name j = name' j) →
      s.lookup name nameLen = s.lookup name' nameLen ∧
      (∀ data dataLen, s.write src.machine name nameLen data dataLen =
        s.write src.machine name' nameLen data dataLen) ∧
      s.remove src.machine name nameLen = s.remove src.machine name' nameLen := by
  have hs := hrun.represents
  refine ⟨hs.lookup_spec, ?_, ?_, ?_⟩
  · intro name nameLen data dataLen
    exact hs.write_false_iff name nameLen data dataLen
  · intro name nameLen
    exact hs.remove_false_iff name nameLen
  · intro name name' nameLen hname
    exact name_tail_irrelevant s hname

/-- A source with one page. -/
def onePage : PageSource Bool where
  pfaReady := fun _ => true
  allocPage := fun free => (if free then 0x00005000 else 0, false)
  freePage := fun _ _ => (true, true)

def blankFiles : FileSystem (World Bool) where
  files := fun _ => ⟨false, 0, fun _ => 0, 0, 0⟩
  machine := ⟨fun _ => 0, true⟩

/-- A file that is written there is found. -/
theorem written_file_found :
    ((blankFiles.init.write onePage.machine (fun _ => 0x61) 1 0x00001000 8).2.lookup
      (fun _ => 0x61) 1).2.2 = true := by
  have hproper : Proper onePage blankFiles.init (fun _ => 0x61) 1 0x00001000 8 := by
    refine ⟨by simp [FileSystem.init, blankFiles], by simp [FileSystem.init, blankFiles], ?_⟩
    intro _ _ i hi j hj heq
    have hnat := congrArg UInt64.toNat heq
    have hlen : (clamp 8).toNat = 8 := by decide
    simp only [UInt64.toNat_add, UInt64.toNat_ofNat'] at hnat
    have hsrc : (0x00001000 : UInt64).toNat = 0x1000 := rfl
    have hdst : (onePage.allocPage blankFiles.init.machine.source).1.toNat = 0x5000 := rfl
    omega
  have hok : (blankFiles.init.write onePage.machine (fun _ => 0x61) 1 0x00001000 8).1 = true := by
    decide
  have hrun := Run.write (.init blankFiles) hproper
  rw [if_pos hok] at hrun
  obtain ⟨hlookup, -⟩ := files_are_map onePage hrun
  refine (hlookup (fun _ => 0x61) 1).1.mpr ⟨by simp [ValidLen], ?_⟩
  rw [contents_wrote, Function.update_self]
  rfl

end DavOS.Fs
