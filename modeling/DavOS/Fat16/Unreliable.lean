import DavOS.Fat16.Refusal

/-!
# Volumes on a disk that fails

A disk whose transfers may fail, in any pattern. A transfer that fails changes nothing on the disk.

`createFile` writes in the order FAT, copy of the FAT, directory, data, and looks at all results but
that of the copy. Up to the directory a failure leaves no trace in it (`Attempt.stopped`). If only
the last write fails, the call fails too, but the entry is there (`Attempt.unwritten`).
-/

namespace DavOS.Fat16

/-- The transfers fail that the schedule says, counted over the life of the disk. -/
def unreliable (fails : ℕ → Bool) : Disk Image where
  readSector lba d :=
    (if fails d.log.length then none else some (d.sectors lba),
      { d with log := .read lba :: d.log })
  writeSector lba s d :=
    if fails d.log.length then (false, { d with log := .write lba :: d.log })
    else (true, ⟨Function.update d.sectors lba s, .write lba :: d.log⟩)

variable {fails : ℕ → Bool} {v v' : Volume Image}

/-- The number of transfers so far. -/
def Volume.clock (v : Volume Image) : ℕ := v.disk.log.length

/-- A read takes one transfer, changes nothing on the disk, and gives the sector unless it fails. -/
theorem readSector_unreliable {lba : UInt32} {ok : Bool}
    (h : readSector (unreliable fails) lba v = (ok, v')) :
    ReadOnly v v' ∧ v'.clock = v.clock + 1 ∧ fails v.clock = !ok ∧
      (ok = true → v'.fatBuf = v.disk.sectors lba) := by
  have hclock : v.clock = v.disk.log.length := rfl
  simp only [readSector, unreliable, ← hclock] at h
  cases hfail : fails v.clock with
  | true =>
    simp only [hfail, if_true] at h
    obtain ⟨rfl, rfl⟩ := Prod.mk.inj h
    exact ⟨⟨⟨rfl, rfl⟩, rfl⟩, rfl, rfl, by simp⟩
  | false =>
    simp only [hfail, Bool.false_eq_true, if_false] at h
    obtain ⟨rfl, rfl⟩ := Prod.mk.inj h
    exact ⟨⟨⟨rfl, rfl⟩, rfl⟩, rfl, rfl, fun _ => rfl⟩

/-- A write takes one transfer, and changes nothing if it fails. -/
theorem writeSector_unreliable {lba : UInt32} {ok : Bool}
    (h : writeSector (unreliable fails) lba v = (ok, v')) :
    SameMount v v' ∧ v'.clock = v.clock + 1 ∧ fails v.clock = !ok ∧
      v'.disk.sectors = if ok then Function.update v.disk.sectors lba v.fatBuf
        else v.disk.sectors := by
  have hclock : v.clock = v.disk.log.length := rfl
  simp only [writeSector, unreliable, ← hclock] at h
  cases hfail : fails v.clock with
  | true =>
    simp only [hfail, if_true] at h
    obtain ⟨rfl, rfl⟩ := Prod.mk.inj h
    exact ⟨⟨rfl, rfl⟩, rfl, rfl, rfl⟩
  | false =>
    simp only [hfail, Bool.false_eq_true, if_false] at h
    obtain ⟨rfl, rfl⟩ := Prod.mk.inj h
    exact ⟨⟨rfl, rfl⟩, rfl, rfl, rfl⟩

/-! ## Changing a sector -/

/-- A sector is read, changed in the buffer and written back. -/
def rewriteSector {σ : Type} (D : Disk σ) (lba : UInt32) (change : Sector → Sector)
    (v : Volume σ) : Bool × Volume σ :=
  match readSector D lba v with
  | (false, v) => (false, v)
  | (true, v) => writeSector D lba { v with fatBuf := change v.fatBuf }

/-- The sector is changed, or one of the two transfers fails. -/
inductive Rewritten (fails : ℕ → Bool) (v : Volume Image) (lba : UInt32)
    (change : Sector → Sector) : Bool × Volume Image → Prop
  | failed {v' : Volume Image} (hfail : ∃ i < 2, fails (v.clock + i) = true)
      (hv' : ReadOnly v v') : Rewritten fails v lba change (false, v')
  | done {v' : Volume Image} (hok : ∀ i < 2, fails (v.clock + i) = false)
      (hclock : v'.clock = v.clock + 2) (hmount : SameMount v v')
      (hsectors : v'.disk.sectors =
        Function.update v.disk.sectors lba (change (v.disk.sectors lba))) :
      Rewritten fails v lba change (true, v')

/-- A sector is rewritten by a read and a write, each of which may fail. -/
theorem rewritten (fails : ℕ → Bool) (v : Volume Image) (lba : UInt32)
    (change : Sector → Sector) :
    Rewritten fails v lba change (rewriteSector (unreliable fails) lba change v) := by
  rw [rewriteSector]
  rcases hread : readSector (unreliable fails) lba v with ⟨ok₁, v₁⟩
  obtain ⟨hv₁, hclock₁, hok₁, hbuf⟩ := readSector_unreliable hread
  cases ok₁ with
  | false => exact .failed ⟨0, by decide, hok₁⟩ hv₁
  | true =>
    dsimp only
    rw [hbuf rfl]
    rcases hwrite : writeSector (unreliable fails) lba
      { v₁ with fatBuf := change (v.disk.sectors lba) } with ⟨ok₂, v₂⟩
    obtain ⟨hmount, hclock₂, hok₂, hsectors⟩ := writeSector_unreliable hwrite
    have hmount₂ : SameMount v v₂ :=
      hv₁.toSameMount.trans ⟨hmount.geometry, hmount.initialized⟩
    have hsecond : fails (v.clock + 1) = !ok₂ := hclock₁ ▸ hok₂
    cases ok₂ with
    | false => exact .failed ⟨1, by decide, hsecond⟩ ⟨hmount₂, hsectors.trans hv₁.sectors⟩
    | true =>
      refine .done ?_ (hclock₂.trans (congrArg (· + 1) hclock₁)) hmount₂ ?_
      · intro i hi
        obtain rfl | rfl : i = 0 ∨ i = 1 := by omega
        · exact hok₁
        · exact hsecond
      · exact hsectors.trans (congrArg (Function.update · lba _) hv₁.sectors)

/-! ## Scans -/

section Scans

variable {β : Type}

/-- The number of sectors up to the first one that `f` answers. -/
def readCount (f : ℕ → Option β) : List ℕ → ℕ
  | [] => 0
  | sec :: rest => if (f sec).isSome then 1 else readCount f rest + 1

/-- A pass that finds nothing reads all sectors. -/
theorem readCount_of_none {f : ℕ → Option β} {secs : List ℕ} (h : secs.findSome? f = none) :
    readCount f secs = secs.length := by
  induction secs with
  | nil => rfl
  | cons sec rest ih =>
    rw [List.findSome?_eq_none_iff] at h
    rw [readCount, h sec List.mem_cons_self, if_neg (by simp), List.length_cons,
      ih (List.findSome?_eq_none_iff.mpr fun x hx => h x (List.mem_cons_of_mem _ hx))]

/-- A pass reads no sector twice. -/
theorem readCount_le (f : ℕ → Option β) (secs : List ℕ) : readCount f secs ≤ secs.length := by
  induction secs with
  | nil => exact le_rfl
  | cons sec rest ih =>
    rw [readCount, List.length_cons]
    split <;> omega

/-- The search ends at the first answer. -/
theorem readCount_range {f : ℕ → Option β} {s m i : ℕ} (hi : i < m)
    (hsome : (f (s + i)).isSome = true) (hnone : ∀ j < i, f (s + j) = none) :
    readCount f (List.range' s m) = i + 1 := by
  induction i generalizing s m with
  | zero =>
    obtain ⟨m, rfl⟩ : ∃ m', m = m' + 1 := ⟨m - 1, by omega⟩
    rw [Nat.add_zero] at hsome
    rw [List.range'_succ, readCount, if_pos hsome]
  | succ i ih =>
    obtain ⟨m, rfl⟩ : ∃ m', m = m' + 1 := ⟨m - 1, by omega⟩
    have hfirst : f s = none := hnone 0 (by omega)
    rw [List.range'_succ, readCount, hfirst, if_neg (by simp),
      ih (by omega) (by rwa [Nat.add_right_comm, Nat.add_assoc]) fun j hj => by
        rw [Nat.add_right_comm, Nat.add_assoc]
        exact hnone (j + 1) (by omega)]

/-- A scan fails if one of its reads does. -/
theorem scan_unreliable {start : UInt32} {f : ℕ → Sector → Option β} {secs : List ℕ} {r : Scan β}
    (h : scan (unreliable fails) start f secs v = (r, v')) :
    ReadOnly v v' ∧
      (r = .failed ∧ (∃ i < readCount (fun sec => f sec (v.disk.sectors (start + .ofNat sec))) secs,
          fails (v.clock + i) = true) ∨
        r = .ofOption (secs.findSome? fun sec => f sec (v.disk.sectors (start + .ofNat sec))) ∧
          v'.clock = v.clock +
            readCount (fun sec => f sec (v.disk.sectors (start + .ofNat sec))) secs ∧
          ∀ i < readCount (fun sec => f sec (v.disk.sectors (start + .ofNat sec))) secs,
            fails (v.clock + i) = false) := by
  induction secs generalizing v with
  | nil =>
    obtain ⟨rfl, rfl⟩ := Prod.mk.inj h
    exact ⟨.refl v, .inr ⟨rfl, rfl, by simp [readCount]⟩⟩
  | cons sec rest ih =>
    rcases hread : readSector (unreliable fails) (start + .ofNat sec) v with ⟨ok, v₁⟩
    obtain ⟨hv₁, hclock₁, hok, hbuf⟩ := readSector_unreliable hread
    rw [scan, hread] at h
    rw [List.findSome?_cons, readCount]
    cases ok with
    | false =>
      obtain ⟨rfl, rfl⟩ := Prod.mk.inj h
      refine ⟨hv₁, .inl ⟨rfl, 0, ?_, hok⟩⟩
      split <;> omega
    | true =>
      simp only [hbuf rfl] at h
      cases hf : f sec (v.disk.sectors (start + .ofNat sec)) with
      | some b =>
        simp only [hf] at h
        obtain ⟨rfl, rfl⟩ := Prod.mk.inj h
        refine ⟨hv₁, .inr ⟨rfl, hclock₁, fun i hi => ?_⟩⟩
        obtain rfl : i = 0 := by simpa using hi
        exact hok
      | none =>
        simp only [hf] at h
        obtain ⟨hro, hcases⟩ := ih h
        refine ⟨hv₁.trans hro, ?_⟩
        rw [hv₁.sectors, hclock₁] at hcases
        rw [if_neg (by simp)]
        -- the reads of the rest come one later
        obtain ⟨hr, i, hi, hfail⟩ | ⟨hr, hclock, hclear⟩ := hcases
        · refine .inl ⟨hr, i + 1, by omega, ?_⟩
          rwa [Nat.add_comm i, ← Nat.add_assoc]
        · refine .inr ⟨hr, by omega, fun i hi => ?_⟩
          cases i with
          | zero => exact hok
          | succ i =>
            have hi' := hclear i (by omega)
            rwa [Nat.add_comm i, ← Nat.add_assoc]

variable {g : Geometry} {d : Contents}

/-- A sector of the FAT has no free cluster if none of its entries is zero. -/
theorem freeIn_eq_none_iff {sec : ℕ} : freeIn sec (d (g.fatStart + .ofNat sec)) = none ↔
    ∀ j, j / 256 = sec → 2 ≤ j → fatEntry g d j ≠ 0 := by
  rw [freeIn, List.findSome?_eq_none_iff]
  constructor
  · rintro h j rfl hj
    have hj' := h (j % 256) (List.mem_range.mpr (by omega))
    simp only [Nat.div_add_mod', if_neg (show ¬j < 2 by omega)] at hj'
    rw [fatEntry]
    simpa using hj'
  · intro h i hi
    have hlt := List.mem_range.mp hi
    by_cases hsmall : sec * 256 + i < 2
    · simp only [if_pos hsmall]
    · have hentry := h (sec * 256 + i) (by omega) (by omega)
      rw [fatEntry, show (sec * 256 + i) / 256 = sec by omega,
        show (sec * 256 + i) % 256 = i by omega] at hentry
      simp only [if_neg hsmall, if_neg hentry]

/-- The search of the FAT ends in the sector of the first free cluster. -/
theorem readCount_freeIn {c : ℕ} (h : firstFree g d = some c) :
    readCount (fun sec => freeIn sec (d (g.fatStart + .ofNat sec)))
      (List.range g.fatSz16.toNat) = c / 256 + 1 := by
  obtain ⟨hlt, htwo, hzero, hbefore⟩ := firstFree_eq_some.mp h
  rw [Geometry.fatEntries] at hlt
  rw [List.range_eq_range']
  refine readCount_range (by omega) ?_ ?_
  · rw [Nat.zero_add, Option.isSome_iff_ne_none, ne_eq, freeIn_eq_none_iff]
    intro hnone
    exact hnone c rfl htwo hzero
  · intro j hj
    rw [Nat.zero_add, freeIn_eq_none_iff]
    rintro i rfl hi
    exact hbefore i hi (by omega)

/-- A sector of the directory has no free slot if each of its entries is in use. -/
theorem freeEntry_eq_none_iff {sec : ℕ} : freeEntry (d (g.rootStart + .ofNat sec)) = none ↔
    ∀ j, j / 16 = sec → ¬IsEnd (slot g d j) ∧ ¬IsDeleted (slot g d j) := by
  rw [freeEntry, List.find?_range_eq_none]
  simp only [Bool.not_eq_true', decide_eq_false_iff_not, not_or]
  constructor
  · rintro h j rfl
    exact h (j % 16) (by omega)
  · intro h i hi
    rw [← slot_mul_add hi]
    exact h _ (by omega)

/-- The search for a free entry ends in the sector of the first free slot. -/
theorem readCount_freeEntry {k : ℕ} (h : freeSlot g d = some k) :
    readCount (fun sec => (freeEntry (d (g.rootStart + .ofNat sec))).map (sec, ·))
      (List.range g.rootSectors.toNat) = k / 16 + 1 := by
  obtain ⟨hlt, hfree, hbefore⟩ := freeSlot_eq_some.mp h
  rw [Geometry.slots] at hlt
  rw [List.range_eq_range']
  refine readCount_range (by omega) ?_ ?_
  · rw [Nat.zero_add, Option.isSome_map, Option.isSome_iff_ne_none, ne_eq, freeEntry_eq_none_iff]
    intro hnone
    exact hfree.elim (hnone k rfl).1 (hnone k rfl).2
  · intro j hj
    rw [Nat.zero_add, Option.map_eq_none_iff, freeEntry_eq_none_iff]
    rintro i rfl
    exact hbefore i (by omega)

end Scans

/-! ## Attempts -/

/-- The directory and the data are as they were. -/
structure Untouched (v v' : Volume Image) : Prop extends SameMount v v' where
  sectors : ∀ lba : UInt32, v.geometry.rootStart.toNat ≤ lba.toNat →
    v'.disk.sectors lba = v.disk.sectors lba

/-- Steps that do not touch the directory and the data compose. -/
theorem Untouched.trans {v'' : Volume Image} (h : Untouched v v') (h' : Untouched v' v'') :
    Untouched v v'' where
  toSameMount := h.toSameMount.trans h'.toSameMount
  sectors := by
    intro lba hlba
    rw [h'.sectors lba (by rwa [h.geometry]), h.sectors lba hlba]

/-- Reads touch nothing. -/
theorem ReadOnly.untouched (h : ReadOnly v v') : Untouched v v' :=
  ⟨h.toSameMount, fun lba _ => congrFun h.sectors lba⟩

/-- If the directory is untouched, so are its slots. -/
theorem Untouched.slot (h : Untouched v v') (hv : Formatted v) :
    ∀ j < v.geometry.slots,
      slot v.geometry v'.disk.sectors j = slot v.geometry v.disk.sectors j := by
  have hg : v.geometry.Located := hv.geometry ▸ located_formatGeometry
  intro j hj
  rw [Fat16.slot, Fat16.slot, h.sectors _ (by rw [(hg.slot_toNat hj).1]; omega)]

/-- A write to the room of the FATs. -/
theorem Untouched.write {w : Volume Image} (hw : Untouched v w) {lba : UInt32}
    (hlba : lba.toNat < v.geometry.rootStart.toNat) (hmount : SameMount w v') {ok : Bool}
    {s : Sector} (hsectors : v'.disk.sectors = if ok then Function.update w.disk.sectors lba s
      else w.disk.sectors) : Untouched v v' where
  toSameMount := hw.toSameMount.trans hmount
  sectors := by
    intro lba' hle
    have hne : lba' ≠ lba := mt (congrArg UInt32.toNat) (by omega)
    rw [hsectors]
    split
    · rw [Function.update_of_ne hne, hw.sectors lba' hle]
    · exact hw.sectors lba' hle

/-- `setFATEntry` rewrites a sector and writes it once more, to the copy. -/
theorem setFATEntry_eq {σ : Type} (D : Disk σ) (c value : UInt16) (v : Volume σ) :
    setFATEntry D c value v =
      match rewriteSector D (v.geometry.fatStart + .ofNat (c.toNat * 2 / 512))
        (·.put16 (c.toNat * 2 % 512) value) v with
      | (false, v) => (false, v)
      | (true, v) =>
        (true, (writeSector D (v.geometry.fatStart + v.geometry.fatSz16.toUInt32 +
          .ofNat (c.toNat * 2 / 512)) v).2) := by
  rcases hread : D.readSector (v.geometry.fatStart + .ofNat (c.toNat * 2 / 512)) v.disk
    with ⟨_ | s, d⟩
  · simp only [setFATEntry, rewriteSector, readSector, hread]
  · rcases hwrite : writeSector D (v.geometry.fatStart + .ofNat (c.toNat * 2 / 512))
      { v with disk := d, fatBuf := s.put16 (c.toNat * 2 % 512) value } with ⟨_ | _, v'⟩
    · simp only [setFATEntry, rewriteSector, readSector, hread, hwrite]
    · simp only [setFATEntry, rewriteSector, readSector, hread, hwrite]

/-- The outcome is that of the first two transfers: a failure of the third, for the copy, is not
noticed. -/
theorem setFATEntry_unreliable (hv : Formatted v) {c : UInt16}
    (hc : c.toNat < v.geometry.fatEntries) {ok : Bool}
    (h : setFATEntry (unreliable fails) c 0xFFFF v = (ok, v')) :
    Untouched v v' ∧
      (ok = false ∧ (∃ i < 2, fails (v.clock + i) = true) ∨
        ok = true ∧ v'.clock = v.clock + 3 ∧ ∀ i < 2, fails (v.clock + i) = false) := by
  have hg : v.geometry.Located := hv.geometry ▸ located_formatGeometry
  have hfats := hg.fats_le (m := 2) (by rw [hv.geometry]; exact formatGeometry_numFATs.ge)
  obtain ⟨hfat, hlt⟩ := hg.entry_toNat hc
  have hmirror := hg.mirror_toNat (show c.toNat / 256 < 2 ^ 17 by have := c.toNat_lt; omega)
  rw [setFATEntry_eq, show c.toNat * 2 / 512 = c.toNat / 256 by omega] at h
  have hrewritten := rewritten fails v (v.geometry.fatStart + .ofNat (c.toNat / 256))
    (·.put16 (c.toNat * 2 % 512) 0xFFFF)
  generalize rewriteSector (unreliable fails) (v.geometry.fatStart + .ofNat (c.toNat / 256))
    (·.put16 (c.toNat * 2 % 512) 0xFFFF) v = r at hrewritten h
  cases hrewritten with
  | failed hfail hv₂ =>
    obtain ⟨rfl, rfl⟩ := Prod.mk.inj h
    exact ⟨hv₂.untouched, .inl ⟨rfl, hfail⟩⟩
  | @done v₂ hok hclock₂ hmount₂ hsectors₂ =>
    have hv₂ : Untouched v v₂ := (ReadOnly.refl v).untouched.write (by omega) hmount₂
      (hsectors₂.trans (if_pos (rfl : true = true)).symm)
    simp only [hv₂.geometry] at h
    rcases hcopy : writeSector (unreliable fails)
      (v.geometry.fatStart + v.geometry.fatSz16.toUInt32 + .ofNat (c.toNat / 256)) v₂
      with ⟨ok₃, v₃⟩
    obtain ⟨hmount₃, hclock₃, -, hsectors₃⟩ := writeSector_unreliable hcopy
    rw [hcopy] at h
    obtain ⟨rfl, rfl⟩ := Prod.mk.inj h
    refine ⟨hv₂.write (by omega) hmount₃ hsectors₃, .inr ⟨rfl, ?_, hok⟩⟩
    rw [hclock₃, hclock₂]

/-- The directory of a formatted volume has 32 sectors. -/
theorem Formatted.rootSectors (hv : Formatted v) : v.geometry.rootSectors.toNat = 32 := by
  rw [hv.geometry]
  decide

variable {n : FileName} {data : Sector} {dataLen : UInt32}

/-- The search for the name of the file. -/
theorem scan_duplicate (hv : Formatted v) {r : Scan Unit}
    (h : scan (unreliable fails) v.geometry.rootStart
      (fun _ buf => if holdsDuplicate n buf then some () else none)
      (List.range v.geometry.rootSectors.toNat) v = (r, v')) :
    ReadOnly v v' ∧
      (r = .failed ∧ (∃ i < 32, fails (v.clock + i) = true) ∨
        r = .found () ∧ Duplicate v.geometry v.disk.sectors n ∨
        r = .exhausted ∧ ¬Duplicate v.geometry v.disk.sectors n ∧ v'.clock = v.clock + 32 ∧
          ∀ i < 32, fails (v.clock + i) = false) := by
  obtain ⟨hv', hcases⟩ := scan_unreliable h
  have hiff := findSome?_duplicate v.geometry v.disk.sectors n
  refine ⟨hv', ?_⟩
  obtain ⟨rfl, i, hi, hfail⟩ | ⟨rfl, hclock, hclear⟩ := hcases
  · have hle := hi.trans_le (readCount_le _ _)
    rw [List.length_range, hv.rootSectors] at hle
    exact .inl ⟨rfl, i, hle, hfail⟩
  · cases hsome : (List.range v.geometry.rootSectors.toNat).findSome? fun sec =>
        if holdsDuplicate n (v.disk.sectors (v.geometry.rootStart + .ofNat sec)) then some ()
        else none with
    | some u =>
      rw [hsome] at hiff
      exact .inr (.inl ⟨rfl, not_not.mp fun hno => absurd (hiff.mpr hno) (by simp)⟩)
    | none =>
      rw [readCount_of_none hsome, List.length_range, hv.rootSectors] at hclock hclear
      exact .inr (.inr ⟨rfl, hiff.mp hsome, hclock, hclear⟩)

/-- The search of the FAT finds the first free cluster, or gives up at a read that fails. -/
theorem findFreeCluster_unreliable (hv : Formatted v) {c : UInt16}
    (h : findFreeCluster (unreliable fails) v = (c, v')) :
    ReadOnly v v' ∧
      (c = 0 ∧ (∀ c₀, firstFree v.geometry v.disk.sectors = some c₀ →
          ∃ i < c₀ / 256 + 1, fails (v.clock + i) = true) ∨
        c ≠ 0 ∧ firstFree v.geometry v.disk.sectors = some c.toNat ∧
          v'.clock = v.clock + (c.toNat / 256 + 1) ∧
          ∀ i < c.toNat / 256 + 1, fails (v.clock + i) = false) := by
  rcases hscan : scan (unreliable fails) v.geometry.fatStart freeIn
    (List.range v.geometry.fatSz16.toNat) v with ⟨r, v₁⟩
  obtain ⟨hv₁, hcases⟩ := scan_unreliable hscan
  rw [findFreeCluster, hscan] at h
  rw [findSome?_freeIn] at hcases
  obtain ⟨rfl, i, hi, hfail⟩ | ⟨rfl, hclock, hclear⟩ := hcases
  · obtain ⟨rfl, rfl⟩ := Prod.mk.inj h
    refine ⟨hv₁, .inl ⟨rfl, fun c₀ hfirst => ⟨i, ?_, hfail⟩⟩⟩
    rwa [readCount_freeIn hfirst] at hi
  · cases hfirst : firstFree v.geometry v.disk.sectors with
    | none =>
      simp only [hfirst, Option.map_none, Scan.ofOption] at h
      obtain ⟨rfl, rfl⟩ := Prod.mk.inj h
      exact ⟨hv₁, .inl ⟨rfl, by simp⟩⟩
    | some c₀ =>
      simp only [hfirst, Option.map_some, Scan.ofOption] at h
      obtain ⟨rfl, rfl⟩ := Prod.mk.inj h
      have hc : freeCluster v.geometry v.disk.sectors = .ofNat c₀ := by
        rw [freeCluster, hfirst]
        rfl
      have hne : UInt16.ofNat c₀ ≠ 0 := by
        rw [← hc, ne_eq, hv.freeCluster_eq_zero_iff, hfirst]
        simp
      have hnat := Option.some.inj (hfirst.symm.trans (hv.firstFree_eq hc hne))
      rw [readCount_freeIn hfirst] at hclock hclear
      rw [← hnat]
      exact ⟨hv₁, .inr ⟨hne, rfl, hclock, hclear⟩⟩

/-- The search for a free entry. -/
theorem scan_freeEntry (hv : Formatted v) {w : Volume Image} (hw : Untouched v w)
    {r : Scan (ℕ × ℕ)}
    (h : scan (unreliable fails) v.geometry.rootStart
      (fun sec buf => (freeEntry buf).map (sec, ·))
      (List.range v.geometry.rootSectors.toNat) w = (r, v')) :
    ReadOnly w v' ∧
      (r = .failed ∧ (∀ k, freeSlot v.geometry v.disk.sectors = some k →
          ∃ i < k / 16 + 1, fails (w.clock + i) = true) ∨
        r = .exhausted ∧ freeSlot v.geometry v.disk.sectors = none ∨
        ∃ k, r = .found (k / 16, k % 16) ∧ freeSlot v.geometry v.disk.sectors = some k ∧
          v'.clock = w.clock + (k / 16 + 1) ∧ ∀ i < k / 16 + 1, fails (w.clock + i) = false) := by
  obtain ⟨hv', hcases⟩ := scan_unreliable h
  have hslots := freeSlot_congr (hw.slot hv)
  rw [findSome?_freeEntry, hslots] at hcases
  refine ⟨hv', ?_⟩
  obtain ⟨rfl, i, hi, hfail⟩ | ⟨rfl, hclock, hclear⟩ := hcases
  · refine .inl ⟨rfl, fun k hk => ⟨i, ?_, hfail⟩⟩
    rwa [readCount_freeEntry (hslots.trans hk)] at hi
  · cases hfree : freeSlot v.geometry v.disk.sectors with
    | none => exact .inr (.inl ⟨rfl, rfl⟩)
    | some k =>
      rw [readCount_freeEntry (hslots.trans hfree)] at hclock hclear
      exact .inr (.inr ⟨k, rfl, rfl, hclock, hclear⟩)

/-- The transfer that writes the copy of the FAT, for cluster `c`. -/
def mirrorWrite (c : ℕ) : ℕ := 32 + (c / 256 + 1) + 2

/-- The transfer that writes the data, for cluster `c` and slot `k`. -/
def dataWrite (c k : ℕ) : ℕ := 32 + (c / 256 + 1) + 3 + (k / 16 + 1) + 2

/-- The call comes as far as to the data: the name is new, a cluster and a slot are free, and no
transfer before fails, up to the copy of the FAT. -/
structure Reaches (fails : ℕ → Bool) (v : Volume Image) (n : FileName) (c k : ℕ) : Prop where
  fresh : ¬Duplicate v.geometry v.disk.sectors n
  cluster : firstFree v.geometry v.disk.sectors = some c
  slot : freeSlot v.geometry v.disk.sectors = some k
  transfers : ∀ i < dataWrite c k, i ≠ mirrorWrite c → fails (v.clock + i) = false

/-- Any other transfer that fails before the data stops the call. -/
theorem Reaches.not_fails {c k : ℕ} (h : Reaches fails v n c k) {t i : ℕ}
    (hfail : fails (t + i) = true) {m : ℕ} (ht : t = v.clock + m) (hlt : m + i < dataWrite c k)
    (hne : m + i ≠ mirrorWrite c) : False := by
  have hok := h.transfers (m + i) hlt hne
  rw [← Nat.add_assoc, ← ht, hfail] at hok
  cases hok

/-- The transfers of one stage, counted from the start of the call. -/
theorem not_fails_of_stage {t a m : ℕ} (h : ∀ i < m, fails (t + i) = false) (ht : t = v.clock + a)
    {i : ℕ} (hle : a ≤ i) (hlt : i < a + m) : fails (v.clock + i) = false := by
  have hi := h (i - a) (by omega)
  rwa [ht, Nat.add_assoc, Nat.add_sub_cancel' hle] at hi

/-- The directory with the new entry in slot `k`. -/
def Entered (v v' : Volume Image) (n : FileName) (c k : ℕ) (dataLen : UInt32) : Prop :=
  ∀ j < v.geometry.slots, slot v.geometry v'.disk.sectors j =
    if j = k then newEntry (slot v.geometry v.disk.sectors k) n (.ofNat c) dataLen
    else slot v.geometry v.disk.sectors j

/-- The ends of `createFile` on a disk that fails. -/
inductive Attempt (fails : ℕ → Bool) (v : Volume Image) (n : FileName) (data : Sector)
    (dataLen : UInt32) : Except String Unit × Volume Image → Prop
  | stopped {e : String} {v' : Volume Image} (hstop : ∀ c k, ¬Reaches fails v n c k)
      (hv' : Untouched v v') : Attempt fails v n data dataLen (.error e, v')
  | unwritten {c k : ℕ} {v' : Volume Image} (hreach : Reaches fails v n c k)
      (hfail : fails (v.clock + dataWrite c k) = true) (hmount : SameMount v v')
      (hv' : Entered v v' n c k dataLen) : Attempt fails v n data dataLen (.error "", v')
  | created {c k : ℕ} {v' : Volume Image} (hreach : Reaches fails v n c k)
      (hok : fails (v.clock + dataWrite c k) = false) (hmount : SameMount v v')
      (hv' : Entered v v' n c k dataLen)
      (hdata : v'.disk.sectors (v.geometry.clusterToSector (.ofNat c)) = padded data dataLen) :
      Attempt fails v n data dataLen (.ok (), v')

/-- The writes to the directory and to the data: the second may fail. -/
theorem Untouched.entered (hv : Formatted v) (hv' : Untouched v v') {k : ℕ}
    (hk : k < v.geometry.slots) (c : ℕ) {d : Contents} {ok : Bool}
    (hd : d = Function.update v'.disk.sectors (v.geometry.rootStart + .ofNat (k / 16))
      (putEntry (v'.disk.sectors (v.geometry.rootStart + .ofNat (k / 16))) (k % 16) n (.ofNat c)
        dataLen)) {w : Volume Image}
    (hw : w.disk.sectors = if ok then
      Function.update d (v.geometry.clusterToSector (.ofNat c)) (padded data dataLen) else d) :
    Entered v w n c k dataLen := by
  have hg : v.geometry.Located := hv.geometry ▸ located_formatGeometry
  have hslots := hv'.slot hv
  have hplace : place v.geometry v'.disk.sectors k n (.ofNat c) data dataLen =
      Function.update d (v.geometry.clusterToSector (.ofNat c)) (padded data dataLen) := by
    rw [hd, place]
  intro j hj
  rw [← hslots j hj, ← hslots k hk, hw]
  refine Eq.trans ?_ (hplace ▸ slot_place hg hk hj)
  -- the data lie behind the directory
  split
  · rfl
  · obtain ⟨hslot, hlt⟩ := hg.slot_toNat hj
    have hdata := dataStart_le hg (.ofNat c)
    have hstart := hg.dataStart
    rw [Fat16.slot, Fat16.slot, Function.update_of_ne (mt (congrArg UInt32.toNat) (by omega))]

/-- The last part of `createFile`: the entry in slot `k`, then the data. -/
def fillSlot {σ : Type} (D : Disk σ) (rootStart : UInt32) (k : ℕ) (n : FileName)
    (cluster : UInt16) (data : Sector) (dataLen : UInt32) (v : Volume σ) :
    Except String Unit × Volume σ :=
  match readSector D (rootStart + .ofNat (k / 16)) v with
  | (false, v) => (.error "", v)
  | (true, v) =>
  match writeSector D (rootStart + .ofNat (k / 16))
    { v with fatBuf := putEntry v.fatBuf (k % 16) n cluster dataLen } with
  | (false, v) => (.error "", v)
  | (true, v) =>
  match writeSector D (v.geometry.clusterToSector cluster)
    { v with fatBuf := padded data dataLen } with
  | (false, v) => (.error "", v)
  | (true, v) => (.ok (), v)

/-- `fillSlot` rewrites a sector of the directory and writes the data. -/
theorem fillSlot_eq {σ : Type} (D : Disk σ) (rootStart : UInt32) (k : ℕ) (n : FileName)
    (cluster : UInt16) (data : Sector) (dataLen : UInt32) (v : Volume σ) :
    fillSlot D rootStart k n cluster data dataLen v =
      match rewriteSector D (rootStart + .ofNat (k / 16))
        (putEntry · (k % 16) n cluster dataLen) v with
      | (false, v) => (.error "", v)
      | (true, v) =>
        match writeSector D (v.geometry.clusterToSector cluster)
          { v with fatBuf := padded data dataLen } with
        | (false, v) => (.error "", v)
        | (true, v) => (.ok (), v) := by
  rcases hread : readSector D (rootStart + .ofNat (k / 16)) v with ⟨_ | _, v₁⟩
  · simp only [fillSlot, rewriteSector, hread]
  · simp only [fillSlot, rewriteSector, hread]

/-- Of the three transfers, only the last one can fail with the entry written. -/
theorem fillSlot_unreliable (hv : Formatted v) {w : Volume Image} (hw : Untouched v w) {k : ℕ}
    (hk : k < v.geometry.slots) (c : ℕ) {r : Except String Unit}
    (h : fillSlot (unreliable fails) v.geometry.rootStart k n (.ofNat c) data dataLen w =
      (r, v')) :
    r = .error "" ∧ Untouched v v' ∧ (∃ i < 2, fails (w.clock + i) = true) ∨
      (∀ i < 2, fails (w.clock + i) = false) ∧ SameMount v v' ∧ Entered v v' n c k dataLen ∧
        (r = .error "" ∧ fails (w.clock + 2) = true ∨
          r = .ok () ∧ fails (w.clock + 2) = false ∧
            v'.disk.sectors (v.geometry.clusterToSector (.ofNat c)) = padded data dataLen) := by
  rw [fillSlot_eq] at h
  have hrewritten := rewritten fails w (v.geometry.rootStart + .ofNat (k / 16))
    (putEntry · (k % 16) n (.ofNat c) dataLen)
  generalize rewriteSector (unreliable fails) (v.geometry.rootStart + .ofNat (k / 16))
    (putEntry · (k % 16) n (.ofNat c) dataLen) w = r₂ at hrewritten h
  cases hrewritten with
  | failed hfail hv₂ =>
    obtain ⟨rfl, rfl⟩ := Prod.mk.inj h
    exact .inl ⟨rfl, hw.trans hv₂.untouched, hfail⟩
  | @done v₂ hok hclock₂ hmount₂ hsectors₂ =>
    have hmount₂ := hw.toSameMount.trans hmount₂
    dsimp only at h
    rcases hfile : writeSector (unreliable fails) (v₂.geometry.clusterToSector (.ofNat c))
      { v₂ with fatBuf := padded data dataLen } with ⟨ok₃, v₃⟩
    obtain ⟨hmount₃, -, hok₃, hsectors₃⟩ := writeSector_unreliable hfile
    rw [hmount₂.geometry] at hsectors₃
    have hok₃ : fails (w.clock + 2) = !ok₃ := hclock₂ ▸ hok₃
    have hmount₃ := hmount₂.trans ⟨hmount₃.geometry, hmount₃.initialized⟩
    have hentered : Entered v v₃ n c k dataLen := hw.entered hv hk c hsectors₂ hsectors₃
    rw [hfile] at h
    cases ok₃ with
    | false =>
      obtain ⟨rfl, rfl⟩ := Prod.mk.inj h
      exact .inr ⟨hok, hmount₃, hentered, .inl ⟨rfl, hok₃⟩⟩
    | true =>
      obtain ⟨rfl, rfl⟩ := Prod.mk.inj h
      refine .inr ⟨hok, hmount₃, hentered, .inr ⟨rfl, hok₃, ?_⟩⟩
      rw [hsectors₃]
      exact Function.update_self ..

/-- The state in which `createFile` has found a cluster and a slot: only the FATs have changed. -/
structure Chosen (fails : ℕ → Bool) (v : Volume Image) (n : FileName) (c k : ℕ)
    (w : Volume Image) : Prop where
  fresh : ¬Duplicate v.geometry v.disk.sectors n
  cluster : firstFree v.geometry v.disk.sectors = some c
  slot : freeSlot v.geometry v.disk.sectors = some k
  untouched : Untouched v w
  clock : w.clock = v.clock + (32 + (c / 256 + 1) + 3 + (k / 16 + 1))
  transfers : ∀ i < 32 + (c / 256 + 1) + 3 + (k / 16 + 1), i ≠ mirrorWrite c →
    fails (v.clock + i) = false

/-- If the entry is written, `createFile` reaches the data. -/
theorem Chosen.reaches {c k : ℕ} {w : Volume Image} (h : Chosen fails v n c k w)
    (hok : ∀ i < 2, fails (w.clock + i) = false) : Reaches fails v n c k := by
  refine ⟨h.fresh, h.cluster, h.slot, fun i hi hmirror => ?_⟩
  rw [dataWrite] at hi
  by_cases hbefore : i < 32 + (c / 256 + 1) + 3 + (k / 16 + 1)
  · exact h.transfers i hbefore hmirror
  · exact not_fails_of_stage hok h.clock (not_lt.mp hbefore) hi

/-- The last three transfers of `createFile`, from the state in which it has its cluster and its
slot. -/
theorem Chosen.attempt {c k : ℕ} {w : Volume Image} (h : Chosen fails v n c k w)
    (hv : Formatted v) (data : Sector) (dataLen : UInt32) :
    Attempt fails v n data dataLen
      (fillSlot (unreliable fails) v.geometry.rootStart k n (.ofNat c) data dataLen w) := by
  obtain ⟨hk, -, -⟩ := freeSlot_eq_some.mp h.slot
  have hdata : w.clock + 2 = v.clock + dataWrite c k := by
    rw [h.clock, dataWrite]
    omega
  rcases hfill : fillSlot (unreliable fails) v.geometry.rootStart k n (.ofNat c) data dataLen w
    with ⟨r, v'⟩
  obtain ⟨rfl, hv', i, hi, hfail⟩ | ⟨hok, hmount, hentered, hlast⟩ :=
    fillSlot_unreliable hv h.untouched hk c hfill
  · refine .stopped (fun c' k' hreach => ?_) hv'
    obtain rfl := Option.some.inj (h.cluster.symm.trans hreach.cluster)
    obtain rfl := Option.some.inj (h.slot.symm.trans hreach.slot)
    exact hreach.not_fails hfail h.clock (by rw [dataWrite]; omega) (by rw [mirrorWrite]; omega)
  · have hreach := h.reaches hok
    rw [hdata] at hlast
    obtain ⟨rfl, hfail⟩ | ⟨rfl, hok, hsector⟩ := hlast
    · exact .unwritten hreach hfail hmount hentered
    · exact .created hreach hok hmount hentered hsector

/-- `createFile` on a disk that fails, transfer by transfer. -/
theorem attempt (hv : Formatted v) (n : FileName) (data : Sector) (dataLen : UInt32) :
    Attempt fails v n data dataLen (createFile (unreliable fails) n data dataLen v) := by
  rw [createFile, if_neg (by simp [hv.initialized])]
  rcases hdup : scan (unreliable fails) v.geometry.rootStart
    (fun _ buf => if holdsDuplicate n buf then some () else none)
    (List.range v.geometry.rootSectors.toNat) v with ⟨r₁, v₁⟩
  simp only [hdup]
  obtain ⟨hv₁, ⟨rfl, i, hi, hfail⟩ | ⟨rfl, hexists⟩ | ⟨rfl, hfresh, hclock₁, hok₁⟩⟩ :=
    scan_duplicate hv hdup
  · exact .stopped (fun c k h => h.not_fails (m := 0) hfail rfl (by rw [dataWrite]; omega)
      (by rw [mirrorWrite]; omega)) hv₁.untouched
  · exact .stopped (fun c k h => h.fresh hexists) hv₁.untouched
  rcases hcluster : findFreeCluster (unreliable fails) v₁ with ⟨c, v₂⟩
  obtain ⟨hv₂, hcases⟩ := findFreeCluster_unreliable (hv.sameMount hv₁.toSameMount) hcluster
  have hv₂ := hv₁.trans hv₂
  rw [hv₁.geometry, hv₁.sectors] at hcases
  simp only [hcluster]
  obtain ⟨rfl, hstop⟩ | ⟨hne, hfirst, hclock₂, hok₂⟩ := hcases
  · refine .stopped (fun c k h => ?_) hv₂.untouched
    obtain ⟨i, hi, hfail⟩ := hstop c h.cluster
    exact h.not_fails hfail hclock₁ (by rw [dataWrite]; omega) (by rw [mirrorWrite]; omega)
  rw [hclock₁, Nat.add_assoc] at hclock₂
  rcases hset : setFATEntry (unreliable fails) c 0xFFFF v₂ with ⟨ok₃, v₃⟩
  obtain ⟨hv₃, hcases⟩ := setFATEntry_unreliable (hv.sameMount hv₂.toSameMount)
    (by rw [hv₂.geometry]; exact (firstFree_eq_some.mp hfirst).1) hset
  have hv₃ := hv₂.untouched.trans hv₃
  simp only [if_neg hne]
  obtain ⟨rfl, i, hi, hfail⟩ | ⟨rfl, hclock₃, hok₃⟩ := hcases
  · refine .stopped (fun c' k h => ?_) hv₃
    obtain rfl := Option.some.inj (hfirst.symm.trans h.cluster)
    exact h.not_fails hfail hclock₂ (by rw [dataWrite]; omega) (by rw [mirrorWrite]; omega)
  rw [hclock₂, Nat.add_assoc] at hclock₃
  rcases hslot : scan (unreliable fails) v.geometry.rootStart
    (fun sec buf => (freeEntry buf).map (sec, ·))
    (List.range v.geometry.rootSectors.toNat) v₃ with ⟨r₄, v₄⟩
  simp only [hslot]
  obtain ⟨hv₄, ⟨rfl, hstop⟩ | ⟨rfl, hfull⟩ | ⟨k, rfl, hfree, hclock₄, hok₄⟩⟩ :=
    scan_freeEntry hv hv₃ hslot
  · refine .stopped (fun c' k h => ?_) (hv₃.trans hv₄.untouched)
    obtain ⟨i, hi, hfail⟩ := hstop k h.slot
    obtain rfl := Option.some.inj (hfirst.symm.trans h.cluster)
    exact h.not_fails hfail hclock₃ (by rw [dataWrite]; omega) (by rw [mirrorWrite]; omega)
  · refine .stopped (fun c' k h => ?_) (hv₃.trans hv₄.untouched)
    cases hfull.symm.trans h.slot
  rw [hclock₃, Nat.add_assoc] at hclock₄
  have hchosen : Chosen fails v n c.toNat k v₄ := by
    refine ⟨hfresh, hfirst, hfree, hv₃.trans hv₄.untouched, hclock₄, fun i hi hmirror => ?_⟩
    rw [mirrorWrite] at hmirror
    -- the stages follow each other, with the copy of the FAT between the third and the fourth
    by_cases hi₁ : i < 32
    · exact hok₁ i hi₁
    by_cases hi₂ : i < 32 + (c.toNat / 256 + 1)
    · exact not_fails_of_stage hok₂ hclock₁ (by omega) hi₂
    by_cases hi₃ : i < 32 + (c.toNat / 256 + 1) + 2
    · exact not_fails_of_stage hok₃ hclock₂ (by omega) hi₃
    · exact not_fails_of_stage hok₄ hclock₃ (by omega) hi
  have hattempt := hchosen.attempt hv data dataLen
  rw [UInt16.ofNat_toNat] at hattempt
  exact hattempt

end DavOS.Fat16
