import DavOS.Fat16.Unreliable

/-!
# Phantom files

`createFile` on a disk that fails, and a later `readFile` on a disk that works again. The call is
honest if a file is found exactly when the call has succeeded. The data are written last, so that a
failure there leaves an entry in the directory (`Formatted.phantom`). A name whose first byte marks
the end of the directory or a deleted entry is accepted, and never found.
-/

namespace DavOS.Fat16

variable {fails : ℕ → Bool} {v v' : Volume Image} {n : FileName} {dataLen : UInt32}

/-- A call of `createFile`, and the transfers that fail in it. -/
structure Trial extends Request where
  fails : ℕ → Bool

def Trial.call (t : Trial) (v : Volume Image) : Except String Unit × Volume Image :=
  createFile (unreliable t.fails) t.name t.data t.dataLen v

/-- The volume after `format`, `init` and any calls of `createFile`. -/
def afterTrials (v₀ : Volume Image) (trials : List Trial) : Volume Image :=
  trials.foldl (fun v t => (t.call v).2) (Archive.ofFormat v₀).volume

/-- What a call says is what `readFile` finds later, on a disk that works again. -/
def Honest (t : Trial) (v : Volume Image) : Prop :=
  ((t.call v).1 ≠ .ok () → (readFile working t.name (t.call v).2).1 = none) ∧
    ((t.call v).1 = .ok () → ∃ bytes : Sector,
      (readFile working t.name (t.call v).2).1 = some (t.dataLen, bytes) ∧
        ∀ i : Fin 512, i.val < t.dataLen.toNat → bytes i = t.data i)

/-- The first byte of the name marks neither the end of the directory nor a deleted entry. -/
structure FileName.Visible (n : FileName) : Prop where
  not_end : n.name 0 ≠ 0
  not_deleted : n.name 0 ≠ 0xE5

/-- Trials keep the mount. -/
theorem formatted_afterTrials (v₀ : Volume Image) (trials : List Trial) :
    Formatted (afterTrials v₀ trials) := by
  refine List.foldlRecOn trials _ (Formatted.ofFormat v₀) fun v hv t _ => ?_
  have hattempt : Attempt t.fails v t.name t.data t.dataLen _ := attempt hv t.name t.data t.dataLen
  rw [Trial.call]
  generalize createFile (unreliable t.fails) t.name t.data t.dataLen v = result at hattempt
  cases hattempt with
  | stopped hstop hv' => exact hv.sameMount hv'.toSameMount
  | unwritten hreach hfail hmount hv' => exact hv.sameMount hmount
  | created hreach hok hmount hv' hdata => exact hv.sameMount hmount

/-- A file is not read exactly if no slot has its name. -/
theorem readFile_eq_none_iff (hv : Formatted v) :
    (readFile working n v).1 = none ↔ lookup v.geometry v.disk.sectors n = none := by
  rw [(readFile_working hv.initialized n).1, Option.map_eq_none_iff]

/-- A name that is not visible is never found. -/
theorem lookup_of_not_visible {g : Geometry} {d : Contents} (h : ¬n.Visible) :
    lookup g d n = none := by
  rw [Option.eq_none_iff_forall_ne_some]
  intro k hk
  obtain ⟨-, hend, hdeleted, hname, -⟩ := lookup_eq_some.mp hk
  have hfirst := hname.get_zero
  refine h ⟨?_, ?_⟩
  · rw [← hfirst]
    exact hend
  · rw [← hfirst]
    exact hdeleted

/-- No slot before the first free one has an absent name. -/
theorem not_hasName_of_lt {g : Geometry} {d : Contents} {k : ℕ} (hslot : freeSlot g d = some k)
    (habsent : lookup g d n = none) {j : ℕ} (hj : j < k) : ¬HasName n (slot g d j) := by
  obtain ⟨hk, -, hbefore⟩ := freeSlot_eq_some.mp hslot
  induction j using Nat.strong_induction_on with
  | h j ih =>
    intro hname
    have hfound : lookup g d n = some j := by
      refine lookup_eq_some.mpr ⟨by omega, (hbefore j hj).1, (hbefore j hj).2, hname, ?_⟩
      intro i hi
      exact ⟨(hbefore i (by omega)).1, .inr (ih i hi (by omega))⟩
    cases habsent.symm.trans hfound

/-- A new entry with a visible name is found. -/
theorem Entered.lookup_eq {c k : ℕ} (h : Entered v v' n c k dataLen)
    (hslot : freeSlot v.geometry v.disk.sectors = some k)
    (habsent : lookup v.geometry v.disk.sectors n = none) (hvisible : n.Visible) :
    lookup v.geometry v'.disk.sectors n = some k := by
  obtain ⟨hk, -, hbefore⟩ := freeSlot_eq_some.mp hslot
  have hnew := h k hk
  have hfile : IsFile (newEntry (slot v.geometry v.disk.sectors k) n (.ofNat c) dataLen) n
      (.ofNat c) dataLen := isFile_newEntry
  rw [if_pos rfl] at hnew
  rw [lookup_eq_some, hnew]
  refine ⟨hk, ?_, ?_, hfile.name, ?_⟩
  · rw [IsEnd, hfile.name.get_zero]
    exact hvisible.1
  · rw [IsDeleted, hfile.name.get_zero]
    exact hvisible.2
  · intro j hj
    rw [Passes, h j (by omega), if_neg (by omega)]
    exact ⟨(hbefore j hj).1, .inr (not_hasName_of_lt hslot habsent hj)⟩

/-- What `readFile` finds of a new entry with a visible name. -/
theorem Entered.readFile_eq {c k : ℕ} (h : Entered v v' n c k dataLen) (hv : Formatted v')
    (hmount : SameMount v v') (hslot : freeSlot v.geometry v.disk.sectors = some k)
    (habsent : lookup v.geometry v.disk.sectors n = none) (hvisible : n.Visible) :
    (readFile working n v').1 =
      some (dataLen, v'.disk.sectors (v.geometry.clusterToSector (.ofNat c))) := by
  obtain ⟨hk, -, -⟩ := freeSlot_eq_some.mp hslot
  have hnew := h k hk
  have hfile : IsFile (newEntry (slot v.geometry v.disk.sectors k) n (.ofNat c) dataLen) n
      (.ofNat c) dataLen := isFile_newEntry
  rw [if_pos rfl] at hnew
  rw [(readFile_working hv.initialized n).1, hmount.geometry,
    h.lookup_eq hslot habsent hvisible, Option.map_some, hnew, hfile.size, hfile.cluster]

/-- The cluster and the slot of a call are determined. -/
theorem Reaches.forall_iff {c k : ℕ} (h : Reaches fails v n c k) {p : ℕ → ℕ → Prop} :
    (∀ c' k', Reaches fails v n c' k' → p c' k') ↔ p c k := by
  refine ⟨fun hall => hall c k h, fun hp c' k' h' => ?_⟩
  obtain rfl := Option.some.inj (h.cluster.symm.trans h'.cluster)
  obtain rfl := Option.some.inj (h.slot.symm.trans h'.slot)
  exact hp

/-- **When a call is honest.** If it comes as far as to the data, they must be written exactly if
the name is one that `readFile` finds. -/
theorem Formatted.honest_iff (hv : Formatted v) (t : Trial)
    (habsent : (readFile working t.name v).1 = none) :
    Honest t v ↔ ∀ c k, Reaches t.fails v t.name c k →
      (t.fails (v.clock + dataWrite c k) = false ↔ t.name.Visible) := by
  rw [readFile_eq_none_iff hv] at habsent
  have hattempt : Attempt t.fails v t.name t.data t.dataLen _ := attempt hv t.name t.data t.dataLen
  rw [Honest, Trial.call]
  generalize createFile (unreliable t.fails) t.name t.data t.dataLen v = result at hattempt
  cases hattempt with
  | stopped hstop hv' =>
    refine iff_of_true ⟨fun _ => ?_, by simp⟩ fun c k hreach => absurd hreach (hstop c k)
    rw [readFile_eq_none_iff (hv.sameMount hv'.toSameMount), hv'.geometry,
      lookup_congr (hv'.slot hv), habsent]
  | unwritten hreach hfail hmount hv' =>
    rw [hreach.forall_iff, hfail]
    refine ⟨fun h => iff_of_false (by simp) fun hvisible => ?_, fun h => ⟨fun _ => ?_, by simp⟩⟩
    · have hnone := h.1 (by simp)
      rw [hv'.readFile_eq (hv.sameMount hmount) hmount hreach.slot habsent hvisible] at hnone
      cases hnone
    · rw [readFile_eq_none_iff (hv.sameMount hmount), lookup_of_not_visible (by simpa using h)]
  | created hreach hok hmount hv' hdata =>
    rw [hreach.forall_iff, iff_true_left hok]
    refine ⟨fun h => ?_, fun h => ⟨by simp, fun _ => ⟨padded t.data t.dataLen, ?_, ?_⟩⟩⟩
    · obtain ⟨bytes, hread, -⟩ := h.2 rfl
      by_contra hinvisible
      rw [(readFile_eq_none_iff (hv.sameMount hmount)).mpr (lookup_of_not_visible hinvisible)]
        at hread
      cases hread
    · rw [hv'.readFile_eq (hv.sameMount hmount) hmount hreach.slot habsent h, hdata]
    · intro i hi
      rw [padded, if_pos hi]

/-- If only the data are not written, a visible name is found although the call fails. -/
theorem Formatted.phantom (hv : Formatted v) {t : Trial} {c k : ℕ}
    (hreach : Reaches t.fails v t.name c k) (hfail : t.fails (v.clock + dataWrite c k) = true)
    (habsent : lookup v.geometry v.disk.sectors t.name = none) (hvisible : t.name.Visible) :
    (t.call v).1 = .error "" ∧ (readFile working t.name (t.call v).2).1 ≠ none := by
  have hattempt : Attempt t.fails v t.name t.data t.dataLen _ := attempt hv t.name t.data t.dataLen
  rw [Trial.call]
  generalize createFile (unreliable t.fails) t.name t.data t.dataLen v = result at hattempt
  cases hattempt with
  | stopped hstop hv' => exact absurd hreach (hstop c k)
  | unwritten hreach' hfail' hmount hv' =>
    refine ⟨rfl, ?_⟩
    rw [hv'.readFile_eq (hv.sameMount hmount) hmount hreach'.slot habsent hvisible]
    simp
  | created hreach' hok hmount hv' hdata =>
    have hok' := (hreach'.forall_iff
      (p := fun c k => t.fails (v.clock + dataWrite c k) = false)).mpr hok c k hreach
    cases hfail.symm.trans hok'

/-- **No phantom files.** After `format`, `init` and any calls of `createFile`, for any name that is
absent and any failures in the call: the call is honest exactly if, once it comes as far as to the
data, they are written if and only if the name is visible. -/
theorem no_phantom_iff (v₀ : Volume Image) (trials : List Trial) (t : Trial)
    (habsent : (readFile working t.name (afterTrials v₀ trials)).1 = none) :
    Honest t (afterTrials v₀ trials) ↔
      ∀ c k, Reaches t.fails (afterTrials v₀ trials) t.name c k →
        (t.fails ((afterTrials v₀ trials).clock + dataWrite c k) = false ↔ t.name.Visible) :=
  (formatted_afterTrials v₀ trials).honest_iff t habsent

/-! ## The first file -/

theorem afterTrials_nil (v₀ : Volume Image) :
    afterTrials v₀ [] = (Archive.ofFormat v₀).volume := rfl

/-- A volume that has just been formatted has no file. -/
theorem lookup_ofFormat (v₀ : Volume Image) (n : FileName) :
    lookup (afterTrials v₀ []).geometry (afterTrials v₀ []).disk.sectors n = none := by
  obtain ⟨-, -, hholds⟩ := Archive.init_format v₀
  rw [afterTrials_nil, hholds.geometry, hholds.stored.lookup_eq]
  rfl

/-- After `format`, a file gets cluster 2 and slot 0. -/
theorem reaches_ofFormat (v₀ : Volume Image) (n : FileName)
    (hok : ∀ i < dataWrite 2 0, fails ((afterTrials v₀ []).clock + i) = false) :
    Reaches fails (afterTrials v₀ []) n 2 0 := by
  obtain ⟨-, -, hholds⟩ := Archive.init_format v₀
  refine ⟨?_, ?_, ?_, fun i hi _ => hok i hi⟩
  · rw [afterTrials_nil, hholds.geometry, hholds.stored.duplicate_iff]
    rintro ⟨f, hf, -⟩
    cases hf
  · rw [afterTrials_nil, hholds.geometry, hholds.fat.firstFree_eq]
    rfl
  · rw [afterTrials_nil, hholds.geometry, hholds.stored.freeSlot_eq]
    rfl

/-- The names of numbered files can be found. -/
theorem visible_numbered (k : ℕ) : (numbered k).name.Visible :=
  ⟨(visible_numberedName k).1, (visible_numberedName k).2⟩

/-- A first file, with three bytes, and the failures in its call. -/
def firstTrial (fails : ℕ → Bool) : Trial := ⟨⟨(numbered 0).name, Block.fill 0x41, 3⟩, fails⟩

/-- No file of it is read. -/
theorem absent_ofFormat (v₀ : Volume Image) (n : FileName) :
    (readFile working n (afterTrials v₀ [])).1 = none :=
  (readFile_eq_none_iff (formatted_afterTrials v₀ [])).mpr (lookup_ofFormat v₀ n)

/-- Only transfer `m` fails. -/
def failsAt (m i : ℕ) : Bool := decide (i = m)

/-- The failures that the first file survives: the write of the second FAT is not that of the data,
and after the first transfer there is none. -/
theorem honest_failsAt (v₀ : Volume Image) {m : ℕ}
    (hm : m = (afterTrials v₀ []).clock + mirrorWrite 2 ∨ m = (afterTrials v₀ []).clock) (c k : ℕ)
    (hreach : Reaches (firstTrial (failsAt m)).fails (afterTrials v₀ [])
      (firstTrial (failsAt m)).name c k) :
    (firstTrial (failsAt m)).fails ((afterTrials v₀ []).clock + dataWrite c k) = false ↔
      (firstTrial (failsAt m)).name.Visible := by
  refine iff_of_true ?_ (visible_numbered 0)
  rcases hm with hm | hm
  · obtain ⟨-, -, hholds⟩ := Archive.init_format v₀
    have hcluster := hreach.cluster
    rw [afterTrials_nil, hholds.geometry, hholds.fat.firstFree_eq] at hcluster
    obtain rfl : 2 = c := Option.some.inj hcluster
    refine decide_eq_false ?_
    rw [hm, dataWrite, mirrorWrite]
    omega
  · have hfirst := hreach.transfers 0 (by rw [dataWrite]; omega) (by rw [mirrorWrite]; omega)
    rw [Nat.add_zero, ← hm] at hfirst
    exact absurd (decide_eq_true (rfl : m = m)) (Bool.eq_false_iff.mp hfirst)

/-- If only the write of the second FAT fails, the file is there; if the first transfer fails, it is
not, and the call says so. -/
theorem first_file_honest :
    Honest (firstTrial (failsAt ((afterTrials blankDisk []).clock + mirrorWrite 2)))
        (afterTrials blankDisk []) ∧
      Honest (firstTrial (failsAt (afterTrials blankDisk []).clock))
        (afterTrials blankDisk []) := by
  have hhonest := fun (m : ℕ)
      (hm : m = (afterTrials blankDisk []).clock + mirrorWrite 2 ∨
        m = (afterTrials blankDisk []).clock) =>
    (no_phantom_iff blankDisk [] (firstTrial (failsAt m)) (absent_ofFormat _ _)).mpr
      (honest_failsAt blankDisk hm)
  exact ⟨hhonest _ (.inl rfl), hhonest _ (.inr rfl)⟩

/-- If the write of the data fails, the call fails and the file is there. -/
theorem phantom_of_failsAt (v₀ : Volume Image) {m : ℕ}
    (hm : m = (afterTrials v₀ []).clock + dataWrite 2 0) :
    ((firstTrial (failsAt m)).call (afterTrials v₀ [])).1 = .error "" ∧
      (readFile working (firstTrial (failsAt m)).name
        ((firstTrial (failsAt m)).call (afterTrials v₀ [])).2).1 ≠ none := by
  have hreach : Reaches (failsAt m) (afterTrials v₀ []) (numbered 0).name 2 0 := by
    refine reaches_ofFormat v₀ _ fun i hi => ?_
    rw [failsAt, decide_eq_false_iff_not]
    omega
  refine (formatted_afterTrials v₀ []).phantom hreach ?_ (lookup_ofFormat v₀ _)
    (visible_numbered 0)
  rw [← hm]
  exact decide_eq_true rfl

/-- The write of the data of the first file fails. -/
def dataFailure : Trial := firstTrial (failsAt ((afterTrials blankDisk []).clock + dataWrite 2 0))

/-- Only the write of the data fails: `createFile` fails too, and `readFile` finds the file. -/
theorem phantom_file :
    (readFile working dataFailure.name (afterTrials blankDisk [])).1 = none ∧
      (dataFailure.call (afterTrials blankDisk [])).1 = .error "" ∧
      (readFile working dataFailure.name (dataFailure.call (afterTrials blankDisk [])).2).1 ≠
        none :=
  ⟨absent_ofFormat _ _, phantom_of_failsAt blankDisk rfl⟩

end DavOS.Fat16
