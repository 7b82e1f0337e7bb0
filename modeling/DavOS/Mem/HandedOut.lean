import DavOS.Mem.Refinement

/-!
# Which pages come back

`FreePage` is meant for pages that `AllocPage` returned. It checks that the bit of the page is set,
and that bit is also set for the pages that were never available: the holes between the entries of
the memory map. A hole that is freed is handed out afterwards (`hole_freed_and_handed_out`). In runs
whose calls of `FreePage` name no such page, only pages that are handed out come back
(`freed_only_handed_out`).
-/

namespace DavOS.Mem

/-- A call of `FreePage` does not name a hole: a page that is managed, and that no available entry
holds. -/
def Call.SparesHoles (pl : Platform) (s : Allocator) : Call → Prop
  | .allocPage => True
  | .freePage addr => 4096 ∣ addr.toNat → s.scanStart.toNat ≤ addr.toNat / 4096 →
      addr.toNat / 4096 < s.totalPages.toNat → ∃ e ∈ pl.available, e.Spans (addr.toNat / 4096)

namespace Allocator

/-! ## One call -/

/-- What a call does to the free pages, with its outcome. -/
inductive Effect (s : Allocator) : Call → Outcome → Finset ℕ → Prop
  | took {p : ℕ} {addr : UInt64} (hp : p ∈ s.free) (haddr : addr.toNat = 4096 * p) :
    Effect s .allocPage (.allocated addr) (s.free.erase p)
  | exhausted (hempty : s.free = ∅) : Effect s .allocPage (.allocated 0) s.free
  | gave {addr : UInt64} (hreturn : s.Returnable addr) :
    Effect s (.freePage addr) (.freed addr true) (insert (addr.toNat / 4096) s.free)
  | refused (addr : UInt64) : Effect s (.freePage addr) (.freed addr false) s.free

/-- One call keeps the invariant and has one of the effects. -/
theorem Consistent.call_effect {s : Allocator} (hs : Consistent s) (c : Call) :
    Consistent (s.call c).2 ∧ SameLayout s (s.call c).2 ∧
      Effect s c (s.call c).1 (s.call c).2.free := by
  cases c with
  | allocPage =>
    rcases s.free.eq_empty_or_nonempty with hempty | hne
    · simp only [call, hs.allocPage_empty hempty]
      exact ⟨hs, .refl s, .exhausted hempty⟩
    · obtain ⟨haddr, hconsistent, hlayout, hfree⟩ := hs.allocPage_nonempty hne
      simp only [call, hfree]
      exact ⟨hconsistent, hlayout, .took (s.free.min'_mem hne) haddr⟩
  | freePage addr =>
    obtain ⟨-, hsame⟩ | ⟨hreturn, hok, hconsistent, hlayout, hfree⟩ := hs.freePage_cases addr
    · simp only [call, hsame]
      exact ⟨hs, .refl s, .refused addr⟩
    · simp only [call, hok, hfree]
      exact ⟨hconsistent, hlayout, .gave hreturn⟩

/-- A page that comes back was in use, and is free afterwards. -/
theorem Effect.freed {s : Allocator} {c : Call} {addr : UInt64} {free : Finset ℕ}
    (h : Effect s c (.freed addr true) free) :
    c = .freePage addr ∧ s.Returnable addr ∧ addr.toNat / 4096 ∈ free := by
  cases h with
  | gave hreturn => exact ⟨rfl, hreturn, Finset.mem_insert_self _ _⟩

/-- What is handed out was free, or the answer is 0. -/
theorem Effect.allocated_mem {s : Allocator} {c : Call} {addr : UInt64} {free : Finset ℕ}
    (h : Effect s c (.allocated addr) free) : addr = 0 ∨ ∃ p ∈ s.free, addr.toNat = 4096 * p := by
  cases h with
  | took hp haddr => exact .inr ⟨_, hp, haddr⟩
  | exhausted => exact .inl rfl

/-- A page that is free no longer has been handed out. -/
theorem Effect.allocated {s : Allocator} {c : Call} {outcome : Outcome} {free : Finset ℕ}
    (h : Effect s c outcome free) {addr : UInt64} (haligned : 4096 ∣ addr.toNat)
    (hfree : addr.toNat / 4096 ∈ s.free) (hused : addr.toNat / 4096 ∉ free) :
    outcome = .allocated addr := by
  cases h with
  | took hp haddr =>
    rename_i p addr'
    have hpage : addr.toNat / 4096 = p := by
      by_contra hne
      exact hused (Finset.mem_erase.mpr ⟨hne, hfree⟩)
    obtain rfl : addr' = addr := UInt64.toNat_inj.mp (by omega)
    rfl
  | exhausted => exact absurd hfree hused
  | gave => exact absurd (Finset.mem_insert_of_mem hfree) hused
  | refused => exact absurd hfree hused

/-- A page that is free now was so before, or has come back. -/
theorem Effect.free_cases {s : Allocator} {c : Call} {outcome : Outcome} {free : Finset ℕ}
    (h : Effect s c outcome free) {p : ℕ} (hp : p ∈ free) :
    p ∈ s.free ∨ ∃ addr, c = .freePage addr ∧ s.Returnable addr ∧ p = addr.toNat / 4096 := by
  cases h with
  | took => exact .inl (Finset.mem_of_mem_erase hp)
  | exhausted => exact .inl hp
  | gave hreturn =>
    obtain rfl | hp := Finset.mem_insert.mp hp
    · exact .inr ⟨_, rfl, hreturn, rfl⟩
    · exact .inl hp
  | refused => exact .inl hp

/-! ## Runs of calls -/

@[simp] theorem runCalls_nil (s : Allocator) : s.runCalls [] = ([], s) := rfl

@[simp] theorem runCalls_cons (s : Allocator) (c : Call) (calls : List Call) :
    s.runCalls (c :: calls) =
      ((s.call c).1 :: ((s.call c).2.runCalls calls).1, ((s.call c).2.runCalls calls).2) := rfl

/-- Every outcome of a run is that of a call in a state that has the invariant. -/
theorem runCalls_outcome {I : Allocator → Prop} {calls : List Call}
    (hstep : ∀ s, ∀ c ∈ calls, I s → I (s.call c).2) {s : Allocator} (hs : I s) {k : ℕ}
    {outcome : Outcome} (hk : (s.runCalls calls).1[k]? = some outcome) :
    ∃ s', I s' ∧ ∃ c ∈ calls, (s'.call c).1 = outcome := by
  induction calls generalizing s k with
  | nil => simp at hk
  | cons c calls ih =>
    cases k with
    | zero => exact ⟨s, hs, c, by simp, by simpa using hk⟩
    | succ k =>
      obtain ⟨s', hs', c', hc', heq⟩ := ih (fun s c hc => hstep s c (by simp [hc]))
        (hstep s c (by simp) hs) (by simpa using hk)
      exact ⟨s', hs', c', by simp [hc'], heq⟩

/-- A page that comes back was in use from the start of the run on, or has been handed out and not
come back since. -/
theorem freed_cases {s : Allocator} (hs : Consistent s) (calls : List Call) {k : ℕ} {addr : UInt64}
    (haligned : 4096 ∣ addr.toNat) (hk : (s.runCalls calls).1[k]? = some (.freed addr true)) :
    (addr.toNat / 4096 ∉ s.free ∧ ∀ j < k, (s.runCalls calls).1[j]? ≠ some (.freed addr true)) ∨
      ∃ i < k, (s.runCalls calls).1[i]? = some (.allocated addr) ∧
        ∀ j, i < j → j < k → (s.runCalls calls).1[j]? ≠ some (.freed addr true) := by
  induction calls generalizing s k with
  | nil => simp at hk
  | cons c calls ih =>
    obtain ⟨hconsistent, -, heffect⟩ := hs.call_effect c
    cases k with
    | zero =>
      have hfreed : (s.call c).1 = .freed addr true := by simpa using hk
      exact .inl ⟨(hfreed ▸ heffect).freed.2.1.2.2.2, by simp⟩
    | succ k =>
      obtain ⟨hused, hnone⟩ | ⟨i, hi, halloc, hnone⟩ := ih hconsistent (k := k) (by simpa using hk)
      swap
      · refine .inr ⟨i + 1, Nat.succ_lt_succ hi, by simpa using halloc, ?_⟩
        intro j hij hjk
        obtain ⟨j, rfl⟩ := Nat.exists_eq_succ_of_ne_zero (Nat.ne_zero_of_lt hij)
        simpa using hnone j (Nat.lt_of_succ_lt_succ hij) (Nat.lt_of_succ_lt_succ hjk)
      -- the page is in use after the call: it was before, or the call has handed it out
      by_cases hfree : addr.toNat / 4096 ∈ s.free
      · refine .inr ⟨0, Nat.succ_pos k, ?_, ?_⟩
        · simp [heffect.allocated haligned hfree hused]
        · intro j hij hjk
          obtain ⟨j, rfl⟩ := Nat.exists_eq_succ_of_ne_zero (Nat.ne_zero_of_lt hij)
          simpa using hnone j (Nat.lt_of_succ_lt_succ hjk)
      · refine .inl ⟨hfree, ?_⟩
        intro j hjk
        cases j with
        | zero =>
          intro hfreed
          replace hfreed : (s.call c).1 = .freed addr true := by simpa using hfreed
          exact hused (hfreed ▸ heffect).freed.2.2
        | succ j => simpa using hnone j (Nat.lt_of_succ_lt_succ hjk)

/-! ## Pages that are never available -/

/-- **Only pages that are handed out come back**, in runs that spare the holes of the memory map.
Then a page that is handed out lies in an available entry. -/
theorem freed_only_handed_out (pl : Platform) (s₀ : Allocator)
    (hinit : (initPFA pl s₀).1 = true) (calls : List Call)
    (hcalls : ∀ c ∈ calls, c.SparesHoles pl (initPFA pl s₀).2) :
    let outcomes := ((initPFA pl s₀).2.runCalls calls).1
    (∀ (k : ℕ) (addr : UInt64), outcomes[k]? = some (.freed addr true) →
      ∃ i < k, outcomes[i]? = some (.allocated addr) ∧
        ∀ j, i < j → j < k → outcomes[j]? ≠ some (.freed addr true)) ∧
    ∀ (k : ℕ) (addr : UInt64), outcomes[k]? = some (.allocated addr) → addr ≠ 0 →
      ∃ e ∈ pl.mmap, e.typ = 1 ∧ e.base.toNat ≤ addr.toNat ∧
        addr.toNat + 4096 ≤ e.base.toNat + e.length.toNat := by
  intro outcomes
  obtain ⟨-, -, haccepted⟩ := accepted_of_initPFA hinit
  set s := (initPFA pl s₀).2
  -- every state of the run has the layout of the first one, and only available pages are free
  let I : Allocator → Prop := fun s' => Consistent s' ∧ SameLayout s s' ∧
    ∀ p ∈ s'.free, ∃ e ∈ pl.available, e.Spans p
  have hI : I s := ⟨haccepted.consistent, .refl s, fun p hp => ((haccepted.free p).mp hp).2.2⟩
  have hstep : ∀ s', ∀ c ∈ calls, I s' → I (s'.call c).2 := by
    rintro s' c hc ⟨hconsistent, hlayout, havailable⟩
    obtain ⟨hconsistent', hlayout', heffect⟩ := hconsistent.call_effect c
    refine ⟨hconsistent', hlayout.trans hlayout', ?_⟩
    intro p hp
    obtain hp | ⟨addr, rfl, ⟨haligned, hlow, hhigh, -⟩, rfl⟩ := heffect.free_cases hp
    · exact havailable p hp
    · rw [hlayout.scanStart] at hlow
      rw [hlayout.totalPages] at hhigh
      exact hcalls _ hc haligned hlow hhigh
  refine ⟨?_, ?_⟩
  · intro k addr hk
    obtain ⟨s', ⟨hconsistent, hlayout, -⟩, c, hc, hfreed⟩ := runCalls_outcome hstep hI hk
    obtain ⟨-, -, heffect⟩ := hconsistent.call_effect c
    rw [hfreed] at heffect
    obtain ⟨rfl, ⟨haligned, hlow, hhigh, -⟩, -⟩ := heffect.freed
    rw [hlayout.scanStart] at hlow
    rw [hlayout.totalPages] at hhigh
    obtain ⟨hused, -⟩ | hhanded := freed_cases haccepted.consistent calls haligned hk
    · have havailable := hcalls _ hc haligned hlow hhigh
      exact absurd ((haccepted.free _).mpr ⟨hhigh, hlow, havailable⟩) hused
    · exact hhanded
  · intro k addr hk hne
    obtain ⟨s', ⟨hconsistent, -, havailable⟩, c, -, halloc⟩ := runCalls_outcome hstep hI hk
    obtain ⟨-, -, heffect⟩ := hconsistent.call_effect c
    rw [halloc] at heffect
    obtain hzero | ⟨p, hp, haddr⟩ := heffect.allocated_mem
    · exact absurd hzero hne
    obtain ⟨e, he, hspans⟩ := havailable p hp
    obtain ⟨hmem, htyp⟩ := Platform.mem_available.mp he
    obtain ⟨hlow, hhigh⟩ := hspans.covers
    exact ⟨e, hmem, htyp, by omega, by omega⟩

/-- The first page of the small platform is handed out and comes back. -/
theorem smallPlatform_outcomes :
    ((initPFA smallPlatform blankAllocator).2.runCalls [.allocPage, .freePage 0x00102000]).1 =
      [.allocated 0x00102000, .freed 0x00102000 true] := by
  obtain ⟨-, -, haccepted⟩ := accepted_of_initPFA smallPlatform_initialised
  set s := (initPFA smallPlatform blankAllocator).2
  have hscan : s.scanStart.toNat = 0x102 := haccepted.scanStart_eq (by decide)
  have htotal : s.totalPages.toNat = 0x120 := by
    rw [haccepted.totalPages]
    decide
  have hmem : s.scanStart.toNat ∈ s.free := by
    rw [haccepted.free, hscan, htotal]
    exact ⟨by decide, le_rfl, ⟨0x00100000, 0, 0x00020000, 0, 1⟩,
      Platform.mem_available.mpr ⟨.head _, rfl⟩, by decide⟩
  have haddr := haccepted.consistent.allocPage_scanStart hmem
  obtain ⟨hmin, hconsistent, hlayout, hfree⟩ :=
    haccepted.consistent.allocPage_nonempty ⟨_, hmem⟩
  have halloc : s.allocPage.1 = 0x00102000 := by
    rw [← UInt64.toNat_inj, haddr, hscan]
    decide
  have hreturn : s.allocPage.2.Returnable 0x00102000 := by
    refine ⟨by decide, ?_, ?_, ?_⟩
    · rw [hlayout.scanStart, hscan]
      decide
    · rw [hlayout.totalPages, htotal]
      decide
    · -- the page that was taken is the one that comes back
      have hpage : (0x00102000 : UInt64).toNat / 4096 = s.free.min' ⟨_, hmem⟩ := by
        rw [← halloc, hmin, Nat.mul_div_cancel_left _ (by decide)]
      rw [hpage, hfree]
      exact Finset.notMem_erase _ _
  obtain ⟨hnot, -⟩ | ⟨-, hfreed, -⟩ := hconsistent.freePage_cases 0x00102000
  · exact absurd hreturn hnot
  simp only [runCalls_cons, runCalls_nil, call, halloc, hfreed]

/-- The run spares the holes, and what comes back was handed out. -/
theorem smallPlatform_takes_back :
    let outcomes := ((initPFA smallPlatform blankAllocator).2.runCalls
      [.allocPage, .freePage 0x00102000]).1
    outcomes[1]? = some (.freed 0x00102000 true) ∧
      ∃ i < 1, outcomes[i]? = some (.allocated 0x00102000) := by
  have hspares : ∀ c ∈ [Call.allocPage, .freePage 0x00102000],
      c.SparesHoles smallPlatform (initPFA smallPlatform blankAllocator).2 := by
    intro c hc
    simp only [List.mem_cons, List.not_mem_nil, or_false] at hc
    obtain rfl | rfl := hc
    · trivial
    · intro _ _ _
      exact ⟨⟨0x00100000, 0, 0x00020000, 0, 1⟩, Platform.mem_available.mpr ⟨.head _, rfl⟩,
        by decide⟩
  have hfreed : ((initPFA smallPlatform blankAllocator).2.runCalls
      [.allocPage, .freePage 0x00102000]).1[1]? = some (.freed 0x00102000 true) := by
    rw [smallPlatform_outcomes]
    rfl
  obtain ⟨hhanded, -⟩ := freed_only_handed_out smallPlatform blankAllocator
    smallPlatform_initialised [.allocPage, .freePage 0x00102000] hspares
  obtain ⟨i, hi, halloc, -⟩ := hhanded 1 _ hfreed
  exact ⟨hfreed, i, hi, halloc⟩

/-- Two available entries with a hole of two pages between them. The kernel and the bitmap take up
the first one. -/
def holedPlatform : Platform where
  mmap := [⟨0x00100000, 0, 0x00002000, 0, 1⟩, ⟨0x00104000, 0, 0x00004000, 0, 1⟩]
  kernelEnd := 0x00101000
  bootstrapEnd := 0
  mmap_length := by decide

/-- The first page of the hole is freed without having been handed out, and then handed out. -/
theorem hole_freed_and_handed_out :
    (initPFA holedPlatform blankAllocator).1 = true ∧
      ((initPFA holedPlatform blankAllocator).2.runCalls [.freePage 0x00102000, .allocPage]).1 =
        [.freed 0x00102000 true, .allocated 0x00102000] ∧
      ∀ e ∈ holedPlatform.mmap, ¬ e.Covers 0x102 := by
  have hne : holedPlatform.maxAvailableEnd ≠ 0 := by decide
  obtain ⟨hok, haccepted⟩ := initPFA_accepted hne (by decide) blankAllocator
  have hholes : ∀ e ∈ holedPlatform.mmap, ¬ e.Covers 0x102 := by decide
  refine ⟨hok, ?_, hholes⟩
  set s := (initPFA holedPlatform blankAllocator).2
  have hscan : s.scanStart.toNat = 0x102 := haccepted.scanStart_eq (by decide)
  have htotal : s.totalPages.toNat = 0x108 := by
    rw [haccepted.totalPages]
    decide
  have hused : 0x102 ∉ s.free := by
    intro hmem
    obtain ⟨-, -, e, he, hspans⟩ := (haccepted.free _).mp hmem
    exact hholes e (Platform.mem_available.mp he).1 hspans.covers
  have hreturn : s.Returnable 0x00102000 :=
    ⟨by decide, by rw [hscan]; decide, by rw [htotal]; decide, hused⟩
  obtain ⟨hnot, -⟩ | ⟨-, hfreed, hconsistent, hlayout, hfree⟩ :=
    haccepted.consistent.freePage_cases 0x00102000
  · exact absurd hreturn hnot
  have hmem : (s.freePage 0x00102000).2.scanStart.toNat ∈ (s.freePage 0x00102000).2.free := by
    rw [hfree, hlayout.scanStart, hscan]
    exact Finset.mem_insert_self _ _
  have halloc : (s.freePage 0x00102000).2.allocPage.1 = 0x00102000 := by
    rw [← UInt64.toNat_inj, hconsistent.allocPage_scanStart hmem, hlayout.scanStart, hscan]
    decide
  simp only [runCalls_cons, runCalls_nil, call, hfreed, halloc]

end Allocator

end DavOS.Mem
