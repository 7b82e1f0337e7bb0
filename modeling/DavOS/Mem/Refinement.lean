import DavOS.Lib.FreePool
import DavOS.Mem.Init

/-!
# The allocator refines a pool of pages

The abstract allocator is a pool of page addresses, `FreePool.Pool`. A call of `AllocPage` or
`FreePage` does to the free pages what the operation of the pool does, with the same result
(`call_simulates`), and so does a run of calls (`runCalls_simulates`). What is known of runs of the
pool is then known of runs of the allocator.
-/

namespace DavOS.Mem

open FreePool (Pool Op Event)

/-! ## Runs of calls -/

inductive Call
  | allocPage
  | freePage (addr : UInt64)

/-- A call with its result. -/
inductive Outcome
  | allocated (addr : UInt64)
  | freed (addr : UInt64) (ok : Bool)

namespace Allocator

def call (s : Allocator) : Call → Outcome × Allocator
  | .allocPage => (.allocated s.allocPage.1, s.allocPage.2)
  | .freePage addr => (.freed addr (s.freePage addr).1, (s.freePage addr).2)

def runCalls (s : Allocator) : List Call → List Outcome × Allocator
  | [] => ([], s)
  | c :: calls =>
    let (outcome, s) := s.call c
    let (outcomes, s) := s.runCalls calls
    (outcome :: outcomes, s)

end Allocator

/-! ## The pool of page addresses -/

/-- The addresses of the pages from `lo` up to `hi`. -/
def Managed (lo hi addr : ℕ) : Prop := 4096 ∣ addr ∧ lo ≤ addr / 4096 ∧ addr / 4096 < hi

instance (lo hi : ℕ) : DecidablePred (Managed lo hi) := fun addr =>
  inferInstanceAs (Decidable (4096 ∣ addr ∧ lo ≤ addr / 4096 ∧ addr / 4096 < hi))

def Call.op : Call → Op ℕ
  | allocPage => .take
  | freePage addr => .give addr.toNat

/-- What an outcome is to the pool; `AllocPage` reports failure by the address zero. -/
def Outcome.event : Outcome → Event ℕ
  | allocated addr => .took (if addr = 0 then none else some addr.toNat)
  | freed addr ok => .gave addr.toNat ok

/-- The pool holds the addresses of the free pages. -/
structure Represents (lo hi : ℕ) (s : Allocator) (P : Pool (Managed lo hi)) : Prop where
  ready : s.Ready
  scanStart : s.scanStart.toNat = lo
  totalPages : s.totalPages.toNat = hi
  free : P.free = s.free.image (4096 * ·)

namespace Represents

variable {lo hi : ℕ} {s s' : Allocator} {P P' : Pool (Managed lo hi)}

/-- Pages have addresses of their own. -/
theorem image_injective : Function.Injective fun p : ℕ => 4096 * p :=
  fun _ _ h => Nat.eq_of_mul_eq_mul_left (by decide) h

/-- An address is free in the pool if its page is free in the bitmap. -/
theorem mem_free_iff (h : Represents lo hi s P) {addr : ℕ} (haddr : 4096 ∣ addr) :
    addr ∈ P.free ↔ addr / 4096 ∈ s.free := by
  obtain ⟨p, rfl⟩ := haddr
  rw [h.free, image_injective.mem_finset_image, Nat.mul_div_cancel_left _ (by decide)]

/-- A step that keeps the layout, with the free pages of both sides in step. -/
theorem of_sameLayout (h : Represents lo hi s P) (hready : s'.Ready)
    (hlayout : Allocator.SameLayout s s') (hfree : P'.free = s'.free.image (4096 * ·)) :
    Represents lo hi s' P' :=
  ⟨hready, hlayout.scanStart ▸ h.scanStart, hlayout.totalPages ▸ h.totalPages, hfree⟩

/-- `AllocPage` takes from the pool. -/
theorem allocPage_simulates (h : Represents lo hi s P) :
    (Outcome.allocated s.allocPage.1).event = .took P.take.1 ∧
      Represents lo hi s.allocPage.2 P.take.2 := by
  rcases s.free.eq_empty_or_nonempty with hempty | hne
  · have hpool : ¬ P.free.Nonempty := by simp [h.free, hempty]
    rw [Allocator.allocPage_empty h.ready hempty, Pool.take_empty hpool]
    exact ⟨rfl, h⟩
  obtain ⟨haddr, hzero, hready, hlayout, hfree⟩ := Allocator.allocPage_nonempty h.ready hne
  have hpool : P.free.Nonempty := by
    rw [h.free]
    exact hne.image _
  have hmin : P.free.min' hpool = 4096 * s.free.min' hne := by
    simp only [h.free]
    exact Finset.min'_image (fun _ _ hle => Nat.mul_le_mul_left _ hle) _ _
  obtain ⟨htook, hrest⟩ := Pool.take_nonempty hpool
  refine ⟨?_, h.of_sameLayout hready hlayout ?_⟩
  · rw [Outcome.event, if_neg hzero, haddr, htook, hmin]
  · rw [hrest, hfree, Finset.image_erase image_injective, ← h.free, hmin]

/-- `FreePage` gives back to the pool. -/
theorem freePage_simulates (h : Represents lo hi s P) (addr : UInt64) :
    (s.freePage addr).1 = (P.give addr.toNat).1 ∧
      Represents lo hi (s.freePage addr).2 (P.give addr.toNat).2 := by
  have hmanaged : s.Returnable addr ↔ Managed lo hi addr.toNat ∧ addr.toNat ∉ P.free := by
    rw [Allocator.Returnable, Managed, h.scanStart, h.totalPages, and_assoc, and_assoc]
    refine and_congr_right fun haddr => ?_
    rw [h.mem_free_iff haddr]
  rw [Pool.give]
  obtain ⟨hnot, hsame⟩ | ⟨hreturn, hok, hready, hlayout, hfree⟩ :=
    Allocator.freePage_cases h.ready addr
  · rw [hsame, dif_neg (mt hmanaged.mpr hnot)]
    exact ⟨rfl, h⟩
  · rw [dif_pos (hmanaged.mp hreturn)]
    refine ⟨hok, h.of_sameLayout hready hlayout ?_⟩
    rw [hfree, Finset.image_insert, ← h.free, Nat.mul_div_cancel' hreturn.1]

/-- One call does what the pool does, and answers the same. -/
theorem call_simulates (h : Represents lo hi s P) (c : Call) :
    (s.call c).1.event = (P.step c.op).1 ∧ Represents lo hi (s.call c).2 (P.step c.op).2 := by
  cases c with
  | allocPage => exact h.allocPage_simulates
  | freePage addr =>
    obtain ⟨hok, hrepresents⟩ := h.freePage_simulates addr
    exact ⟨congrArg (Event.gave addr.toNat) hok, hrepresents⟩

/-- **The allocator refines the pool**: the same run with the same results. -/
theorem runCalls_simulates (calls : List Call) (h : Represents lo hi s P) :
    (s.runCalls calls).1.map Outcome.event = (P.run (calls.map Call.op)).1 ∧
      Represents lo hi (s.runCalls calls).2 (P.run (calls.map Call.op)).2 := by
  induction calls generalizing s P with
  | nil => exact ⟨rfl, h⟩
  | cons c calls ih =>
    obtain ⟨hevent, hstep⟩ := h.call_simulates c
    obtain ⟨hevents, hrun⟩ := ih hstep
    refine ⟨?_, hrun⟩
    rw [List.map_cons]
    exact congrArg₂ List.cons hevent hevents

end Represents

namespace Allocator

/-- The pool that an allocator represents. -/
def pool (s : Allocator) (hs : s.Ready) : Pool (Managed s.scanStart.toNat s.totalPages.toNat) where
  free := s.free.image (4096 * ·)
  managed_of_mem := by
    intro addr haddr
    obtain ⟨p, hp, rfl⟩ := Finset.mem_image.mp haddr
    rw [Managed, Nat.mul_div_cancel_left _ (by decide)]
    exact ⟨Nat.dvd_mul_right _ _, hs.scanStart_le p hp, (mem_free.mp hp).1⟩

/-- An initialised allocator represents its pool. -/
theorem represents_pool {s : Allocator} (hs : s.Ready) : Represents _ _ s (s.pool hs) :=
  ⟨hs, rfl, rfl, rfl⟩

/-- A page is handed out again only after it was taken back. -/
theorem freed_between_allocated {s : Allocator} (hs : s.Ready) (calls : List Call) {addr : UInt64}
    (hne : addr ≠ 0) {i j : ℕ} (hij : i < j)
    (hi : (s.runCalls calls).1[i]? = some (.allocated addr))
    (hj : (s.runCalls calls).1[j]? = some (.allocated addr)) :
    ∃ k, i < k ∧ k < j ∧ (s.runCalls calls).1[k]? = some (.freed addr true) := by
  obtain ⟨hevents, -⟩ := (represents_pool hs).runCalls_simulates calls
  have htook : ∀ n : ℕ, (s.runCalls calls).1[n]? = some (.allocated addr) →
      ((s.pool hs).run (calls.map Call.op)).1[n]? = some (.took (some addr.toNat)) := by
    intro n hn
    rw [← hevents, List.getElem?_map, hn, Option.map_some, Outcome.event, if_neg hne]
  obtain ⟨k, hik, hkj, hgave⟩ := Pool.gave_between_takes _ hij (htook i hi) (htook j hj)
  refine ⟨k, hik, hkj, ?_⟩
  rw [← hevents, List.getElem?_map] at hgave
  obtain ⟨outcome, houtcome, hevent⟩ := Option.map_eq_some_iff.mp hgave
  cases outcome with
  | allocated a => simp [Outcome.event] at hevent
  | freed a ok =>
    obtain ⟨ha, rfl⟩ : a.toNat = addr.toNat ∧ ok = true := by simpa [Outcome.event] using hevent
    rw [houtcome, UInt64.toNat_inj.mp ha]

/-- **The allocator refines the set of free pages**, after any calls that follow a successful
`InitPFA`. -/
theorem runs_refine_free_set (pl : Platform) (hpl : pl.Bounded) (s₀ : Allocator)
    (hinit : (initPFA pl s₀).1 = true) (calls : List Call) :
    let s := ((initPFA pl s₀).2.runCalls calls).2
    let outcomes := ((initPFA pl s₀).2.runCalls calls).1
    (s.freePages.toNat = s.free.card ∧ s.freePages ≤ s.totalPages ∧
      s.usedPages.toNat = s.totalPages.toNat - s.free.card) ∧
    (∀ p ∈ s.free, s.scanStart.toNat ≤ p) ∧
    (s.allocPage = (0, s) ↔ s.free = ∅) ∧
    (∀ hne : s.free.Nonempty, s.allocPage.1.toNat = 4096 * s.free.min' hne ∧ s.allocPage.1 ≠ 0 ∧
      s.allocPage.2.free = s.free.erase (s.free.min' hne) ∧ SameLayout s s.allocPage.2) ∧
    (∀ addr, ((s.freePage addr).1 = true ↔ s.Returnable addr) ∧
      ((s.freePage addr).1 = true → (s.freePage addr).2.free = insert (addr.toNat / 4096) s.free ∧
        SameLayout s (s.freePage addr).2) ∧
      ((s.freePage addr).1 = false → (s.freePage addr).2 = s)) ∧
    ∀ (i j : ℕ) (addr : UInt64), i < j → addr ≠ 0 → outcomes[i]? = some (.allocated addr) →
      outcomes[j]? = some (.allocated addr) →
      ∃ k, i < k ∧ k < j ∧ outcomes[k]? = some (.freed addr true) := by
  intro s outcomes
  have hzero : pl.maxAvailableEnd ≠ 0 := by
    intro hzero
    simp [initPFA_empty hzero] at hinit
  have hready₀ : (initPFA pl s₀).2.Ready := (initPFA_spec hpl hzero s₀).2.ready
  -- the clauses about single calls only need that the run has kept the invariant
  have hready : s.Ready := ((represents_pool hready₀).runCalls_simulates calls).2.ready
  have hcounted : s.freePages.toNat = s.free.card := hready.counted
  have hle : s.freePages ≤ s.totalPages := by
    rw [UInt64.le_iff_toNat_le, hcounted]
    exact s.card_free_le
  refine ⟨⟨hcounted, hle, ?_⟩, hready.scanStart_le, ⟨?_, allocPage_empty hready⟩, ?_, ?_, ?_⟩
  · rw [usedPages, UInt64.toNat_sub_of_le _ _ hle, hcounted]
  · intro hsame
    by_contra hne
    exact (allocPage_nonempty hready (Finset.nonempty_iff_ne_empty.mpr hne)).2.1
      (congrArg Prod.fst hsame)
  · intro hne
    obtain ⟨haddr, hnonzero, -, hlayout, hfree⟩ := allocPage_nonempty hready hne
    exact ⟨haddr, hnonzero, hfree, hlayout⟩
  · intro addr
    obtain ⟨hnot, hsame⟩ | ⟨hreturn, hok, -, hlayout, hfree⟩ := freePage_cases hready addr
    · simp [hsame, hnot]
    · simp [hok, hreturn, hfree, hlayout]
  · intro i j addr hij hne hi hj
    exact freed_between_allocated hready₀ calls hne hij hi hj

/-- After a call of `AllocPage` on the small platform, an address inside a page is refused. -/
theorem smallPlatform_refuses_unaligned :
    let s := ((initPFA smallPlatform blankAllocator).2.runCalls [.allocPage]).2
    s.freePages.toNat = s.free.card ∧ (s.freePage 0x00102001).1 = false := by
  have hrefused : ∀ s : Allocator, ((s.freePage 0x00102001).1 = true ↔ s.Returnable 0x00102001) →
      (s.freePage 0x00102001).1 = false := by
    intro s hiff
    refine Bool.eq_false_iff.mpr fun hok => ?_
    exact absurd (hiff.mp hok).1 (by decide)
  obtain ⟨⟨hcount, -⟩, -, -, -, hfree, -⟩ := runs_refine_free_set smallPlatform
    smallPlatform_bounded blankAllocator smallPlatform_initialised [.allocPage]
  exact ⟨hcount, hrefused _ (hfree _).1⟩

end Allocator

end DavOS.Mem
