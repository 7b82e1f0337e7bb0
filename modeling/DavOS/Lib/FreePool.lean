import Mathlib.Data.Finset.Max

/-!
# A pool of free resources

A pool hands out the least free resource and takes resources back. It refuses what it does not
manage and what is free already. Over a whole run, a resource is handed out again only after it was
taken back (`gave_between_takes`).
-/

namespace FreePool

variable {α : Type*} [LinearOrder α] {managed : α → Prop}

structure Pool (managed : α → Prop) where
  free : Finset α
  managed_of_mem : ∀ a ∈ free, managed a

inductive Op (α : Type*)
  | take
  | give (a : α)

/-- An operation with its result. -/
inductive Event (α : Type*)
  | took (a : Option α)
  | gave (a : α) (ok : Bool)

namespace Pool

def take (P : Pool managed) : Option α × Pool managed :=
  if h : P.free.Nonempty then
    (some (P.free.min' h), ⟨P.free.erase (P.free.min' h), fun a ha =>
      P.managed_of_mem a (Finset.mem_of_mem_erase ha)⟩)
  else (none, P)

theorem take_empty {P : Pool managed} (h : ¬ P.free.Nonempty) : P.take = (none, P) := by
  rw [take, dif_neg h]

theorem take_nonempty {P : Pool managed} (h : P.free.Nonempty) :
    P.take.1 = some (P.free.min' h) ∧ P.take.2.free = P.free.erase (P.free.min' h) := by
  rw [take, dif_pos h]
  exact ⟨rfl, rfl⟩

variable [DecidablePred managed]

def give (a : α) (P : Pool managed) : Bool × Pool managed :=
  if h : managed a ∧ a ∉ P.free then
    (true, ⟨insert a P.free, fun b hb => by
      rcases Finset.mem_insert.mp hb with rfl | hb
      · exact h.1
      · exact P.managed_of_mem b hb⟩)
  else (false, P)

def step (P : Pool managed) : Op α → Event α × Pool managed
  | .take => (.took P.take.1, P.take.2)
  | .give a => (.gave a (P.give a).1, (P.give a).2)

/-- The events of a run of operations, and the pool after it. -/
def run (P : Pool managed) : List (Op α) → List (Event α) × Pool managed
  | [] => ([], P)
  | op :: ops =>
    let (event, P) := P.step op
    let (events, P) := P.run ops
    (event :: events, P)

/-- An operation frees nothing but what is given back by it. -/
theorem mem_of_mem_step {P : Pool managed} {op : Op α} {a : α} (h : a ∈ (P.step op).2.free) :
    a ∈ P.free ∨ (P.step op).1 = .gave a true := by
  cases op with
  | take =>
    simp only [step] at h
    by_cases hne : P.free.Nonempty
    · rw [(take_nonempty hne).2] at h
      exact .inl (Finset.mem_of_mem_erase h)
    · rw [take_empty hne] at h
      exact .inl h
  | give b =>
    simp only [step, give] at h ⊢
    split at h
    · rename_i hb
      rw [dif_pos hb]
      rcases Finset.mem_insert.mp h with rfl | h
      · exact .inr rfl
      · exact .inl h
    · exact .inl h

/-- What is taken was free, and is not afterwards. -/
theorem took_iff {P : Pool managed} {op : Op α} {a : α} (h : (P.step op).1 = .took (some a)) :
    a ∈ P.free ∧ a ∉ (P.step op).2.free := by
  cases op with
  | take =>
    simp only [step, Event.took.injEq] at h ⊢
    by_cases hne : P.free.Nonempty
    · obtain ⟨hmin, hfree⟩ := take_nonempty hne
      obtain rfl : P.free.min' hne = a := Option.some.inj (hmin.symm.trans h)
      rw [hfree]
      exact ⟨P.free.min'_mem hne, Finset.notMem_erase _ _⟩
    · simp [take_empty hne] at h
  | give b => simp [step] at h

/-- What a run takes was free before, or is given back by the run before it is taken. -/
theorem gave_before_take (ops : List (Op α)) {P : Pool managed} {a : α} (ha : a ∉ P.free) {j : ℕ}
    (hj : (P.run ops).1[j]? = some (.took (some a))) :
    ∃ k < j, (P.run ops).1[k]? = some (.gave a true) := by
  induction ops generalizing P j with
  | nil => simp [run] at hj
  | cons op ops ih =>
    cases j with
    | zero =>
      have hstep : (P.step op).1 = .took (some a) := by simpa [run] using hj
      exact absurd (took_iff hstep).1 ha
    | succ j =>
      by_cases hmem : a ∈ (P.step op).2.free
      · have hgave := (mem_of_mem_step hmem).resolve_left ha
        exact ⟨0, Nat.succ_pos j, by simp [run, hgave]⟩
      · obtain ⟨k, hk, hevent⟩ := ih hmem (j := j) (by simpa [run] using hj)
        exact ⟨k + 1, Nat.succ_lt_succ hk, by simpa [run] using hevent⟩

/-- **Nothing is handed out twice**, unless it was given back in between. -/
theorem gave_between_takes (ops : List (Op α)) {P : Pool managed} {a : α} {i j : ℕ} (hij : i < j)
    (hi : (P.run ops).1[i]? = some (.took (some a)))
    (hj : (P.run ops).1[j]? = some (.took (some a))) :
    ∃ k, i < k ∧ k < j ∧ (P.run ops).1[k]? = some (.gave a true) := by
  induction ops generalizing P i j with
  | nil => simp [run] at hi
  | cons op ops ih =>
    obtain ⟨j, rfl⟩ := Nat.exists_eq_succ_of_ne_zero (Nat.ne_of_gt (Nat.zero_lt_of_lt hij))
    have hj' : ((P.step op).2.run ops).1[j]? = some (.took (some a)) := by simpa [run] using hj
    cases i with
    | zero =>
      have hstep : (P.step op).1 = .took (some a) := by simpa [run] using hi
      obtain ⟨k, hk, hevent⟩ := gave_before_take ops (took_iff hstep).2 hj'
      exact ⟨k + 1, Nat.succ_pos k, Nat.succ_lt_succ hk, by simpa [run] using hevent⟩
    | succ i =>
      obtain ⟨k, hik, hkj, hevent⟩ := ih (Nat.lt_of_succ_lt_succ hij) (by simpa [run] using hi) hj'
      exact ⟨k + 1, Nat.succ_lt_succ hik, Nat.succ_lt_succ hkj, by simpa [run] using hevent⟩

end Pool

end FreePool
