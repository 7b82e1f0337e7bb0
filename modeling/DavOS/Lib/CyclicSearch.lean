import Mathlib.Data.List.Range
import Mathlib.Data.List.Rotate
import Mathlib.Data.Nat.Notation

/-!
# Cyclic search

A search through the indices below `n` that starts behind an index, wraps around, and ends before it
comes back to that index.

The indices that satisfy a predicate form a ring (`ring`). A search that finds the next of them
turns the ring by one place.
-/

namespace CyclicSearch

/-- The first index behind `c` that satisfies `P`. -/
def next (P : ℕ → Bool) (n c : ℕ) : Option ℕ :=
  (List.range' 1 (n - 1)).findSome? fun i =>
    if P ((c + i) % n) then some ((c + i) % n) else none

variable {P : ℕ → Bool} {n c j : ℕ}

/-- A rotated range counts from `c` on, modulo `n`. -/
theorem rotate_range (n c : ℕ) :
    (List.range n).rotate c = (List.range n).map fun i => (c + i) % n := by
  refine List.ext_getElem (by simp) fun i hi _ => ?_
  simp [List.getElem_rotate, Nat.add_comm]

/-- It starts at `c`. -/
theorem rotate_range_eq_cons (hc : c < n) :
    (List.range n).rotate c = c :: (List.range' 1 (n - 1)).map fun i => (c + i) % n := by
  obtain ⟨m, rfl⟩ : ∃ m, n = m + 1 := ⟨n - 1, by omega⟩
  rw [rotate_range, List.range_eq_range', List.range'_succ, List.map_cons, Nat.add_zero,
    Nat.mod_eq_of_lt hc]
  rfl

/-- Searching for an `f i` with `P` is searching among the values of `f`. -/
theorem findSome?_eq_find?_map (P : ℕ → Bool) (f : ℕ → ℕ) (l : List ℕ) :
    (l.findSome? fun i => if P (f i) then some (f i) else none) = (l.map f).find? P := by
  induction l with
  | nil => rfl
  | cons i l ih =>
    rw [List.findSome?_cons, List.map_cons, List.find?_cons, ih]
    cases P (f i) <;> rfl

/-- The search goes through the rotated indices. -/
theorem next_eq_find? (P : ℕ → Bool) (hc : c < n) :
    next P n c = ((List.range n).rotate c).tail.find? P := by
  rw [rotate_range_eq_cons hc, List.tail_cons, next]
  exact findSome?_eq_find?_map P _ _

/-- Behind `c` lie all other indices. -/
theorem mem_behind {i : ℕ} (hc : c < n) :
    i ∈ ((List.range n).rotate c).tail ↔ i < n ∧ i ≠ c := by
  have hnodup : ((List.range n).rotate c).Nodup := List.nodup_rotate.mpr List.nodup_range
  have hmem : i ∈ (List.range n).rotate c ↔ i < n := by simp
  rw [rotate_range_eq_cons hc] at hnodup hmem ⊢
  rw [List.mem_cons] at hmem
  rw [List.tail_cons, ← hmem]
  constructor
  · intro hi
    exact ⟨.inr hi, fun heq => (List.nodup_cons.mp hnodup).1 (heq ▸ hi)⟩
  · rintro ⟨hi, hne⟩
    exact hi.resolve_left hne

/-- What is found satisfies `P` and is another one. -/
theorem next_some (hc : c < n) (h : next P n c = some j) : j < n ∧ j ≠ c ∧ P j = true := by
  rw [next_eq_find? P hc] at h
  obtain ⟨hj, hne⟩ := (mem_behind hc).mp (List.mem_of_find?_eq_some h)
  exact ⟨hj, hne, List.find?_some h⟩

/-- If nothing is found, no other one satisfies `P`. -/
theorem next_none (hc : c < n) (h : next P n c = none) (hj : j < n) (hne : j ≠ c) :
    P j = false := by
  rw [next_eq_find? P hc, List.find?_eq_none] at h
  simpa using h j ((mem_behind hc).mpr ⟨hj, hne⟩)

/-! ## The ring -/

/-- The indices that satisfy `P`, from `c` on and around. -/
def ring (P : ℕ → Bool) (n c : ℕ) : List ℕ := ((List.range n).rotate c).filter P

section

variable {Q : ℕ → Bool}

/-- Behind `c`, the search among the others sees the members of the ring. -/
theorem agree_behind (hc : c < n) (hQ : ∀ i < n, i ≠ c → Q i = P i) :
    ∀ i ∈ ((List.range n).rotate c).tail, Q i = P i := by
  intro i hi
  obtain ⟨hlt, hne⟩ := (mem_behind hc).mp hi
  exact hQ i hlt hne

/-- If the search among the others fails, the ring has one member. -/
theorem ring_of_next_none (hc : c < n) (hP : P c = true) (hQ : ∀ i < n, i ≠ c → Q i = P i)
    (h : next Q n c = none) : ring P n c = [c] := by
  have hagree := agree_behind hc hQ
  rw [next_eq_find? Q hc, List.find?_eq_none] at h
  rw [ring]
  rw [rotate_range_eq_cons hc, List.tail_cons] at h hagree
  rw [rotate_range_eq_cons hc, List.filter_cons_of_pos hP, ← List.filter_congr hagree,
    List.filter_eq_nil_iff.mpr h]

/-- If the search finds `j`, the ring has turned by one place. -/
theorem ring_of_next_some (hc : c < n) (hP : P c = true) (hQ : ∀ i < n, i ≠ c → Q i = P i)
    (h : next Q n c = some j) : ring P n j = (ring P n c).rotate 1 := by
  have hagree := agree_behind hc hQ
  obtain ⟨hj, hne, hQj⟩ := next_some hc h
  have hPj : P j = true := (hQ j hj hne).symm.trans hQj
  rw [next_eq_find? Q hc, List.find?_eq_some_iff_append] at h
  obtain ⟨-, skipped, rest, hsplit, hskipped⟩ := h
  have hrotate : (List.range n).rotate c = (c :: skipped) ++ j :: rest := by
    rw [rotate_range_eq_cons hc] at hsplit ⊢
    rw [List.cons_append, ← hsplit, List.tail_cons]
  -- `j` stands behind `c` and the indices that were skipped
  have hplace : j = (c + (c :: skipped).length) % n := by
    have hget : ((List.range n).rotate c)[(c :: skipped).length]? = some j := by
      rw [hrotate, List.getElem?_append_right le_rfl, Nat.sub_self]
      rfl
    rw [rotate_range, List.getElem?_map, Option.map_eq_some_iff] at hget
    obtain ⟨i, hi, hij⟩ := hget
    rw [← hij, ← (List.getElem?_eq_some_iff.mp hi).2, List.getElem_range]
  have hturned : (List.range n).rotate j = (j :: rest) ++ (c :: skipped) := by
    have hmod := List.rotate_mod (List.range n) (c + (c :: skipped).length)
    rw [List.length_range, ← hplace] at hmod
    rw [hmod, ← List.rotate_rotate, hrotate, List.rotate_append_length_eq]
  have hnone : skipped.filter P = [] := by
    refine List.filter_eq_nil_iff.mpr fun i hi => ?_
    rw [← hagree i (by rw [hsplit]; exact List.mem_append_left _ hi)]
    simpa using hskipped i hi
  rw [ring, ring, hturned, hrotate, List.filter_append, List.filter_append,
    List.filter_cons_of_pos hP, List.filter_cons_of_pos hPj, hnone]
  simp

end

/-- The members of a list from one of them on and around, without a search. -/
theorem filter_rotate {α : Type*} [DecidableEq α] {l : List α} (hl : l.Nodup) {p : α → Bool}
    {i : ℕ} {x : α} (hx : l[i]? = some x) (hp : p x = true) :
    (l.rotate i).filter p = (l.filter p).rotate ((l.filter p).idxOf x) := by
  obtain ⟨hi, rfl⟩ := List.getElem?_eq_some_iff.mp hx
  have hsplit : l.take i ++ l[i] :: l.drop (i + 1) = l := by
    rw [← List.drop_eq_getElem_cons hi, List.take_append_drop]
  have hbefore : l[i] ∉ (l.take i).filter p := by
    intro hmem
    rw [← hsplit] at hl
    exact (List.nodup_append.mp hl).2.2 _ (List.mem_of_mem_filter hmem) _ List.mem_cons_self rfl
  have hfilter : l.filter p = (l.take i).filter p ++ l[i] :: (l.drop (i + 1)).filter p := by
    conv_lhs => rw [← hsplit]
    rw [List.filter_append, List.filter_cons_of_pos hp]
  have hidx : (l.filter p).idxOf l[i] = ((l.take i).filter p).length := by
    rw [hfilter, List.idxOf_append_of_notMem hbefore, List.idxOf_cons_self, Nat.add_zero]
  rw [hidx, hfilter, List.rotate_append_length_eq, List.rotate_eq_drop_append_take hi.le,
    List.filter_append, List.drop_eq_getElem_cons hi, List.filter_cons_of_pos hp]

end CyclicSearch
