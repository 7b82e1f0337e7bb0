import Mathlib.Data.List.Find
import Mathlib.Data.List.Range
import Mathlib.Data.Nat.Notation

/-!
# Searching a table row by row

A table of `rows` rows with `cols` places each, searched by two nested loops: the first row that has
a place with the property gives its first such place. `findSome?_rows` turns the two loops into one
search over the places in order, so that `List.find?_range_eq_some` applies to the result.
-/

namespace RowSearch

variable {β : Type*}

theorem findSome?_ite {α : Type*} (l : List α) (p : α → Prop) [DecidablePred p] (f : α → β) :
    (l.findSome? fun a => if p a then some (f a) else none) = (l.find? fun a => p a).map f := by
  induction l with
  | nil => rfl
  | cons a l ih =>
    rw [List.findSome?_cons, List.find?_cons]
    by_cases h : p a
    · simp [h]
    · simp [h, ih]

/-- Two nested loops are one search over the places. -/
theorem findSome?_rows {cols : ℕ} (hcols : 0 < cols) (rows : ℕ) (p : ℕ → ℕ → Bool)
    (f : ℕ → ℕ → β) :
    ((List.range rows).findSome? fun r => ((List.range cols).find? (p r)).map (f r)) =
      ((List.range (rows * cols)).find? fun k => p (k / cols) (k % cols)).map
        fun k => f (k / cols) (k % cols) := by
  induction rows with
  | zero => simp
  | succ rows ih =>
    have hplace : ∀ c ∈ List.range cols,
        (rows * cols + c) / cols = rows ∧ (rows * cols + c) % cols = c := by
      intro c hc
      have hlt := List.mem_range.mp hc
      rw [Nat.add_comm, Nat.add_mul_div_right _ _ hcols, Nat.add_mul_mod_self_right,
        Nat.div_eq_of_lt hlt, Nat.mod_eq_of_lt hlt]
      exact ⟨Nat.zero_add rows, rfl⟩
    -- the places of the last row are the last places
    have hlast : ((List.range cols).find? (p rows)).map (f rows) =
        (((List.range cols).map (rows * cols + ·)).find? fun k => p (k / cols) (k % cols)).map
          fun k => f (k / cols) (k % cols) := by
      rw [List.find?_map, Option.map_map]
      have hfind : (List.range cols).find? (p rows) =
          (List.range cols).find? ((fun k => p (k / cols) (k % cols)) ∘ (rows * cols + ·)) := by
        apply List.find?_congr
        intro c hc
        rw [Function.comp_apply, (hplace c hc).1, (hplace c hc).2]
      rw [← hfind]
      apply Option.map_congr
      intro c hc
      rw [Function.comp_apply, (hplace c (List.mem_of_find?_eq_some hc)).1,
        (hplace c (List.mem_of_find?_eq_some hc)).2]
    rw [List.range_succ, List.findSome?_append, ih, Nat.succ_mul, List.range_add, List.find?_append,
      Option.map_or, List.findSome?_singleton, hlast]

/-- A search that stops at the first element without `p`. -/
theorem any_takeWhile_range {α : Type*} (n : ℕ) (e : ℕ → α) (p q : α → Bool) :
    (((List.range n).map e).takeWhile p).any q = true ↔
      ∃ i < n, q (e i) = true ∧ ∀ j ≤ i, p (e j) = true := by
  induction n generalizing e with
  | zero => simp
  | succ n ih =>
    rw [List.range_succ_eq_map, List.map_cons, List.map_map, List.takeWhile_cons]
    by_cases hp : p (e 0) = true
    · rw [if_pos hp, List.any_cons, Bool.or_eq_true,
        show e ∘ Nat.succ = fun i => e (i + 1) from rfl, ih]
      constructor
      · rintro (hq | ⟨i, hi, hq, hall⟩)
        · refine ⟨0, by omega, hq, ?_⟩
          intro j hj
          rwa [Nat.le_zero.mp hj]
        · refine ⟨i + 1, by omega, hq, ?_⟩
          intro j hj
          cases j with
          | zero => exact hp
          | succ j => exact hall j (by omega)
      · rintro ⟨i, hi, hq, hall⟩
        cases i with
        | zero => exact Or.inl hq
        | succ i =>
          exact Or.inr ⟨i, by omega, hq, fun j hj => hall (j + 1) (by omega)⟩
    · rw [if_neg hp]
      constructor
      · intro h
        cases h
      · rintro ⟨i, -, -, hall⟩
        exact absurd (hall 0 (by omega)) hp

end RowSearch
