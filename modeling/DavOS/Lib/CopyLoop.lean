import Mathlib.Data.Nat.Notation
import Mathlib.Tactic.Linarith

/-!
# Copy loops

A loop that stores values at the indices `0, 1, …, len - 1` of a fixed-size buffer replaces the
first `len` elements and leaves the others.
-/

namespace CopyLoop

variable {α : Type*} {n : ℕ}

theorem toList_foldl_set! (f : ℕ → α) {len : ℕ} (h : len ≤ n) (buffer : Vector α n) :
    ((List.range len).foldl (fun b i => b.set! i (f i)) buffer).toList =
      (List.range len).map f ++ buffer.toList.drop len := by
  induction len with
  | zero => simp
  | succ len ih =>
    have hlen : len < buffer.toList.length := by
      rw [Vector.length_toList]
      exact h
    rw [List.range_succ, List.foldl_append, List.foldl_cons, List.foldl_nil, Vector.toList_set!,
      ih (Nat.le_of_succ_le h), List.set_append_right _ _ (by simp), List.length_map,
      List.length_range, Nat.sub_self, List.drop_eq_getElem_cons hlen, List.set_cons_zero,
      List.map_append, List.append_assoc]
    rfl

/-- Storing the element after the first `i` extends the written part by it. -/
theorem take_set!_succ (buffer : Vector α n) {i : ℕ} (hi : i < n) (x : α) :
    (buffer.set! i x).toList.take (i + 1) = buffer.toList.take i ++ [x] := by
  rw [Vector.toList_set!, List.take_succ_eq_append_getElem (by simpa using hi),
    List.take_set_of_le le_rfl, List.getElem_set_self]

/-- The first elements of a list, read one by one. -/
theorem map_range_getD (l : List α) (d : α) {len : ℕ} (h : len ≤ l.length) :
    (List.range len).map (fun i => l.getD i d) = l.take len := by
  apply List.ext_getElem
  · simp [h]
  · intro i hi _
    have hi : i < l.length := by
      simp only [List.length_map, List.length_range] at hi
      exact lt_of_lt_of_le hi h
    simp [hi]

/-! ## By index -/

theorem getElem!_set! [Inhabited α] (buffer : Vector α n) (i j : ℕ) (x : α) :
    (buffer.set! i x)[j]! = if i = j ∧ j < n then x else buffer[j]! := by
  by_cases hj : j < n
  · rw [getElem!_pos _ j hj, getElem!_pos _ j hj, Vector.getElem_set!]
    simp [hj]
  · rw [getElem!_neg _ j hj, getElem!_neg _ j hj]
    simp [hj]

theorem getElem!_foldl_set! [Inhabited α] (f : ℕ → α) {len : ℕ} (h : len ≤ n)
    (buffer : Vector α n) (j : ℕ) :
    ((List.range len).foldl (fun b i => b.set! i (f i)) buffer)[j]! =
      if j < len then f j else buffer[j]! := by
  induction len with
  | zero => simp
  | succ len ih =>
    rw [List.range_succ, List.foldl_append, List.foldl_cons, List.foldl_nil, getElem!_set!,
      ih (Nat.le_of_succ_le h)]
    by_cases hj : len = j
    · subst hj
      rw [if_pos ⟨rfl, h⟩, if_pos (Nat.lt_succ_self _)]
    · rw [if_neg fun hlast => hj hlast.1]
      split_ifs <;> first | rfl | omega

/-- The first elements of a buffer, read one by one. -/
theorem map_range_getElem! [Inhabited α] (source : Vector α n) {len : ℕ} (h : len ≤ n) :
    (List.range len).map (fun i => source[i]!) = source.toList.take len := by
  rw [← map_range_getD source.toList default (by simpa using h)]
  apply List.map_congr_left
  intro i hi
  have hin : i < n := lt_of_lt_of_le (List.mem_range.mp hi) h
  simp [getElem!_pos, hin]

end CopyLoop
