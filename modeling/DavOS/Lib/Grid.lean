import Mathlib.Data.Int.Notation
import Mathlib.Data.List.Range
import Mathlib.Data.Nat.Notation
import Mathlib.Tactic.Linarith

/-!
# Loops over the cells of a grid

A grid has a value for every pair of integers. The loops here store into the cells of a rectangle at
the origin, and each comes with one lemma that says what every cell holds after it, so that the
cells outside the rectangle are covered too.
-/

namespace Grid

variable {α : Type*} (g : ℤ → ℤ → α)

def set (r c : ℤ) (x : α) : ℤ → ℤ → α := fun r' c' => if r' = r ∧ c' = c then x else g r' c'

theorem set_apply (r c r' c' : ℤ) (x : α) :
    set g r c x r' c' = if r' = r ∧ c' = c then x else g r' c' := rfl

/-! ## Filling -/

def fillRow (x : α) (w : ℕ) (r : ℤ) : ℤ → ℤ → α :=
  (List.range w).foldl (fun g (c : ℕ) => set g r c x) g

def fill (x : α) (h w : ℕ) : ℤ → ℤ → α := (List.range h).foldl (fun g (r : ℕ) => fillRow g x w r) g

/-- The last column is filled last. -/
theorem fillRow_succ (x : α) (w : ℕ) (r : ℤ) :
    fillRow g x (w + 1) r = set (fillRow g x w r) r w x := by
  rw [fillRow, List.range_succ, List.foldl_append]
  rfl

/-- The last row is filled last. -/
theorem fill_succ (x : α) (h w : ℕ) : fill g x (h + 1) w = fillRow (fill g x h w) x w h := by
  rw [fill, List.range_succ, List.foldl_append]
  rfl

/-- What a filled row holds. -/
theorem fillRow_apply (x : α) (w : ℕ) (r r' c' : ℤ) :
    fillRow g x w r r' c' = if r' = r ∧ 0 ≤ c' ∧ c' < w then x else g r' c' := by
  induction w with
  | zero => rw [if_neg (by omega)]; rfl
  | succ w ih =>
    rw [fillRow_succ, set_apply, ih]
    by_cases hcell : r' = r ∧ c' = w
    · rw [if_pos hcell, if_pos (by omega)]
    · rw [if_neg hcell]
      congr 1
      simp only [eq_iff_iff]
      omega

/-- What a filled rectangle holds. -/
theorem fill_apply (x : α) (h w : ℕ) (r' c' : ℤ) :
    fill g x h w r' c' = if (0 ≤ r' ∧ r' < h) ∧ 0 ≤ c' ∧ c' < w then x else g r' c' := by
  induction h with
  | zero => rw [if_neg (by omega)]; rfl
  | succ h ih =>
    rw [fill_succ, fillRow_apply, ih]
    by_cases hrow : r' = h ∧ 0 ≤ c' ∧ c' < w
    · rw [if_pos hrow, if_pos (by omega)]
    · rw [if_neg hrow]
      congr 1
      simp only [eq_iff_iff]
      omega

/-! ## Moving rows up -/

def copyRow (w : ℕ) (src dst : ℤ) : ℤ → ℤ → α :=
  (List.range w).foldl (fun g (c : ℕ) => set g dst c (g src c)) g

/-- The rows `1` to `n` move up by one, the topmost first. -/
def moveUp (n w : ℕ) : ℤ → ℤ → α :=
  (List.range' 1 n).foldl (fun g (r : ℕ) => copyRow g w r (r - 1)) g

/-- The last column is copied last. -/
theorem copyRow_succ (w : ℕ) (src dst : ℤ) :
    copyRow g (w + 1) src dst = set (copyRow g w src dst) dst w (copyRow g w src dst src w) := by
  rw [copyRow, List.range_succ, List.foldl_append]
  rfl

/-- The last row is moved last. -/
theorem moveUp_succ (n w : ℕ) :
    moveUp g (n + 1) w = copyRow (moveUp g n w) w (1 + n : ℕ) ((1 + n : ℕ) - 1) := by
  rw [moveUp, List.range'_1_concat, List.foldl_append]
  rfl

/-- What a copied row holds. -/
theorem copyRow_apply {src dst : ℤ} (hne : src ≠ dst) (w : ℕ) (r' c' : ℤ) :
    copyRow g w src dst r' c' =
      if r' = dst ∧ 0 ≤ c' ∧ c' < w then g src c' else g r' c' := by
  induction w generalizing r' c' with
  | zero => rw [if_neg (by omega)]; rfl
  | succ w ih =>
    rw [copyRow_succ, set_apply, ih, ih]
    by_cases hcell : r' = dst ∧ c' = w
    · rw [if_pos hcell, if_neg (fun h => hne h.1), if_pos (by omega), hcell.2]
    · rw [if_neg hcell]
      congr 1
      simp only [eq_iff_iff]
      omega

/-- What the grid holds after its rows have been moved up. -/
theorem moveUp_apply (n w : ℕ) (r' c' : ℤ) :
    moveUp g n w r' c' =
      if (0 ≤ r' ∧ r' < n) ∧ 0 ≤ c' ∧ c' < w then g (r' + 1) c' else g r' c' := by
  induction n generalizing r' c' with
  | zero => rw [if_neg (by omega)]; rfl
  | succ n ih =>
    -- the row that moves now has not been stored to so far
    rw [moveUp_succ, copyRow_apply _ (by omega), ih, ih]
    by_cases hrow : r' = (1 + n : ℕ) - 1 ∧ 0 ≤ c' ∧ c' < w
    · rw [if_pos hrow, if_neg (by omega), if_pos (by omega), hrow.1]
      congr 1
      omega
    · rw [if_neg hrow]
      congr 1
      simp only [eq_iff_iff]
      omega

end Grid
