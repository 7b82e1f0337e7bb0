import Mathlib.Data.List.Basic
import Mathlib.Data.List.GetD
import Mathlib.Data.Nat.Notation
import Mathlib.Tactic.Linarith

/-!
# Text in rows

Text is laid out in rows of `w` cells. The end of a row is in the text, or the row ends because it
is full; in the second case nothing in the text has to end it. Of a page only the last `h` rows are
visible.

`cell_add` and `cell_endRow` say what happens to the visible cells when text is added.
-/

namespace Wrap

variable {α : Type*}

/-- The rows that have ended, and the one that text is added to. -/
structure Page (α : Type*) where
  done : List (List α)
  cur : List α

namespace Page

variable (p : Page α)

def add (x : α) : Page α := { p with cur := p.cur ++ [x] }

def endRow : Page α := ⟨p.done ++ [p.cur], []⟩

/-- A character of the text; `none` is the end of a row. -/
def put (w : ℕ) : Option α → Page α
  | none => p.endRow
  | some x => if (p.add x).cur.length = w then (p.add x).endRow else p.add x

def rows : List (List α) := p.done ++ [p.cur]

def visible (h : ℕ) : List (List α) := p.rows.drop (p.rows.length - h)

end Page

def layout (w : ℕ) (text : List (Option α)) : Page α := text.foldl (fun p x => p.put w x) ⟨[], []⟩

/-- A cell of some rows; what they do not have is blank. -/
def cell (blank : α) (rows : List (List α)) (r c : ℕ) : α := (rows.getD r []).getD c blank

variable {p : Page α} {h : ℕ} {blank : α}

theorem length_rows : p.rows.length = p.done.length + 1 := by simp [Page.rows]

theorem visible_eq (hh : 0 < h) :
    p.visible h = p.done.drop (p.done.length + 1 - h) ++ [p.cur] := by
  rw [Page.visible, length_rows, Page.rows, List.drop_append_of_le_length (by omega)]

theorem length_visible : (p.visible h).length = min (p.done.length + 1) h := by
  rw [Page.visible, List.length_drop, length_rows]
  omega

/-! ## Cells -/

theorem getD_concat {β : Type*} (l : List β) (x d : β) (i : ℕ) :
    (l ++ [x]).getD i d = if i = l.length then x else l.getD i d := by
  rcases lt_trichotomy i l.length with hi | rfl | hi
  · rw [if_neg hi.ne, List.getD_append _ _ _ _ hi]
  · rw [if_pos rfl, List.getD_append_right _ _ _ _ le_rfl, Nat.sub_self, List.getD_cons_zero]
  · rw [if_neg hi.ne', List.getD_eq_default _ _ (by simp; omega), List.getD_eq_default _ _ hi.le]

/-- A row without text is as blank as no row. -/
theorem cell_concat_nil (rows : List (List α)) (r c : ℕ) :
    cell blank (rows ++ [[]]) r c = cell blank rows r c := by
  have hrow : (rows ++ [[]]).getD r [] = rows.getD r [] := by
    rw [getD_concat]
    split_ifs with hr
    · rw [hr, List.getD_eq_default _ _ le_rfl]
    · rfl
  rw [cell, cell, hrow]

/-- A character appears behind the last one of the last row. -/
theorem cell_add (hh : 0 < h) (x : α) (r c : ℕ) :
    cell blank ((p.add x).visible h) r c =
      if r + 1 = (p.visible h).length ∧ c = p.cur.length then x
      else cell blank (p.visible h) r c := by
  have hadd : (p.add x).visible h =
      p.done.drop (p.done.length + 1 - h) ++ [p.cur ++ [x]] := visible_eq hh
  rw [hadd, visible_eq hh]
  generalize p.done.drop (p.done.length + 1 - h) = upper
  simp only [cell, List.length_append, List.length_singleton, Nat.add_right_cancel_iff, getD_concat]
  by_cases hr : r = upper.length
  · simp only [hr, if_true, true_and, getD_concat]
  · simp only [hr, if_false, false_and]

/-- The end of a row makes the page one row longer, or moves it up by one. -/
theorem cell_endRow (hh : 0 < h) (r c : ℕ) :
    cell blank (p.endRow.visible h) r c =
      cell blank (p.visible h) (if p.done.length + 1 < h then r else r + 1) c := by
  rw [visible_eq hh, Page.endRow]
  dsimp only
  rw [cell_concat_nil, List.length_append, List.length_singleton]
  by_cases hroom : p.done.length + 1 < h
  · rw [if_pos hroom, visible_eq hh, Nat.sub_eq_zero_of_le hroom, Nat.sub_eq_zero_of_le hroom.le,
      List.drop_zero, List.drop_zero]
  · have hup : (p.done ++ [p.cur]).drop (p.done.length + 1 + 1 - h) = (p.visible h).drop 1 := by
      rw [Page.visible, length_rows, List.drop_drop, Page.rows]
      congr 1
      omega
    have hget : ((p.visible h).drop 1).getD r [] = (p.visible h).getD (r + 1) [] := by
      simp only [List.getD_eq_getElem?_getD, List.getElem?_drop, Nat.add_comm]
    rw [if_neg hroom, hup, cell, cell, hget]

end Wrap
