import DavOS.Terminal.Screen
import Mathlib.Data.List.GetD

/-!
# The screen as one row

Read in row-major order, the screen has 2000 cells and the cursor is a position among them. Wrapping
is then invisible: a character goes to the position and moves it by one, and only at the end of the
screen everything moves back by a row.

A text that is typed and erased from some position on is then seen as on a row without end, of which
the screen shows the last cells (`Shows`).
-/

namespace DavOS.Terminal

namespace Screen

variable {t : Screen}

/-- The cell at a position. -/
def cellAt (t : Screen) (q : ℕ) : Cell := t.vidMem (q / 80 : ℕ) (q % 80 : ℕ)

/-- The position of the cursor. -/
def pos (t : Screen) : ℕ := (t.row * 80 + t.column).toNat

/-- A cursor on the screen has a position below 2000. -/
theorem InBounds.pos_lt (h : t.InBounds) : t.pos < 2000 := by
  obtain ⟨hrow, hrow', hcol, hcol'⟩ := h
  rw [pos]
  omega

/-- The row is the quotient of the position. -/
theorem InBounds.row_eq (h : t.InBounds) : t.row = (t.pos / 80 : ℕ) := by
  obtain ⟨hrow, hrow', hcol, hcol'⟩ := h
  rw [pos]
  omega

/-- The column is the remainder of the position. -/
theorem InBounds.column_eq (h : t.InBounds) : t.column = (t.pos % 80 : ℕ) := by
  obtain ⟨hrow, hrow', hcol, hcol'⟩ := h
  rw [pos]
  omega

/-- The hardware cursor has the position. -/
theorem CursorShown.position_eq (h : t.CursorShown) : t.crtc.position = t.pos := by
  rw [CursorShown] at h
  rw [pos]
  omega

/-- The positions below 2000 are cells. -/
theorem isCell_of_lt {q : ℕ} (h : q < 2000) : IsCell (q / 80 : ℕ) (q % 80 : ℕ) :=
  ⟨by omega, by omega⟩

/-- A character is stored at one position. -/
theorem cellAt_store {r c : ℤ} {k : ℕ} (hr : r = (k / 80 : ℕ)) (hc : c = (k % 80 : ℕ)) (ch : UInt8)
    (q : ℕ) :
    (t.store r c ch).cellAt q = if q = k then ⟨ch, t.color⟩ else t.cellAt q := by
  refine if_ctx_congr ?_ (fun _ => rfl) fun _ => rfl
  omega

/-- Scrolling moves the cells up by 80 positions. -/
theorem cellAt_scroll {q : ℕ} (h : q < 2000) :
    t.scroll.cellAt q = if q + 80 < 2000 then t.cellAt (q + 80) else ⟨0x20, t.color⟩ := by
  rw [cellAt, scroll_vidMem (isCell_of_lt h)]
  refine if_ctx_congr (by omega) (fun _ => ?_) fun _ => rfl
  rw [cellAt]
  congr 1 <;> omega

/-- A row that starts behind the last one moves everything back by a row. -/
theorem startRow_rowMajor {r : ℤ} (h : r ≤ 25) :
    (r < 25 ∧ (t.startRow r).updateCursor.pos = (r * 80).toNat ∧
      ∀ q, (t.startRow r).updateCursor.cellAt q = t.cellAt q) ∨
    (r = 25 ∧ (t.startRow r).updateCursor.pos = 1920 ∧
      ∀ q < 2000, (t.startRow r).updateCursor.cellAt q =
        if q + 80 < 2000 then t.cellAt (q + 80) else ⟨0x20, t.color⟩) := by
  obtain ⟨hlt, heq⟩ | ⟨hlast, heq⟩ := startRow_cases (t := t) h
  · rw [heq]
    refine .inl ⟨hlt, ?_, fun q => rfl⟩
    change (r * 80 + 0).toNat = _
    rw [add_zero]
  · rw [heq]
    refine .inr ⟨hlast, rfl, ?_⟩
    intro q hq
    have hscroll := cellAt_scroll (t := t) hq
    rw [cellAt] at hscroll
    exact hscroll

/-- **A character** goes to the position of the cursor, which moves on by one. Behind the last cell,
everything moves back by a row. -/
theorem InBounds.putRune_char (h : t.InBounds) {ch : Int32} (hback : ch ≠ 8) (hline : ch ≠ 10) :
    (t.pos + 1 < 2000 ∧ (t.putRune ch).pos = t.pos + 1 ∧
      ∀ q < 2000, (t.putRune ch).cellAt q =
        if q = t.pos then ⟨toByte ch, t.color⟩ else t.cellAt q) ∨
    (t.pos + 1 = 2000 ∧ (t.putRune ch).pos = 1920 ∧
      ∀ q < 2000, (t.putRune ch).cellAt q =
        if q + 80 < 2000 then if q + 80 = t.pos then ⟨toByte ch, t.color⟩ else t.cellAt (q + 80)
        else ⟨0x20, t.color⟩) := by
  have hstore := cellAt_store (t := t) h.row_eq h.column_eq (toByte ch)
  obtain ⟨hrow, hrow', hcol, hcol'⟩ := h
  have hpos : (t.pos : ℤ) = t.row * 80 + t.column := by
    rw [pos]
    omega
  rw [putRune, if_neg hback, if_neg hline]
  dsimp only
  by_cases hwrap : (t.store t.row t.column (toByte ch)).column + 1 ≥ (vgaWidth : ℤ)
  swap
  · rw [if_neg hwrap]
    have hwrap : t.column + 1 < 80 := not_le.mp hwrap
    refine .inl ⟨by omega, ?_, fun q _ => hstore q⟩
    change (t.row * 80 + (t.column + 1)).toNat = t.pos + 1
    omega
  rw [if_pos hwrap]
  have hwrap : t.column + 1 ≥ 80 := hwrap
  obtain ⟨hlt, hnext, hcells⟩ | ⟨hlast, hnext, hcells⟩ := startRow_rowMajor (r := t.row + 1)
    (t := { t.store t.row t.column (toByte ch) with
      column := t.column + 1
      debug := t.debug ++ [toByte ch] }) (by omega)
  · exact .inl ⟨by omega, hnext.trans (by omega), fun q _ => (hcells q).trans (hstore q)⟩
  · refine .inr ⟨by omega, hnext, ?_⟩
    intro q hq
    refine (hcells q hq).trans ?_
    exact if_ctx_congr Iff.rfl (fun _ => hstore (q + 80)) fun _ => rfl

/-- **A backspace** clears the cell before the cursor, which moves back to it. -/
theorem InBounds.backspace_pos (h : t.InBounds) (hpos : 0 < t.pos) :
    t.backspace.pos = t.pos - 1 ∧
      ∀ q, t.backspace.cellAt q = if q = t.pos - 1 then ⟨0x20, t.color⟩ else t.cellAt q := by
  obtain ⟨hrow, hrow', hcol, hcol'⟩ := h
  rw [pos] at hpos
  rw [backspace]
  by_cases hc : t.column > 0
  · rw [if_pos hc]
    refine ⟨?_, ?_⟩
    · change (t.row * 80 + (t.column - 1)).toNat = (t.row * 80 + t.column).toNat - 1
      omega
    · intro q
      refine cellAt_store ?_ ?_ 0x20 q
      · change t.row = _
        rw [pos]
        omega
      · change t.column - 1 = _
        rw [pos]
        omega
  · rw [if_neg hc, if_pos (by omega)]
    refine ⟨?_, ?_⟩
    · change ((t.row - 1) * 80 + (80 - 1)).toNat = (t.row * 80 + t.column).toNat - 1
      omega
    · intro q
      refine cellAt_store ?_ ?_ 0x20 q
      · change t.row - 1 = _
        rw [pos]
        omega
      · change (80 : ℤ) - 1 = _
        rw [pos]
        omega

/-! ## A text that is typed -/

/-- The cells before the cursor, counted from it backwards. -/
theorem InBounds.putRune_before (h : t.InBounds) {ch : Int32} (hback : ch ≠ 8) (hline : ch ≠ 10)
    {k : ℕ} (hk : k < (t.putRune ch).pos) :
    (t.putRune ch).cellAt ((t.putRune ch).pos - 1 - k) =
      if k = 0 then ⟨toByte ch, t.color⟩ else t.cellAt (t.pos - k) := by
  obtain ⟨hlt, hnext, hcells⟩ | ⟨hlast, hnext, hcells⟩ := h.putRune_char hback hline
  · rw [hnext] at hk ⊢
    rw [hcells _ (by omega), show t.pos + 1 - 1 - k = t.pos - k by omega]
    exact if_congr (by omega) rfl rfl
  · rw [hnext] at hk ⊢
    rw [hcells _ (by omega), if_pos (by omega), show 1920 - 1 - k + 80 = t.pos - k by omega]
    exact if_congr (by omega) rfl rfl

end Screen

/-- A text as it has been typed so far, and the greatest length it has had. -/
structure Typed where
  text : List UInt8
  far : ℕ
  length_le : text.length ≤ far

namespace Typed

open Screen

def empty : Typed := ⟨[], 0, le_rfl⟩

def push (ch : UInt8) (e : Typed) : Typed where
  text := e.text ++ [ch]
  far := max e.far (e.text.length + 1)
  length_le := by simp

def pop (e : Typed) : Typed where
  text := e.text.dropLast
  far := e.far
  length_le := by
    have := e.length_le
    rw [List.length_dropLast]
    omega

variable {t₀ t : Screen} {e : Typed}

/-- There is nothing to remove from an empty text. -/
theorem pop_eq_self (e : Typed) (h : e.text = []) : e.pop = e := by
  obtain ⟨text, far, hle⟩ := e
  obtain rfl := h
  rfl

/-- How many rows the text has moved off the screen, when it began at the cursor of `t₀`. -/
def scrolled (t₀ : Screen) (e : Typed) : ℕ := (t₀.pos + e.far) / 80 - 24

/-- The row without end on which the text is typed. Rows that come from below are blank. -/
def cell (t₀ : Screen) (e : Typed) (a : ℕ) : Cell :=
  if a < t₀.pos then t₀.cellAt a
  else if a < t₀.pos + e.text.length then ⟨e.text.getD (a - t₀.pos) 0, t₀.color⟩
  else if a < t₀.pos + e.far ∨ 2000 ≤ a then ⟨0x20, t₀.color⟩
  else t₀.cellAt a

/-- A character goes to the position behind the text. -/
theorem cell_push (ch : UInt8) (a : ℕ) :
    (e.push ch).cell t₀ a =
      if a = t₀.pos + e.text.length then ⟨ch, t₀.color⟩ else e.cell t₀ a := by
  have hle := e.length_le
  have hlen : (e.push ch).text.length = e.text.length + 1 := by simp [push]
  have hfar : (e.push ch).far = max e.far (e.text.length + 1) := rfl
  rw [cell, cell, hlen, hfar]
  by_cases hbefore : a < t₀.pos
  · rw [if_pos hbefore, if_neg (by omega), if_pos hbefore]
  rw [if_neg hbefore, if_neg hbefore]
  by_cases htext : a < t₀.pos + e.text.length
  · rw [if_pos (by omega), if_neg (by omega), if_pos htext]
    have hget : (e.push ch).text.getD (a - t₀.pos) 0 = e.text.getD (a - t₀.pos) 0 :=
      List.getD_append _ _ _ _ (by omega)
    rw [hget]
  rw [if_neg htext]
  by_cases hhere : a = t₀.pos + e.text.length
  · rw [if_pos (by omega), if_pos hhere]
    have hget : (e.push ch).text.getD (a - t₀.pos) 0 = ch := by
      rw [hhere, Nat.add_sub_cancel_left]
      exact (List.getD_append_right _ _ _ _ le_rfl).trans (by simp)
    rw [hget]
  · rw [if_neg (by omega), if_neg hhere]
    exact if_congr (by omega) rfl rfl

/-- The position of the last character becomes blank. -/
theorem cell_pop (h : e.text ≠ []) (a : ℕ) :
    e.pop.cell t₀ a =
      if a = t₀.pos + e.text.length - 1 then ⟨0x20, t₀.color⟩ else e.cell t₀ a := by
  have hle := e.length_le
  have hpos := List.length_pos_iff.mpr h
  have hlen : e.pop.text.length = e.text.length - 1 := List.length_dropLast
  have hfar : e.pop.far = e.far := rfl
  rw [cell, cell, hlen, hfar]
  by_cases hbefore : a < t₀.pos
  · rw [if_pos hbefore, if_neg (by omega), if_pos hbefore]
  rw [if_neg hbefore, if_neg hbefore]
  by_cases htext : a < t₀.pos + e.text.length - 1
  · rw [if_pos (by omega), if_neg (by omega), if_pos (by omega)]
    have hget : e.pop.text.getD (a - t₀.pos) 0 = e.text.getD (a - t₀.pos) 0 := by
      rw [List.getD_eq_getElem _ _ (by omega), List.getD_eq_getElem _ _ (by omega)]
      exact List.getElem_dropLast _
    rw [hget]
  rw [if_neg (by omega)]
  by_cases hhere : a = t₀.pos + e.text.length - 1
  · rw [if_pos hhere, if_pos (by omega)]
  · rw [if_neg hhere, if_neg (show ¬a < t₀.pos + e.text.length by omega)]

/-- The screen shows the text: its cells are the last ones of the row without end, and the cursor
follows the text. -/
structure Shows (t₀ t : Screen) (e : Typed) : Prop where
  inBounds : t.InBounds
  color : t.color = t₀.color
  pos : t.pos + 80 * e.scrolled t₀ = t₀.pos + e.text.length
  cells : ∀ q < 2000, t.cellAt q = e.cell t₀ (q + 80 * e.scrolled t₀)

/-- Before a key is pressed the screen is as it was. -/
theorem Shows.empty (h : t₀.InBounds) : Shows t₀ t₀ empty := by
  have hlt := h.pos_lt
  have hlen : Typed.empty.text.length = 0 := rfl
  have hfar : Typed.empty.far = 0 := rfl
  have hscrolled : Typed.empty.scrolled t₀ = 0 := by
    rw [scrolled, hfar]
    omega
  refine ⟨h, rfl, by omega, ?_⟩
  intro q hq
  rw [hscrolled, mul_zero, add_zero, cell, hlen, hfar]
  by_cases hbefore : q < t₀.pos
  · rw [if_pos hbefore]
  · rw [if_neg hbefore, if_neg (by omega), if_neg (by omega)]

/-- A character is added to the text. -/
theorem Shows.putRune (h : Shows t₀ t e) {ch : Int32} (hback : ch ≠ 8) (hline : ch ≠ 10) :
    Shows t₀ (t.putRune ch) (e.push (toByte ch)) := by
  have hkept := h.inBounds.kept_putRune ch
  have hle := e.length_le
  have hpos := h.pos
  have hlen : (e.push (toByte ch)).text.length = e.text.length + 1 := by simp [push]
  have hscrolled : (e.push (toByte ch)).scrolled t₀ =
    (t₀.pos + max e.far (e.text.length + 1)) / 80 - 24 := rfl
  have hbefore : e.scrolled t₀ = (t₀.pos + e.far) / 80 - 24 := rfl
  obtain ⟨hlt, hnext, hcells⟩ | ⟨hlast, hnext, hcells⟩ := h.inBounds.putRune_char hback hline
  · have hsame : (e.push (toByte ch)).scrolled t₀ = e.scrolled t₀ := by omega
    refine ⟨hkept.inBounds, hkept.color.trans h.color, by omega, ?_⟩
    intro q hq
    rw [hcells q hq, hsame, cell_push, h.cells q hq, h.color]
    exact if_congr (by omega) rfl rfl
  · have hmore : (e.push (toByte ch)).scrolled t₀ = e.scrolled t₀ + 1 := by omega
    refine ⟨hkept.inBounds, hkept.color.trans h.color, by omega, ?_⟩
    intro q hq
    have hrow : q + 80 * (e.scrolled t₀ + 1) = q + 80 + 80 * e.scrolled t₀ := by omega
    rw [hcells q hq, hmore, hrow]
    by_cases hshown : q + 80 < 2000
    · rw [if_pos hshown, cell_push, h.cells _ hshown, h.color]
      exact if_congr (by omega) rfl rfl
    · -- The row that has come in lies behind everything that has been typed.
      have hlt := h.inBounds.pos_lt
      rw [if_neg hshown, cell, hlen, if_neg (by omega), if_neg (by omega), if_pos (by omega),
        h.color]

/-- The last character of the text is erased. -/
theorem Shows.backspace (h : Shows t₀ t e) (htext : e.text ≠ []) (hfar : e.far ≤ 1920)
    (hstart : t₀.pos < 2000) : Shows t₀ t.backspace e.pop := by
  have hkept := h.inBounds.kept_backspace
  have hle := e.length_le
  have hpos := h.pos
  have hlen : e.pop.text.length = e.text.length - 1 := List.length_dropLast
  have hnonempty := List.length_pos_iff.mpr htext
  have hsame : e.pop.scrolled t₀ = e.scrolled t₀ := rfl
  have hscrolled : e.scrolled t₀ = (t₀.pos + e.far) / 80 - 24 := rfl
  obtain ⟨hnext, hcells⟩ := h.inBounds.backspace_pos (by omega)
  refine ⟨hkept.inBounds, hkept.color.trans h.color, by omega, ?_⟩
  intro q hq
  rw [hcells q, hsame, cell_pop htext, h.cells q hq, h.color]
  exact if_congr (by omega) rfl rfl

/-- What stood before the text is still there, as far as it is on the screen. -/
theorem Shows.cellAt_before (h : Shows t₀ t e) {a : ℕ} (ha : a < t₀.pos) (hstart : t₀.pos < 2000)
    (hshown : 80 * e.scrolled t₀ ≤ a) : t.cellAt (a - 80 * e.scrolled t₀) = t₀.cellAt a := by
  rw [h.cells _ (by omega), Nat.sub_add_cancel hshown, cell, if_pos ha]

/-- The text, and blanks up to the furthest cell it has reached. -/
theorem Shows.cellAt_typed (h : Shows t₀ t e) {i : ℕ} (hi : i < e.far)
    (hshown : 80 * e.scrolled t₀ ≤ t₀.pos) :
    t.cellAt (t₀.pos + i - 80 * e.scrolled t₀) = ⟨e.text.getD i 0x20, t₀.color⟩ := by
  have hscrolled : e.scrolled t₀ = (t₀.pos + e.far) / 80 - 24 := rfl
  rw [h.cells _ (by omega), Nat.sub_add_cancel (by omega), cell, if_neg (by omega)]
  by_cases htext : i < e.text.length
  · rw [if_pos (by omega), Nat.add_sub_cancel_left, List.getD_eq_getElem _ _ htext,
      List.getD_eq_getElem _ _ htext]
  · rw [if_neg (by omega), if_pos (.inl (by omega)), List.getD_eq_default _ _ (not_lt.mp htext)]

end Typed

end DavOS.Terminal
