import DavOS.Lib.Runs
import DavOS.Lib.Wrap
import DavOS.Terminal.Screen

/-!
# What the terminal shows

Printing on a cleared screen lays the text out in rows of 80 cells, and the screen shows the last 25
of them (`Shows`). A character is stored behind the last one (`Drawn.store`), and the end of a row
makes the page longer or moves it up (`Drawn.startRow`); `putRune` is one of these, or both when it
fills a row.
-/

namespace DavOS.Terminal

open Wrap (Page)

namespace Screen

def blank (t : Screen) : Cell := ⟨0x20, t.color⟩

/-- The screen shows the last rows of the page, and the cursor is in the last of them. -/
structure Drawn (t : Screen) (p : Page Cell) : Prop where
  cells : ∀ r c : ℕ, r < 25 → c < 80 → t.vidMem r c = Wrap.cell t.blank (p.visible 25) r c
  row : t.row + 1 = (p.visible 25).length

/-- The cursor is at the end of the text, too. -/
structure Shows (t : Screen) (p : Page Cell) : Prop extends Drawn t p where
  column : t.column = p.cur.length
  short : p.cur.length < 80

variable {t : Screen} {p : Page Cell}

/-- The row of the cursor is the last of the page, or of the screen. -/
theorem Drawn.length_visible (h : t.Drawn p) : t.row + 1 = min (p.done.length + 1) 25 := by
  rw [h.row, Wrap.length_visible]

/-- A screen that shows a page has its cursor on it. -/
theorem Shows.inBounds (h : t.Shows p) : t.InBounds := by
  have hrow := h.length_visible
  have hcolumn := h.column
  have hshort := h.short
  exact ⟨by omega, by omega, by omega, by omega⟩

/-- A character is drawn at the end of the text. -/
theorem Drawn.store (h : t.Drawn p) (hcolumn : t.column = p.cur.length) (ch : UInt8) :
    (t.store t.row t.column ch).Drawn (p.add ⟨ch, t.color⟩) := by
  refine ⟨?_, ?_⟩
  · intro r c hr hc
    have hat : ((r : ℤ) = t.row ∧ (c : ℤ) = t.column) ↔
        r + 1 = (p.visible 25).length ∧ c = p.cur.length := by
      have := h.row
      omega
    rw [Wrap.cell_add (by decide)]
    exact if_ctx_congr hat (fun _ => rfl) fun _ => h.cells r c hr hc
  · rw [Wrap.length_visible]
    exact h.length_visible

/-- A new row is shown, for which the screen may have to scroll. -/
theorem Drawn.startRow (h : t.Drawn p) : (t.startRow (t.row + 1)).updateCursor.Shows p.endRow := by
  have hrow := h.length_visible
  have hended : (p.endRow.visible 25).length = min (p.done.length + 2) 25 := by
    rw [Wrap.length_visible, Page.endRow]
    simp
  obtain ⟨hlt, heq⟩ | ⟨hlast, heq⟩ := startRow_cases (t := t) (r := t.row + 1) (by omega)
  · rw [heq]
    refine ⟨⟨?_, ?_⟩, rfl, Nat.zero_lt_succ _⟩
    · intro r c hr hc
      rw [Wrap.cell_endRow (by decide), if_pos (by omega)]
      exact h.cells r c hr hc
    · change t.row + 1 + 1 = _
      omega
  · rw [heq]
    refine ⟨⟨?_, ?_⟩, rfl, Nat.zero_lt_succ _⟩
    · intro r c hr hc
      rw [Wrap.cell_endRow (by decide), if_neg (by omega)]
      have hscroll : t.scroll.vidMem r c = if (r : ℤ) < 24 then t.vidMem (r + 1) c else t.blank :=
        scroll_vidMem ⟨by omega, by omega⟩
      change t.scroll.vidMem r c = Wrap.cell t.blank (p.visible 25) (r + 1) c
      rw [hscroll]
      by_cases hr' : r < 24
      · rw [if_pos (by omega)]
        exact_mod_cast h.cells (r + 1) c (by omega) hc
      · have hnone : (p.visible 25).getD (r + 1) [] = [] :=
          List.getD_eq_default _ _ (by have := h.row; omega)
        rw [if_neg (by omega), Wrap.cell, hnone, List.getD_nil]
    · change (24 : ℤ) + 1 = _
      omega

/-- What a rune is for the layout. -/
def glyph (color : UInt8) (ch : Int32) : Option Cell :=
  if ch = 10 then none else some ⟨toByte ch, color⟩

/-- The screen shows any character but a backspace. -/
theorem Shows.putRune (h : t.Shows p) {ch : Int32} (hch : ch ≠ 8) :
    (t.putRune ch).Shows (p.put 80 (glyph t.color ch)) := by
  rw [Screen.putRune, if_neg hch, glyph]
  by_cases hline : ch = 10
  · rw [if_pos hline, if_pos hline]
    exact h.toDrawn.startRow
  rw [if_neg hline, if_neg hline]
  have hdrawn := h.toDrawn.store h.column (toByte ch)
  have hfull : t.column + 1 ≥ (vgaWidth : ℤ) ↔ (p.add ⟨toByte ch, t.color⟩).cur.length = 80 := by
    have hshort := h.short
    have hcolumn := h.column
    change t.column + 1 ≥ 80 ↔ (p.cur ++ [_]).length = 80
    rw [List.length_append, List.length_singleton]
    omega
  dsimp only [Page.put]
  by_cases hwrap : t.column + 1 ≥ (vgaWidth : ℤ)
  · rw [if_pos (hfull.mp hwrap)]
    have hwrap' : (t.store t.row t.column (toByte ch)).column + 1 ≥ (vgaWidth : ℤ) := hwrap
    rw [if_pos hwrap']
    exact Drawn.startRow (t := { t.store t.row t.column (toByte ch) with
      column := t.column + 1
      debug := t.debug ++ [toByte ch] }) ⟨hdrawn.cells, hdrawn.row⟩
  · rw [if_neg (mt hfull.mpr hwrap)]
    have hwrap' : ¬ (t.store t.row t.column (toByte ch)).column + 1 ≥ (vgaWidth : ℤ) := hwrap
    rw [if_neg hwrap']
    refine ⟨⟨hdrawn.cells, hdrawn.row⟩, ?_, ?_⟩
    · change t.column + 1 = ((p.cur ++ [_]).length : ℤ)
      rw [h.column, List.length_append]
      rfl
    · have := h.short
      have := mt hfull.mpr hwrap
      simp only [Page.add, List.length_append, List.length_singleton] at this ⊢
      omega

/-- A cleared screen shows the empty page. -/
theorem clear_shows (t : Screen) : t.clear.Shows ⟨[], []⟩ := by
  rw [clear_eq]
  refine ⟨⟨?_, rfl⟩, rfl, by decide⟩
  intro r c hr hc
  have hblank : Wrap.cell t.blank ((⟨[], []⟩ : Page Cell).visible 25) r c = t.blank := by
    cases r <;> rfl
  refine Eq.trans ?_ hblank.symm
  exact (Grid.fill_apply _ _ _ _ _ _).trans (if_pos (by omega))

end Screen

/-! ## Calls -/

/-- A call that draws. -/
inductive Call
  | clear
  | putRune (ch : Int32)
  | print (s : List UInt8)
  | backspace
  | printAt (col row : ℤ) (s : List UInt8)

def Call.step (t : Screen) : Call → Screen
  | clear => t.clear
  | putRune ch => t.putRune ch
  | print s => t.print s
  | backspace => t.backspace
  | printAt col row s => t.printAt col row s

/-- A call that prints. -/
inductive Output
  | putRune (ch : Int32)
  | print (s : List UInt8)

namespace Output

def call : Output → Call
  | putRune ch => .putRune ch
  | print s => .print s

def runes : Output → List Int32
  | putRune ch => [ch]
  | print s => s.map ofByte

def step (t : Screen) (o : Output) : Screen := o.call.step t

/-- An output prints its characters one by one. -/
theorem step_eq (t : Screen) (o : Output) :
    step t o = o.runes.foldl (fun t ch => t.putRune ch) t := by
  cases o with
  | putRune ch => rfl
  | print s =>
    rw [runes, List.foldl_map]
    rfl

/-- A sequence of outputs is one of calls. -/
theorem run_eq (t : Screen) (outputs : List Output) :
    Runs.run step t outputs = Runs.run Call.step t (outputs.map call) := by
  rw [Runs.run, Runs.run, List.foldl_map]
  rfl

end Output

namespace Screen

variable {t : Screen}

/-- So it does any number of characters. -/
theorem Shows.foldl {p : Page Cell} (h : t.Shows p) (runes : List Int32) (hrunes : 8 ∉ runes) :
    (runes.foldl (fun t ch => t.putRune ch) t).Shows
      ((runes.map (glyph t.color)).foldl (fun p x => p.put 80 x) p) := by
  induction runes generalizing t p with
  | nil => exact h
  | cons ch runes ih =>
    rw [List.mem_cons, not_or] at hrunes
    have hstep := h.putRune (Ne.symm hrunes.1)
    have hcolor : (t.putRune ch).color = t.color := (h.inBounds.kept_putRune ch).color
    rw [List.foldl_cons, List.map_cons, List.foldl_cons, ← hcolor]
    rw [← hcolor] at hstep
    exact ih hstep hrunes.2

/-- So it does any number of outputs. -/
theorem Shows.run {p : Page Cell} (h : t.Shows p) (outputs : List Output)
    (hrunes : 8 ∉ outputs.flatMap Output.runes) :
    (Runs.run Output.step t outputs).Shows
      (((outputs.flatMap Output.runes).map (glyph t.color)).foldl (fun p x => p.put 80 x) p) := by
  have heq : Runs.run Output.step t outputs =
      (outputs.flatMap Output.runes).foldl (fun t ch => t.putRune ch) t := by
    rw [List.foldl_flatMap, Runs.run]
    congr 1
    funext t o
    exact o.step_eq t
  rw [heq]
  exact h.foldl _ hrunes

/-- One call keeps the cursor on the screen. -/
theorem InBounds.kept_step (h : t.InBounds) (call : Call) : Kept t (call.step t) := by
  cases call with
  | clear => exact kept_clear t
  | putRune ch => exact h.kept_putRune ch
  | print s => exact h.kept_print s
  | backspace => exact h.kept_backspace
  | printAt col row s => exact h.kept_printAt col row s

/-- So does any number of them. -/
theorem InBounds.kept_run (h : t.InBounds) (calls : List Call) :
    Kept t (Runs.run Call.step t calls) := by
  induction calls generalizing t with
  | nil => exact .refl h
  | cons call calls ih => exact (h.kept_step call).trans (ih (h.kept_step call).inBounds)

end Screen

/-- **The terminal shows wrapped text.** After `Clear` and any printing without backspaces, the
screen shows the last 25 rows of the text, with the cursor at its end. After any calls at all, the
cursor is on the screen and the memory around it is as it was. -/
theorem terminal_shows_wrapped_text :
    (∀ (t : Screen) (outputs : List Output), 8 ∉ outputs.flatMap Output.runes →
      let t' := Runs.run Output.step t.clear outputs
      let page := Wrap.layout 80 ((outputs.flatMap Output.runes).map (Screen.glyph t.color))
      (∀ r c : ℕ, r < 25 → c < 80 →
        t'.vidMem r c = Wrap.cell ⟨0x20, t.color⟩ (page.visible 25) r c) ∧
      t'.row + 1 = (page.visible 25).length ∧ t'.column = page.cur.length ∧
      t'.crtc.position = t'.row * 80 + t'.column) ∧
    (∀ t : Screen, t.InBounds → ∀ calls : List Call,
      let t' := Runs.run Call.step t calls
      (0 ≤ t'.row ∧ t'.row < 25) ∧ (0 ≤ t'.column ∧ t'.column < 80) ∧
      ∀ r c, ¬ ((0 ≤ r ∧ r < 25) ∧ 0 ≤ c ∧ c < 80) → t'.vidMem r c = t.vidMem r c) := by
  refine ⟨?_, ?_⟩
  · intro t outputs hrunes t' page
    have hcolor : t.clear.color = t.color := (Screen.kept_clear t).color
    have hshows := t.clear_shows.run outputs hrunes
    rw [hcolor] at hshows
    have hkept := (Screen.kept_clear t).inBounds.kept_run (outputs.map Output.call)
    rw [← Output.run_eq] at hkept
    have hblank : Screen.blank t' = ⟨0x20, t.color⟩ := by
      rw [Screen.blank, hkept.color, hcolor]
    refine ⟨?_, hshows.row, hshows.column, hkept.cursor t.clear_cursorShown⟩
    rw [← hblank]
    exact hshows.cells
  · intro t hbounds calls t'
    have hkept := hbounds.kept_run calls
    exact ⟨⟨hkept.inBounds.row_nonneg, hkept.inBounds.row_lt⟩,
      ⟨hkept.inBounds.column_nonneg, hkept.inBounds.column_lt⟩, hkept.outside⟩

/-- A screen with nothing on it yet. -/
def darkScreen : Screen := ⟨0, 0, 7, fun _ _ => ⟨0, 0⟩, ⟨0, 0, 0⟩, []⟩

/-- Two rows, the first of which ends because it is full. -/
theorem full_row_ends :
    let t := Runs.run Output.step darkScreen.clear
      [.print (List.replicate 80 0x61), .putRune 0x62]
    t.vidMem (1 : ℕ) (0 : ℕ) = ⟨0x62, 7⟩ ∧ t.row + 1 = 2 ∧ t.column = 1 := by
  intro t
  obtain ⟨hcells, hrow, hcolumn, -⟩ := terminal_shows_wrapped_text.1 darkScreen
    [.print (List.replicate 80 0x61), .putRune 0x62] (by decide)
  exact ⟨(hcells 1 0 (by decide) (by decide)).trans (by decide +kernel),
    hrow.trans (by decide +kernel), hcolumn.trans (by decide +kernel)⟩

end DavOS.Terminal
