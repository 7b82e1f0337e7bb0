import DavOS.Lib.Grid
import Mathlib.Tactic.Common

/-!
# The VGA terminal

Reference: `terminal/terminal.go`.

The video memory is a grid: a pair that is no cell of the screen stands for the memory around it, so
that a store outside the screen would show. `updateCursor` sets two registers of the CRT controller,
through its index and data ports; `Crtc` is as much of that device as this needs.

Every function of the package keeps the cursor on the screen, changes nothing outside it, and leaves
the hardware cursor where the variables are (`Kept`).
-/

namespace DavOS.Terminal

abbrev vgaWidth : ℕ := 80

abbrev vgaHeight : ℕ := 25

/-- `rune(b)` -/
def ofByte (b : UInt8) : Int32 := b.toUInt32.toInt32

/-- `byte(ch)` -/
def toByte (ch : Int32) : UInt8 := ch.toUInt32.toUInt8

@[simp] theorem toByte_ofByte (b : UInt8) : toByte (ofByte b) = b := by simp [toByte, ofByte]

/-- Different bytes are different characters. -/
theorem ofByte_injective : Function.Injective ofByte :=
  Function.LeftInverse.injective toByte_ofByte

/-- A character and its colour. -/
structure Cell where
  char : UInt8
  color : UInt8
deriving DecidableEq, Repr

/-! ## The hardware cursor -/

structure Crtc where
  index : UInt8
  cursorHigh : UInt8
  cursorLow : UInt8

namespace Crtc

def outb (port : UInt16) (value : UInt8) (d : Crtc) : Crtc :=
  if port = 0x3D4 then { d with index := value }
  else if port = 0x3D5 then
    if d.index = 0x0E then { d with cursorHigh := value }
    else if d.index = 0x0F then { d with cursorLow := value }
    else d
  else d

/-- Where the cursor is shown, counted in cells. -/
def position (d : Crtc) : ℕ := d.cursorHigh.toNat * 256 + d.cursorLow.toNat

end Crtc

/-! ## The functions of the package -/

/-- The variables of the package, the video memory and the devices. -/
structure Screen where
  column : ℤ
  row : ℤ
  color : UInt8
  vidMem : ℤ → ℤ → Cell
  crtc : Crtc
  /-- What `debugChar` has been given. -/
  debug : List UInt8

namespace Screen

def updateCursor (t : Screen) : Screen :=
  let pos := UInt16.ofInt (t.row * vgaWidth + t.column)
  let crtc := t.crtc.outb 0x3D4 0x0F
  let crtc := crtc.outb 0x3D5 (pos &&& 0xFF).toUInt8
  let crtc := crtc.outb 0x3D4 0x0E
  let crtc := crtc.outb 0x3D5 ((pos >>> 8) &&& 0xFF).toUInt8
  { t with crtc }

/-- The two stores to a cell. -/
def store (r c : ℤ) (ch : UInt8) (t : Screen) : Screen :=
  { t with vidMem := Grid.set t.vidMem r c ⟨ch, t.color⟩ }

def clear (t : Screen) : Screen :=
  let t := (List.range vgaHeight).foldl (fun t (r : ℕ) =>
    (List.range vgaWidth).foldl (fun t (c : ℕ) => t.store r c 0x20) t) t
  updateCursor { t with
    column := 0
    row := 0 }

def makeColor (fg bg : UInt8) : UInt8 := fg ||| (bg <<< 4)

def init (t : Screen) : Screen :=
  clear { t with
    color := makeColor 7 0
    column := 0
    row := 0 }

def scroll (t : Screen) : Screen :=
  let t := (List.range' 1 (vgaHeight - 1)).foldl (fun t (r : ℕ) =>
    (List.range vgaWidth).foldl (fun t (c : ℕ) =>
      { t with vidMem := Grid.set t.vidMem (r - 1) c (t.vidMem r c) }) t) t
  let last := vgaHeight - 1
  (List.range vgaWidth).foldl (fun t (c : ℕ) => t.store last c 0x20) t

/-- The lines that end a row, in `putRune` and in `putRuneAt`. -/
def startRow (r : ℤ) (t : Screen) : Screen :=
  let t := { t with
    column := 0
    row := r }
  if t.row ≥ (vgaHeight : ℤ) then { t.scroll with row := vgaHeight - 1 } else t

def backspace (t : Screen) : Screen :=
  if t.column > 0 then
    let t := { t with column := t.column - 1 }
    (t.store t.row t.column 0x20).updateCursor
  else if t.row > 0 then
    let t := { t with
      row := t.row - 1
      column := vgaWidth - 1 }
    (t.store t.row t.column 0x20).updateCursor
  else t.updateCursor

def putRune (ch : Int32) (t : Screen) : Screen :=
  if ch = 8 then t.backspace
  else if ch = 10 then (t.startRow (t.row + 1)).updateCursor
  else
    let t := t.store t.row t.column (toByte ch)
    let t := { t with debug := t.debug ++ [toByte ch] }
    let t := { t with column := t.column + 1 }
    let t := if t.column ≥ (vgaWidth : ℤ) then t.startRow (t.row + 1) else t
    t.updateCursor

def print (s : List UInt8) (t : Screen) : Screen := s.foldl (fun t b => t.putRune (ofByte b)) t

def putRuneAt (col currRow : ℤ) (ch : Int32) (t : Screen) : Screen :=
  if col < 0 ∨ col ≥ (vgaWidth : ℤ) then t
  else if currRow < 0 ∨ currRow ≥ (vgaHeight : ℤ) then t
  else if ch = 10 then (t.startRow (currRow + 1)).updateCursor
  else
    let t := t.store currRow col (toByte ch)
    let t := { t with
      column := col + 1
      row := currRow }
    let t := if t.column ≥ (vgaWidth : ℤ) then t.startRow (currRow + 1) else t
    t.updateCursor

def printAt (col row : ℤ) (s : List UInt8) (t : Screen) : Screen :=
  s.zipIdx.foldl (fun t (b, i) => t.putRuneAt (col + i) row (ofByte b)) t

/-! ## What the loops do -/

variable {t : Screen}

/-- The loop over the columns of one row fills them. -/
theorem foldl_store (r : ℤ) (ch : UInt8) (n : ℕ) (t : Screen) :
    (List.range n).foldl (fun t (c : ℕ) => t.store r c ch) t =
      { t with vidMem := Grid.fillRow t.vidMem ⟨ch, t.color⟩ n r } := by
  induction n with
  | zero => rfl
  | succ n ih =>
    rw [List.range_succ, List.foldl_append, ih, Grid.fillRow_succ]
    rfl

/-- The two loops of `Clear` fill the screen. -/
theorem foldl_store_rows (ch : UInt8) (h w : ℕ) (t : Screen) :
    (List.range h).foldl (fun t (r : ℕ) =>
      (List.range w).foldl (fun t (c : ℕ) => t.store r c ch) t) t =
      { t with vidMem := Grid.fill t.vidMem ⟨ch, t.color⟩ h w } := by
  induction h with
  | zero => rfl
  | succ h ih =>
    rw [List.range_succ, List.foldl_append, ih, List.foldl_cons, List.foldl_nil, foldl_store,
      Grid.fill_succ]

/-- The loop over the columns copies a row to another one. -/
theorem foldl_copy (src dst : ℤ) (n : ℕ) (t : Screen) :
    (List.range n).foldl (fun t (c : ℕ) =>
      { t with vidMem := Grid.set t.vidMem dst c (t.vidMem src c) }) t =
      { t with vidMem := Grid.copyRow t.vidMem n src dst } := by
  induction n with
  | zero => rfl
  | succ n ih =>
    rw [List.range_succ, List.foldl_append, ih, Grid.copyRow_succ]
    rfl

/-- The two loops of `scroll` move the rows up. -/
theorem foldl_copy_rows (n w : ℕ) (t : Screen) :
    (List.range' 1 n).foldl (fun t (r : ℕ) =>
      (List.range w).foldl (fun t (c : ℕ) =>
        { t with vidMem := Grid.set t.vidMem (r - 1) c (t.vidMem r c) }) t) t =
      { t with vidMem := Grid.moveUp t.vidMem n w } := by
  induction n with
  | zero => rfl
  | succ n ih =>
    rw [List.range'_1_concat, List.foldl_append, ih, List.foldl_cons, List.foldl_nil, foldl_copy,
      Grid.moveUp_succ]

/-- The pair is a cell of the screen. -/
def IsCell (r c : ℤ) : Prop := (0 ≤ r ∧ r < 25) ∧ 0 ≤ c ∧ c < 80

/-- `scroll` moves the rows up and fills the last one. -/
theorem scroll_eq (t : Screen) : t.scroll = { t with
    vidMem := Grid.fillRow (Grid.moveUp t.vidMem 24 80) ⟨0x20, t.color⟩ 80 24 } := by
  rw [scroll, foldl_copy_rows, foldl_store]
  rfl

/-- Scrolling moves the rows up and leaves the last one blank. -/
theorem scroll_vidMem {r c : ℤ} (h : IsCell r c) :
    t.scroll.vidMem r c = if r < 24 then t.vidMem (r + 1) c else ⟨0x20, t.color⟩ := by
  obtain ⟨⟨hr, hr'⟩, hc⟩ := h
  rw [scroll_eq]
  simp only
  rw [Grid.fillRow_apply, Grid.moveUp_apply]
  by_cases hlast : r < 24
  · rw [if_neg (by omega), if_pos (by omega), if_pos hlast]
  · rw [if_pos (by omega), if_neg hlast]

/-- Scrolling writes to the screen only. -/
theorem scroll_vidMem_of_not_isCell {r c : ℤ} (h : ¬ IsCell r c) :
    t.scroll.vidMem r c = t.vidMem r c := by
  rw [IsCell] at h
  rw [scroll_eq]
  simp only
  rw [Grid.fillRow_apply, Grid.moveUp_apply, if_neg (by omega), if_neg (by omega)]

/-- `Clear` fills the screen and puts the cursor into the corner. -/
theorem clear_eq (t : Screen) : t.clear = updateCursor { t with
    vidMem := Grid.fill t.vidMem ⟨0x20, t.color⟩ 25 80
    column := 0
    row := 0 } := by
  rw [clear, foldl_store_rows]

/-! ## What every function keeps -/

/-- The variables say where a cell is. -/
structure InBounds (t : Screen) : Prop where
  row_nonneg : 0 ≤ t.row
  row_lt : t.row < 25
  column_nonneg : 0 ≤ t.column
  column_lt : t.column < 80

/-- The hardware cursor is where the variables say. -/
def CursorShown (t : Screen) : Prop := (t.crtc.position : ℤ) = t.row * 80 + t.column

/-- A cursor in bounds is on a cell. -/
theorem InBounds.isCell (h : t.InBounds) : IsCell t.row t.column :=
  ⟨⟨h.row_nonneg, h.row_lt⟩, h.column_nonneg, h.column_lt⟩

/-- The two bytes that go to the cursor registers make up the position. -/
theorem toNat_halves (pos : UInt16) :
    ((pos >>> 8) &&& 0xFF).toUInt8.toNat * 256 + (pos &&& 0xFF).toUInt8.toNat = pos.toNat := by
  have hpos := pos.toNat_lt
  have hhigh : ((pos >>> 8) &&& 0xFF).toNat = pos.toNat / 256 % 256 := by
    rw [UInt16.toNat_and, UInt16.toNat_shiftRight]
    change (pos.toNat >>> 8) &&& (2 ^ 8 - 1) = _
    rw [Nat.and_two_pow_sub_one_eq_mod, Nat.shiftRight_eq_div_pow]
  have hlow : (pos &&& 0xFF).toNat = pos.toNat % 256 := by
    rw [UInt16.toNat_and]
    exact Nat.and_two_pow_sub_one_eq_mod _ 8
  rw [UInt16.toNat_toUInt8, UInt16.toNat_toUInt8, hhigh, hlow]
  omega

/-- `updateCursor` brings the hardware cursor to the variables. -/
theorem InBounds.cursorShown_updateCursor (h : t.InBounds) : t.updateCursor.CursorShown := by
  obtain ⟨hrow, hrow', hcol, hcol'⟩ := h
  have hpos : t.updateCursor.crtc.position = (UInt16.ofInt (t.row * 80 + t.column)).toNat :=
    toNat_halves _
  rw [CursorShown, hpos, UInt16.ofInt, UInt16.toNat_ofNat']
  change _ = t.row * 80 + t.column
  omega

/-- What a function of the package keeps: the cursor is on the screen, and nothing around the screen
has changed. -/
structure Kept (t t' : Screen) : Prop where
  inBounds : t'.InBounds
  color : t'.color = t.color
  outside : ∀ r c, ¬ IsCell r c → t'.vidMem r c = t.vidMem r c
  cursor : t.CursorShown → t'.CursorShown

/-- Nothing has changed. -/
theorem Kept.refl (h : t.InBounds) : Kept t t := ⟨h, rfl, fun _ _ _ => rfl, id⟩

/-- Functions that keep the screen compose. -/
theorem Kept.trans {t' t'' : Screen} (h : Kept t t') (h' : Kept t' t'') : Kept t t'' :=
  ⟨h'.inBounds, h'.color.trans h.color,
    fun r c hout => (h'.outside r c hout).trans (h.outside r c hout), h'.cursor ∘ h.cursor⟩

/-- A change of the screen alone that ends with `updateCursor` keeps the screen. -/
theorem kept_updateCursor {t' : Screen} (hbounds : t'.InBounds) (hcolor : t'.color = t.color)
    (hout : ∀ r c, ¬ IsCell r c → t'.vidMem r c = t.vidMem r c) : Kept t t'.updateCursor :=
  ⟨⟨hbounds.row_nonneg, hbounds.row_lt, hbounds.column_nonneg, hbounds.column_lt⟩, hcolor, hout,
    fun _ => hbounds.cursorShown_updateCursor⟩

/-- A character on the screen changes nothing around it. -/
theorem store_outside {r c r' c' : ℤ} (hcell : IsCell r c) (ch : UInt8) (hout : ¬ IsCell r' c') :
    (t.store r c ch).vidMem r' c' = t.vidMem r' c' := by
  refine if_neg ?_
  rintro ⟨rfl, rfl⟩
  exact hout hcell

/-- A row starts at the next row, or after a scroll at the last one. -/
theorem startRow_cases {r : ℤ} (h : r ≤ 25) :
    (r < 25 ∧ t.startRow r = { t with
      column := 0
      row := r }) ∨
    (r = 25 ∧ t.startRow r = { t with
      column := 0
      row := 24
      vidMem := t.scroll.vidMem }) := by
  rw [startRow]
  by_cases hlast : r ≥ (vgaHeight : ℤ)
  · refine .inr ⟨le_antisymm h hlast, ?_⟩
    dsimp only
    rw [if_pos hlast, scroll_eq, scroll_eq]
    rfl
  · refine .inl ⟨not_le.mp hlast, ?_⟩
    dsimp only
    rw [if_neg hlast]

/-- Starting a row on the screen, or just below it, keeps the screen. -/
theorem kept_startRow {t' : Screen} {r : ℤ} (hr : 0 ≤ r) (h : r ≤ 25) (hcolor : t'.color = t.color)
    (hout : ∀ r c, ¬ IsCell r c → t'.vidMem r c = t.vidMem r c) :
    Kept t (t'.startRow r).updateCursor := by
  obtain ⟨hlt, heq⟩ | ⟨-, heq⟩ := startRow_cases (t := t') h
  · rw [heq]
    exact kept_updateCursor ⟨hr, hlt, le_rfl, by norm_num⟩ hcolor hout
  · rw [heq]
    refine kept_updateCursor ⟨by norm_num, by norm_num, le_rfl, by norm_num⟩ hcolor ?_
    intro r c hrc
    have hscroll : t'.scroll.vidMem r c = t'.vidMem r c := scroll_vidMem_of_not_isCell hrc
    simp only [hscroll, hout r c hrc]

/-- `Clear` puts the cursor on the screen, wherever it was. -/
theorem kept_clear (t : Screen) : Kept t t.clear := by
  rw [clear_eq]
  refine kept_updateCursor ⟨le_rfl, by norm_num, le_rfl, by norm_num⟩ rfl ?_
  intro r c hrc
  exact (Grid.fill_apply _ _ _ _ _ _).trans (if_neg hrc)

/-- After `Clear` the hardware cursor is right. -/
theorem clear_cursorShown (t : Screen) : t.clear.CursorShown := by
  rw [clear_eq]
  exact InBounds.cursorShown_updateCursor ⟨le_rfl, by norm_num, le_rfl, by norm_num⟩

/-- A backspace keeps the screen, also at the start of a row. -/
theorem InBounds.kept_backspace (h : t.InBounds) : Kept t t.backspace := by
  obtain ⟨hrow, hrow', hcol, hcol'⟩ := h
  rw [backspace]
  by_cases hc : t.column > 0
  · rw [if_pos hc]
    refine kept_updateCursor ⟨hrow, hrow', ?_, ?_⟩ rfl ?_
    · change 0 ≤ t.column - 1
      omega
    · change t.column - 1 < 80
      omega
    · exact fun r c hrc => store_outside ⟨⟨hrow, hrow'⟩, by dsimp only; omega⟩ _ hrc
  rw [if_neg hc]
  by_cases hr : t.row > 0
  · rw [if_pos hr]
    refine kept_updateCursor ⟨?_, ?_, by norm_num [store], by norm_num [store]⟩ rfl ?_
    · change 0 ≤ t.row - 1
      omega
    · change t.row - 1 < 25
      omega
    · exact fun r c hrc => store_outside ⟨by dsimp only; omega, by norm_num⟩ _ hrc
  · rw [if_neg hr]
    exact kept_updateCursor ⟨hrow, hrow', hcol, hcol'⟩ rfl fun _ _ _ => rfl

/-- Any character keeps the screen, wherever the cursor is. -/
theorem InBounds.kept_putRune (h : t.InBounds) (ch : Int32) : Kept t (t.putRune ch) := by
  have hcell := h.isCell
  rw [putRune]
  by_cases hback : ch = 8
  · rw [if_pos hback]
    exact h.kept_backspace
  rw [if_neg hback]
  obtain ⟨hrow, hrow', hcol, hcol'⟩ := h
  by_cases hline : ch = 10
  · rw [if_pos hline]
    exact kept_startRow (by omega) (by omega) rfl fun _ _ _ => rfl
  rw [if_neg hline]
  dsimp only
  have hstore : ∀ r c, ¬ IsCell r c →
      (t.store t.row t.column (toByte ch)).vidMem r c = t.vidMem r c :=
    fun r c hrc => store_outside hcell _ hrc
  by_cases hwrap : (t.store t.row t.column (toByte ch)).column + 1 ≥ (vgaWidth : ℤ)
  · rw [if_pos hwrap]
    exact kept_startRow (add_nonneg hrow zero_le_one) (Int.add_one_le_of_lt hrow') rfl hstore
  · rw [if_neg hwrap]
    refine kept_updateCursor ⟨hrow, hrow', ?_, ?_⟩ rfl hstore
    · exact add_nonneg hcol zero_le_one
    · exact not_le.mp hwrap

/-- Every branch of `putRune` ends with `updateCursor`. -/
theorem exists_updateCursor (t : Screen) (ch : Int32) :
    ∃ t' : Screen, t.putRune ch = t'.updateCursor := by
  rw [putRune, backspace]
  split
  · split
    · exact ⟨_, rfl⟩
    · split <;> exact ⟨_, rfl⟩
  · split <;> exact ⟨_, rfl⟩

/-- Whatever is put on the screen, the hardware cursor is then at the cursor. -/
theorem InBounds.cursorShown_putRune (h : t.InBounds) (ch : Int32) :
    (t.putRune ch).CursorShown := by
  have hbounds := (h.kept_putRune ch).inBounds
  obtain ⟨t', ht'⟩ := t.exists_updateCursor ch
  rw [ht'] at hbounds ⊢
  exact InBounds.cursorShown_updateCursor
    ⟨hbounds.row_nonneg, hbounds.row_lt, hbounds.column_nonneg, hbounds.column_lt⟩

/-- So does a text, character by character. -/
theorem InBounds.kept_print (h : t.InBounds) (s : List UInt8) : Kept t (t.print s) := by
  induction s generalizing t with
  | nil => exact .refl h
  | cons b s ih => exact (h.kept_putRune (ofByte b)).trans (ih (h.kept_putRune (ofByte b)).inBounds)

/-- So does any character at any coordinates, on the screen or not. -/
theorem InBounds.kept_putRuneAt (h : t.InBounds) (col currRow : ℤ) (ch : Int32) :
    Kept t (t.putRuneAt col currRow ch) := by
  rw [putRuneAt]
  by_cases hcol : col < 0 ∨ col ≥ (vgaWidth : ℤ)
  · rw [if_pos hcol]
    exact .refl h
  rw [if_neg hcol]
  by_cases hrow : currRow < 0 ∨ currRow ≥ (vgaHeight : ℤ)
  · rw [if_pos hrow]
    exact .refl h
  rw [if_neg hrow]
  obtain ⟨hcol, hcol'⟩ := not_or.mp hcol
  obtain ⟨hrow, hrow'⟩ := not_or.mp hrow
  rw [not_lt] at hcol hrow
  rw [ge_iff_le, not_le] at hcol' hrow'
  by_cases hline : ch = 10
  · rw [if_pos hline]
    exact kept_startRow (add_nonneg hrow zero_le_one) (Int.add_one_le_of_lt hrow') rfl
      fun _ _ _ => rfl
  rw [if_neg hline]
  dsimp only
  have hstore : ∀ r c, ¬ IsCell r c →
      (t.store currRow col (toByte ch)).vidMem r c = t.vidMem r c :=
    fun r c hrc => store_outside ⟨⟨hrow, hrow'⟩, hcol, hcol'⟩ _ hrc
  by_cases hwrap : col + 1 ≥ (vgaWidth : ℤ)
  · rw [if_pos hwrap]
    exact kept_startRow (add_nonneg hrow zero_le_one) (Int.add_one_le_of_lt hrow') rfl hstore
  · rw [if_neg hwrap]
    exact kept_updateCursor ⟨hrow, hrow', add_nonneg hcol zero_le_one, not_le.mp hwrap⟩ rfl hstore

/-- So does a text at any coordinates. -/
theorem InBounds.kept_printAt (h : t.InBounds) (col row : ℤ) (s : List UInt8) :
    Kept t (t.printAt col row s) := by
  rw [printAt]
  generalize s.zipIdx = l
  induction l generalizing t with
  | nil => exact .refl h
  | cons b l ih =>
    have hstep := h.kept_putRuneAt (col + b.2) row (ofByte b.1)
    exact hstep.trans (ih hstep.inBounds)

end Screen

end DavOS.Terminal
