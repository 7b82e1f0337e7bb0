import DavOS.Shell.Confirmation
import DavOS.Terminal.RowMajor

/-!
# Typing a line

Reference: `FeedRune` and `Init` of `shell/shell.go`.

The line buffer and the screen are changed by different code. Both follow the same text: it grows by
each printable rune as long as it has less than 128 characters, and loses its last one on each
backspace (`edit`). So what stands behind the prompt is the line that a newline then executes.
-/

namespace DavOS.Shell

open Agent (ascii)
open Terminal (Screen Typed ofByte toByte toByte_ofByte ofByte_injective)

/-! ## The functions of the shell -/

namespace Line

variable (line : Line)

def clear : Line := { line with
  len := 0
  len_le := Nat.zero_le _ }

def pop : Line := { line with
  len := line.len - 1
  len_le := (Nat.sub_le _ _).trans line.len_le }

def push (b : UInt8) (h : line.len < maxLine) : Line where
  buf := line.buf.set! line.len b
  len := line.len + 1
  len_le := h

end Line

/-- The machine with the other function of the terminal that the shell calls. -/
structure Console (σ : Type) extends Machine σ where
  backspace : σ → σ

/-- The line that is being typed, and the rest of the shell. -/
structure Session (σ : Type) where
  line : Line
  shell : State σ

namespace Session

variable {σ : Type} (m : Console σ)

/-- The call of `terminal.Print` and those of `terminal.PutRune`. -/
def print (text : List UInt8) (s : Session σ) : Session σ :=
  { s with shell := s.shell.print m.toMachine text }

def backspace (s : Session σ) : Session σ :=
  { s with shell := { s.shell with
    env := { s.shell.env with machine := m.backspace s.shell.env.machine } } }

/-- A new line begins. -/
def prompt (s : Session σ) : Session σ := { s with line := s.line.clear }.print m (ascii "> ")

def init (s : Session σ) : Session σ :=
  { line := s.line.clear
    shell := s.shell.init m.toMachine }

def feedRune (r : Int32) (s : Session σ) : Session σ :=
  let r := if r = 13 then 10 else r
  if r = 8 then
    if s.line.len = 0 then s
    else { s with line := s.line.pop }.backspace m
  else if r = 10 then
    let s := s.print m (ascii "\n")
    { s with shell := s.shell.execute m.toMachine s.line }.prompt m
  else if r < 32 ∨ r > 126 then s
  else if h : s.line.len < maxLine then
    { s with line := s.line.push (toByte r) h }.print m [toByte r]
  else s

def feed (runes : List Int32) (s : Session σ) : Session σ :=
  runes.foldl (fun s r => s.feedRune m r) s

end Session

/-! ## The text -/

/-- What a rune other than a newline does to the text that is being typed. -/
def edit (e : Typed) (r : Int32) : Typed :=
  if r = 8 then e.pop
  else if 32 ≤ r ∧ r ≤ 126 ∧ e.text.length < 128 then e.push (toByte r)
  else e

def typed (runes : List Int32) : Typed := runes.foldl edit .empty

/-- The last key edits what the others have typed. -/
theorem typed_concat (runes : List Int32) (r : Int32) :
    typed (runes ++ [r]) = edit (typed runes) r := by
  rw [typed, List.foldl_append]
  rfl

/-- The cursor goes no further than the line is long. -/
theorem far_edit_le {e : Typed} (h : e.far ≤ 128) (r : Int32) : (edit e r).far ≤ 128 := by
  rw [edit]
  split
  · exact h
  · split
    · next hchar => exact max_le h hchar.2.2
    · exact h

/-- So it does not over any sequence of keys. -/
theorem far_typed_le (runes : List Int32) : (typed runes).far ≤ 128 := by
  induction runes using List.reverseRecOn with
  | nil => exact Nat.zero_le _
  | append_singleton runes r ih =>
    rw [typed_concat]
    exact far_edit_le ih r

/-! ## The line buffer -/

namespace Line

variable (line : Line)

/-- The text has the length of the line. -/
theorem length_text : line.text.length = line.len := line.length_slice line.len_le

/-- A cleared line is empty. -/
theorem text_clear : line.clear.text = [] := line.clear.slice_eq_nil le_rfl

/-- A backspace removes the last byte. -/
theorem text_pop : line.pop.text = line.text.dropLast := by
  have hlen := line.length_text
  have hle := line.len_le
  rw [List.dropLast_eq_take, hlen, text, text, slice, slice, List.drop_zero, List.drop_zero,
    List.take_take]
  congr 1
  change line.len - 1 = _
  omega

/-- A key adds its byte. -/
theorem text_push (b : UInt8) (h : line.len < maxLine) :
    (line.push b h).text = line.text ++ [b] := CopyLoop.take_set!_succ line.buf h b

end Line

/-! ## The line on the screen -/

/-- The terminal of a machine is the VGA terminal. -/
def vga {ρ : Type} (m : Machine (Screen × ρ)) : Console (Screen × ρ) :=
  { m with
    putRune := fun b s => (s.1.putRune (ofByte b), s.2)
    backspace := fun s => (s.1.backspace, s.2) }

/-- A printable character is a byte from 32 on. -/
theorem le_toByte {r : Int32} (h : 32 ≤ r) (h' : r ≤ 126) : 32 ≤ toByte r := by
  have hlow : 32 ≤ r.toInt := Int32.le_iff_toInt_le.mp h
  have hhigh : r.toInt ≤ 126 := Int32.le_iff_toInt_le.mp h'
  have hlt := r.toUInt32.toNat_lt
  have hcond : r.toInt =
      if 2 * r.toUInt32.toNat < 2 ^ 32 then (r.toUInt32.toNat : ℤ)
      else r.toUInt32.toNat - 2 ^ 32 := BitVec.toInt_eq_toNat_cond _
  rw [UInt8.le_iff_toNat_le, toByte, UInt32.toNat_toUInt8]
  change 32 ≤ _
  split at hcond <;> omega

/-- Such a byte moves the cursor in the ordinary way. -/
theorem ofByte_ne {b : UInt8} (h : 32 ≤ b) : ofByte b ≠ 8 ∧ ofByte b ≠ 10 := by
  refine ⟨fun heq => ?_, fun heq => ?_⟩
  · rw [@ofByte_injective b 8 heq] at h
    exact absurd h (by decide)
  · rw [@ofByte_injective b 10 heq] at h
    exact absurd h (by decide)

namespace Session

variable {ρ : Type} (m : Machine (Screen × ρ))

def screen (s : Session (Screen × ρ)) : Screen := s.shell.env.machine.1

/-- What the shell prints goes to the screen. -/
theorem screen_print (text : List UInt8) (s : Session (Screen × ρ)) :
    (s.print (vga m) text).screen = s.screen.print text := by
  have hfold : ∀ p : Screen × ρ, ((vga m).toMachine.print text p).1 = p.1.print text := by
    induction text with
    | nil => exact fun _ => rfl
    | cons b text ih => exact fun p => ih _
  exact hfold _

/-! ## What a rune does -/

variable {t₀ : Screen} {s : Session (Screen × ρ)} {e : Typed}

/-- The line buffer holds the text, and the screen shows it, with the hardware cursor behind it. -/
structure Follows (t₀ : Screen) (s : Session (Screen × ρ)) (e : Typed) : Prop where
  text : s.line.text = e.text
  shows : e.Shows t₀ s.screen
  cursor : s.screen.CursorShown

/-- A backspace removes the last character on the screen, too. -/
theorem Follows.backspace (h : Follows t₀ s e) (hfar : e.far ≤ 128) (hstart : t₀.pos < 2000)
    (hlen : s.line.len ≠ 0) :
    Follows t₀ ({ s with line := s.line.pop }.backspace (vga m)) e.pop := by
  have htext : e.text ≠ [] := by
    rw [← h.text, ← List.length_pos_iff, s.line.length_text]
    omega
  exact ⟨s.line.text_pop.trans (congrArg List.dropLast h.text),
    h.shows.backspace htext (by omega) hstart, h.shows.inBounds.kept_backspace.cursor h.cursor⟩

/-- A printable key shows up on the screen, too. -/
theorem Follows.print (h : Follows t₀ s e) {b : UInt8} (hb : 32 ≤ b) (hlen : s.line.len < maxLine) :
    Follows t₀ ({ s with line := s.line.push b hlen }.print (vga m) [b]) (e.push b) := by
  have hshows := h.shows.putRune (ofByte_ne hb).1 (ofByte_ne hb).2
  rw [toByte_ofByte] at hshows
  refine ⟨(s.line.text_push b hlen).trans (congrArg (· ++ [b]) h.text), ?_, ?_⟩
  · rw [screen_print]
    exact hshows
  · rw [screen_print]
    exact h.shows.inBounds.cursorShown_putRune _

/-- Any key but the end of a line keeps the screen in step with the line. -/
theorem Follows.feedRune (h : Follows t₀ s e) (hfar : e.far ≤ 128) (hstart : t₀.pos < 2000)
    {r : Int32} (hline : r ≠ 10) (hreturn : r ≠ 13) :
    Follows t₀ (s.feedRune (vga m) r) (edit e r) := by
  have hlen : e.text.length = s.line.len := by rw [← h.text, s.line.length_text]
  rw [Session.feedRune, if_neg hreturn, edit]
  dsimp only
  by_cases hback : r = 8
  · rw [if_pos hback, if_pos hback]
    by_cases hempty : s.line.len = 0
    · rw [if_pos hempty, e.pop_eq_self (List.length_eq_zero_iff.mp (hlen.trans hempty))]
      exact h
    · rw [if_neg hempty]
      exact h.backspace m hfar hstart hempty
  rw [if_neg hback, if_neg hback, if_neg hline]
  by_cases hcontrol : r < 32 ∨ r > 126
  · rw [if_pos hcontrol, if_neg]
    · exact h
    · rintro ⟨hlow, hhigh, -⟩
      exact hcontrol.elim (Int32.not_lt.mpr hlow) (Int32.not_lt.mpr hhigh)
  rw [if_neg hcontrol]
  obtain ⟨hlow, hhigh⟩ := not_or.mp hcontrol
  rw [Int32.not_lt] at hlow hhigh
  by_cases hfull : s.line.len < maxLine
  · rw [dif_pos hfull, if_pos ⟨hlow, hhigh, hlen.trans_lt hfull⟩]
    exact h.print m (le_toByte hlow hhigh) hfull
  · rw [dif_neg hfull, if_neg fun hchar => hfull (hlen ▸ hchar.2.2)]
    exact h

/-- So does any sequence of keys. -/
theorem Follows.feed (h : Follows t₀ s .empty) (hstart : t₀.pos < 2000) (runes : List Int32)
    (hrunes : ∀ r ∈ runes, r ≠ 10 ∧ r ≠ 13) :
    Follows t₀ (s.feed (vga m) runes) (typed runes) := by
  induction runes using List.reverseRecOn with
  | nil => exact h
  | append_singleton runes r ih =>
    have hr := hrunes r (by simp)
    have hinit := ih fun r hr => hrunes r (List.mem_append_left _ hr)
    rw [typed_concat, Session.feed, List.foldl_append]
    exact hinit.feedRune m (far_typed_le runes) hstart hr.1 hr.2

/-! ## The prompt -/

/-- The prompt stands before the cursor. -/
structure AfterPrompt (t : Screen) : Prop where
  two_le : 2 ≤ t.pos
  mark : t.cellAt (t.pos - 2) = ⟨0x3E, t.color⟩
  space : t.cellAt (t.pos - 1) = ⟨0x20, t.color⟩

/-- Where the prompt leaves the cursor. -/
theorem afterPrompt_print {t : Screen} (h : t.InBounds) : AfterPrompt (t.print (ascii "> ")) := by
  have hmark := ofByte_ne (b := 0x3E) (by decide)
  have hspace := ofByte_ne (b := 0x20) (by decide)
  have hprint : t.print (ascii "> ") = (t.putRune (ofByte 0x3E)).putRune (ofByte 0x20) := rfl
  rw [hprint]
  have hkept := h.kept_putRune (ofByte 0x3E)
  generalize hfirst : t.putRune (ofByte 0x3E) = t₁ at hkept
  have hkept' := hkept.inBounds.kept_putRune (ofByte 0x20)
  have hone : 1 ≤ t₁.pos := by
    rw [← hfirst]
    obtain ⟨-, hpos, -⟩ | ⟨-, hpos, -⟩ := h.putRune_char hmark.1 hmark.2 <;> omega
  have htwo : 2 ≤ (t₁.putRune (ofByte 0x20)).pos := by
    obtain ⟨-, hpos, -⟩ | ⟨-, hpos, -⟩ := hkept.inBounds.putRune_char hspace.1 hspace.2 <;> omega
  have hbefore := h.putRune_before hmark.1 hmark.2 (k := 0)
  rw [hfirst] at hbefore
  refine ⟨htwo, ?_, ?_⟩
  · have hcell := hkept.inBounds.putRune_before hspace.1 hspace.2 (k := 1) (by omega)
    rw [hkept'.color, hkept.color]
    exact hcell.trans (hbefore (by omega))
  · have hcell := hkept.inBounds.putRune_before hspace.1 hspace.2 (k := 0) (by omega)
    rw [hkept'.color]
    exact hcell

/-- After the prompt the line is empty and the screen in step with it. -/
theorem follows_prompt (hs : s.screen.InBounds) :
    Follows (s.prompt (vga m)).screen (s.prompt (vga m)) .empty := by
  have hscreen : (s.prompt (vga m)).screen = s.screen.print (ascii "> ") := screen_print m _ _
  refine ⟨s.line.text_clear, .empty ?_, ?_⟩
  · rw [hscreen]
    exact (hs.kept_print _).inBounds
  · rw [hscreen]
    exact (hs.kept_putRune (ofByte 0x3E)).inBounds.cursorShown_putRune (ofByte 0x20)

end Session

/-- **What the user sees is what will be executed.** From any screen on which the prompt is printed,
and for all runes that end no line, the line buffer holds the text that was typed, of at most 128
characters. Read in row-major order, with the rows that have moved off the screen, the cells behind
the prompt show it, then blanks up to the furthest cell written, and the cursor follows the text. -/
theorem screen_shows_line {ρ : Type} (m : Machine (Screen × ρ)) (s : Session (Screen × ρ))
    (hs : s.screen.InBounds) (runes : List Int32) (hrunes : ∀ r ∈ runes, r ≠ 10 ∧ r ≠ 13) :
    let t₀ := (s.prompt (vga m)).screen
    let s' := (s.prompt (vga m)).feed (vga m) runes
    let text := (typed runes).text
    let far := (typed runes).far
    let off := 80 * (typed runes).scrolled t₀
    Session.AfterPrompt t₀ ∧ off ≤ t₀.pos ∧ t₀.pos + far < off + 2000 ∧
    s'.line.len ≤ 128 ∧ s'.line.text = text ∧
    (∀ a < t₀.pos, off ≤ a → s'.screen.cellAt (a - off) = t₀.cellAt a) ∧
    (∀ i < far, s'.screen.cellAt (t₀.pos + i - off) = ⟨text.getD i 0x20, t₀.color⟩) ∧
    s'.screen.pos + off = t₀.pos + text.length ∧
    s'.screen.crtc.position + off = t₀.pos + text.length := by
  intro t₀ s' text far off
  have hstart := Session.follows_prompt m hs
  have hlt := hstart.shows.inBounds.pos_lt
  obtain ⟨htext, hshows, hcursor⟩ := hstart.feed m hlt runes hrunes
  have hfar : far ≤ 128 := far_typed_le runes
  have hoff : off = 80 * ((t₀.pos + far) / 80 - 24) := rfl
  have hprompt : Session.AfterPrompt t₀ := by
    have hscreen : t₀ = s.screen.print (ascii "> ") := Session.screen_print m _ _
    rw [hscreen]
    exact Session.afterPrompt_print hs
  have hshown : off ≤ t₀.pos := by omega
  refine ⟨hprompt, hshown, by omega, s'.line.len_le, htext, ?_, ?_, hshows.pos, ?_⟩
  · exact fun a ha hoff => hshows.cellAt_before ha hlt hoff
  · exact fun i hi => hshows.cellAt_typed hi hshown
  · rw [hcursor.position_eq]
    exact hshows.pos

/-- A machine with a screen and no files. -/
def screenMachine : Machine (Screen × Unit) where
  putRune _ s := s
  getTicks := none
  mmapEntries _ := []
  fsEntries _ := []
  fsLookup _ _ _ := none
  fsWrite _ _ _ s := (false, s)
  fsRemove _ _ s := (false, s)
  readByte _ _ := 0
  port := ⟨fun s => (false, s), fun _ s => (false, s), fun s => (none, s)⟩
  command _ _ _ _ s := s
  suggest _ _ _ s := s

/-- A shell whose cursor is four cells before the end of the screen. -/
def lastCellsSession : Session (Screen × Unit) where
  line := ⟨Vector.replicate _ 0, 0, Nat.zero_le _⟩
  shell :=
    { tmpName := default
      transportRequest := default
      transportResponse := default
      serial := ⟨Vector.replicate _ 0, .zero⟩
      agentContext := default
      env := ⟨.deterministic, false, State.emptyHistory,
        (⟨76, 24, 7, fun _ _ => ⟨0x20, 7⟩, ⟨0, 0, 0⟩, []⟩, ())⟩
      calls := [] }

/-- Of three characters, the second ends the screen, and the last two are erased again. -/
theorem erased_across_rows :
    let s' := (lastCellsSession.prompt (vga screenMachine)).feed (vga screenMachine)
      [0x61, 0x62, 0x63, 8, 8]
    s'.line.text = ascii "a" ∧ s'.screen.cellAt 1918 = ⟨0x61, 7⟩ ∧
      s'.screen.cellAt 1919 = ⟨0x20, 7⟩ ∧ s'.screen.cellAt 1920 = ⟨0x20, 7⟩ ∧
      s'.screen.pos = 1919 := by
  intro s'
  have hstart : (lastCellsSession.prompt (vga screenMachine)).screen.pos = 1998 := by
    decide +kernel
  have hrunes : ∀ r ∈ ([0x61, 0x62, 0x63, 8, 8] : List Int32), r ≠ 10 ∧ r ≠ 13 := by
    iterate 5 refine List.forall_mem_cons.mpr ⟨by decide, ?_⟩
    exact fun r hr => absurd hr List.not_mem_nil
  obtain ⟨-, -, -, -, htext, -, hcells, hpos, -⟩ := screen_shows_line screenMachine
    lastCellsSession ⟨by decide, by decide, by decide, by decide⟩ [0x61, 0x62, 0x63, 8, 8] hrunes
  have hscrolled : (typed [0x61, 0x62, 0x63, 8, 8]).scrolled
      (lastCellsSession.prompt (vga screenMachine)).screen = 1 := by
    rw [Typed.scrolled, hstart]
    decide
  rw [hstart, hscrolled] at hcells hpos
  refine ⟨htext.trans (by decide), (hcells 0 (by decide)).trans (by decide +kernel),
    (hcells 1 (by decide)).trans (by decide +kernel),
    (hcells 2 (by decide)).trans (by decide +kernel), ?_⟩
  exact Nat.add_right_cancel (hpos.trans (by decide))

end DavOS.Shell
