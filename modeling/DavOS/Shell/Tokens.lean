import DavOS.Shell.Execute
import DavOS.Shell.Numbers

/-!
# Tokens by position

Reference: the scanning functions of `shell/shell.go`, and the loops that copy from `lineBuf`.

`Shell/Line.lean` says what the scans find in terms of texts. Here it is said in terms of positions:
`execute` visits the maximal runs of bytes that are no spaces, one after the other
(`tokens_are_runs`), and no loop that is given such positions reads `lineBuf` or writes its own
buffer out of range.
-/

namespace DavOS.Shell

open Agent (ascii Name)

namespace Line

variable (line : Line)

/-- `start` of `execute` -/
def start : ℕ := line.trimLeft 0 line.len

/-- `end` of `execute` -/
def stop : ℕ := line.trimRight line.start line.len

/-- `cmdEnd` of `execute` -/
def cmdEnd : ℕ := (line.firstToken line.start line.stop).2

/-- What `nextArg` returns when it is called from `pos` on, and then from the end of each token,
until it fails. -/
inductive ArgsFrom (stop : ℕ) : ℕ → List (ℕ × ℕ) → Prop
  | done {pos : ℕ} : line.nextArg pos stop = none → ArgsFrom stop pos []
  | next {pos s e : ℕ} {rest : List (ℕ × ℕ)} :
      line.nextArg pos stop = some (s, e) → ArgsFrom stop e rest →
      ArgsFrom stop pos ((s, e) :: rest)

/-- A maximal run of bytes between `first` and `last` that are no spaces. -/
structure IsRun (first last s e : ℕ) : Prop where
  le : first ≤ s
  lt : s < e
  le' : e ≤ last
  run : ∀ i, s ≤ i → i < e → isSpace line.buf[i]! = false
  before : s = first ∨ isSpace line.buf[s - 1]! = true
  after : e = last ∨ isSpace line.buf[e]! = true

/-- The first word of a line, by its position. -/
theorem command_spec {line : Line} {word : List UInt8} {args : List (List UInt8)}
    (h : line.tokens = word :: args) :
    line.start < line.cmdEnd ∧ line.cmdEnd ≤ line.stop ∧ line.stop ≤ maxLine ∧
      line.slice line.start line.cmdEnd = word ∧
      Words.words isSpace (line.slice line.cmdEnd line.stop) = args := by
  have htrim : line.start ≤ line.stop ∧ line.stop ≤ maxLine ∧
      line.slice line.start line.stop = line.trimmed ∧
      (line.start < line.stop → isSpace line.buf[line.start]! = false) := line.trim_spec rfl rfl
  obtain ⟨hle, hstop, htrimmed, hspace⟩ := htrim
  rw [← words_trimmed, ← htrimmed] at h
  have hlt : line.start < line.stop := by
    apply lt_of_le_of_ne hle
    intro heq
    rw [line.slice_eq_nil heq.ge, Words.words_nil] at h
    cases h
  obtain ⟨hlt', hle', hwords⟩ := line.firstToken_spec hlt hstop (hspace hlt)
  rw [hwords, List.cons.injEq] at h
  exact ⟨hlt', hle', hstop, h.1, h.2⟩

/-! ## Where the scans stop -/

variable {start stop : ℕ}

/-- A scan passes the positions that satisfy the predicate, and stops at one that does not. -/
theorem scan_positions (p : UInt8 → Bool) (n : ℕ) {i : ℕ} (h : i + n ≤ maxLine) :
    i ≤ line.scan p n i ∧ line.scan p n i ≤ i + n ∧
      (∀ j, i ≤ j → j < line.scan p n i → p line.buf[j]! = true) ∧
      (line.scan p n i < i + n → p line.buf[line.scan p n i]! = false) := by
  induction n generalizing i with
  | zero => exact ⟨le_rfl, le_rfl, by intro j hj hlt; exact absurd hlt (not_lt.mpr hj),
      fun h => absurd h (lt_irrefl i)⟩
  | succ n ih =>
    rw [scan]
    by_cases hp : p line.buf[i]! = true
    · rw [if_pos ⟨by omega, hp⟩]
      obtain ⟨hle, hle', hall, hend⟩ := ih (i := i + 1) (by omega)
      refine ⟨by omega, by omega, ?_, fun hlt => hend (by omega)⟩
      intro j hj hlt
      rcases Nat.eq_or_lt_of_le hj with rfl | hgt
      · exact hp
      · exact hall j hgt hlt
    · rw [if_neg fun h => hp h.2]
      refine ⟨le_rfl, by omega, ?_, fun _ => by simpa using hp⟩
      intro j hj hlt
      exact absurd hlt (not_lt.mpr hj)

/-- The positions that `trimLeft` passes hold blanks. -/
theorem trimLeft_positions (h : start ≤ stop) (hstop : stop ≤ maxLine) :
    start ≤ line.trimLeft start stop ∧ line.trimLeft start stop ≤ stop ∧
      (∀ j, start ≤ j → j < line.trimLeft start stop → isSpace line.buf[j]! = true) ∧
      (line.trimLeft start stop < stop → isSpace line.buf[line.trimLeft start stop]! = false) := by
  have hscan := line.scan_positions isSpace (stop - start) (i := start) (by omega)
  rwa [Nat.add_sub_cancel' h] at hscan

/-- So do those that `trimRight` passes. -/
theorem trimRight_positions (h : start ≤ stop) (hstop : stop ≤ maxLine) :
    start ≤ line.trimRight start stop ∧ line.trimRight start stop ≤ stop ∧
      ∀ j, line.trimRight start stop ≤ j → j < stop → isSpace line.buf[j]! = true := by
  obtain ⟨hle, hle', -⟩ := line.trimRight_spec h hstop
  refine ⟨hle, hle', ?_⟩
  clear hle hle'
  induction stop with
  | zero => exact fun j _ hj => absurd hj (Nat.not_lt_zero j)
  | succ i ih =>
    rw [trimRight]
    by_cases hend : i + 1 > start ∧ i < maxLine ∧ isSpace line.buf[i]!
    · rw [if_pos hend]
      intro j hj hlt
      rcases Nat.lt_succ_iff_lt_or_eq.mp hlt with hlt | rfl
      · exact ih (by omega) (by omega) j hj hlt
      · exact hend.2.2
    · rw [if_neg hend]
      exact fun j hj hlt => absurd hlt (not_lt.mpr hj)

/-- The next argument is the first run from a position on, behind spaces only. -/
theorem nextArg_positions (h : start ≤ stop) (hstop : stop ≤ maxLine) :
    (line.nextArg start stop = none ∧
      ∀ j, start ≤ j → j < stop → isSpace line.buf[j]! = true) ∨
    ∃ s e, line.nextArg start stop = some (s, e) ∧ line.IsRun start stop s e ∧
      ∀ j, start ≤ j → j < s → isSpace line.buf[j]! = true := by
  obtain ⟨hle, hle', hbefore, hfirst⟩ := line.trimLeft_positions h hstop
  rw [nextArg]
  set i := line.trimLeft start stop
  dsimp only
  by_cases hend : i ≥ stop
  · rw [if_pos hend]
    exact .inl ⟨rfl, fun j hj hlt => hbefore j hj (by omega)⟩
  · rw [if_neg hend]
    obtain ⟨hge, hlast, hrun, hafter⟩ :=
      line.scan_positions (fun b => !isSpace b) (stop - i) (i := i) (by omega)
    rw [Nat.add_sub_cancel' hle'] at hlast hafter
    have hspace := hfirst (not_le.mp hend)
    obtain ⟨hlt, -⟩ := line.firstToken_spec (not_le.mp hend) hstop hspace
    rw [firstToken] at hlt ⊢
    set e := line.scan (fun b => !isSpace b) (stop - i) i
    refine .inr ⟨i, e, if_neg (not_le.mpr hlt), ⟨hle, hlt, hlast, ?_, ?_, ?_⟩, hbefore⟩
    · exact fun j hj hj' => by simpa using hrun j hj hj'
    · rcases Nat.eq_or_lt_of_le hle with heq | hgt
      · exact .inl heq.symm
      · exact .inr (hbefore (i - 1) (by omega) (by omega))
    · rcases Nat.eq_or_lt_of_le hlast with heq | hgt
      · exact .inl heq
      · exact .inr (by simpa using hafter hgt)

/-! ## The tokens are the maximal runs -/

variable {line}

/-- The runs from a position on: the first one, and the runs behind it. -/
theorem isRun_iff_of_first {s e s' e' : ℕ} (hrun : line.IsRun start stop s e)
    (hbefore : ∀ j, start ≤ j → j < s → isSpace line.buf[j]! = true) :
    line.IsRun start stop s' e' ↔ (s' = s ∧ e' = e) ∨ line.IsRun e stop s' e' := by
  have hspace {i : ℕ} (h : isSpace line.buf[i]! = false) : ¬ isSpace line.buf[i]! = true := by
    simp [h]
  have hlt := hrun.lt
  have hle := hrun.le
  constructor
  · intro h
    have hlt' := h.lt
    have hle' := h.le
    have hfirst := h.run s' le_rfl h.lt
    by_cases hpast : e ≤ s'
    · refine .inr ⟨hpast, h.lt, h.le', h.run, .inr ?_, h.after⟩
      rcases h.before with heq | hbefore'
      · omega
      · exact hbefore'
    · left
      -- a run that starts before the end of the first one starts and ends with it
      have hs : s' = s := by
        rcases Nat.lt_trichotomy s' s with hlt'' | heq | hgt
        · exact absurd (hbefore s' h.le hlt'') (hspace hfirst)
        · exact heq
        · rcases h.before with heq | hbefore'
          · omega
          · exact absurd hbefore' (hspace (hrun.run (s' - 1) (by omega) (by omega)))
      refine ⟨hs, ?_⟩
      rcases Nat.lt_trichotomy e' e with hlt'' | heq | hgt
      · rcases h.after with heq | hafter
        · have := hrun.le'
          omega
        · exact absurd hafter (hspace (hrun.run e' (by omega) hlt''))
      · exact heq
      · rcases hrun.after with heq | hafter
        · have := h.le'
          omega
        · exact absurd hafter (hspace (h.run e (by omega) hgt))
  · rintro (⟨rfl, rfl⟩ | h)
    · exact hrun
    · refine ⟨by have := h.le; omega, h.lt, h.le', h.run, .inr ?_, h.after⟩
      rcases h.before with rfl | hbefore'
      · rcases hrun.after with heq | hafter
        · have := h.lt
          have := h.le'
          omega
        · exact absurd hafter (hspace (h.run s' le_rfl h.lt))
      · exact hbefore'

variable (line)

/-- Repeated calls of `nextArg` find the runs from a position on, in order, and then fail. -/
theorem exists_argsFrom (hstop : stop ≤ maxLine) {pos : ℕ} (h : pos ≤ stop) :
    ∃ l, line.ArgsFrom stop pos l ∧ (∀ s e, (s, e) ∈ l ↔ line.IsRun pos stop s e) ∧
      l.Pairwise fun a b => a.2 ≤ b.1 := by
  -- the induction is on what is left of the line
  induction hn : stop - pos using Nat.strong_induction_on generalizing pos with
  | _ n ih =>
    subst hn
    rcases line.nextArg_positions h hstop with ⟨hnone, hall⟩ | ⟨s, e, hsome, hrun, hbefore⟩
    · refine ⟨[], .done hnone, ?_, .nil⟩
      intro s e
      refine iff_of_false List.not_mem_nil ?_
      intro hrun
      have hfirst := hrun.run s le_rfl hrun.lt
      have hlt := hrun.lt
      rw [hall s hrun.le (lt_of_lt_of_le hlt hrun.le')] at hfirst
      cases hfirst
    · have hlt := hrun.lt
      have hle := hrun.le
      have hle' := hrun.le'
      obtain ⟨l, hargs, hmem, hordered⟩ := ih (stop - e) (by omega) hle' rfl
      refine ⟨(s, e) :: l, .next hsome hargs, ?_, .cons ?_ hordered⟩
      · intro s' e'
        rw [List.mem_cons, Prod.mk.injEq, hmem, isRun_iff_of_first hrun hbefore]
      · rintro ⟨s', e'⟩ hin
        exact ((hmem s' e').mp hin).le

/-! ## The whole line -/

/-- What `execute` works on once the line is not blank. -/
theorem start_spec (h : ∃ i < line.len, isSpace line.buf[i]! = false) :
    line.start < line.stop ∧ line.stop ≤ line.len ∧ isSpace line.buf[line.start]! = false ∧
      (∀ j < line.start, isSpace line.buf[j]! = true) ∧
      ∀ j, line.stop ≤ j → j < line.len → isSpace line.buf[j]! = true := by
  obtain ⟨-, hle, hbefore, hfirst⟩ := line.trimLeft_positions (Nat.zero_le _) line.len_le
  obtain ⟨hle', hstop, hafter⟩ := line.trimRight_positions hle line.len_le
  obtain ⟨i, hi, hword⟩ := h
  have hstart : line.start ≤ i := by
    by_contra hlt
    rw [hbefore i (Nat.zero_le _) (not_le.mp hlt)] at hword
    cases hword
  have hend : i < line.stop := by
    by_contra hge
    rw [hafter i (not_lt.mp hge) hi] at hword
    cases hword
  exact ⟨lt_of_le_of_lt hstart hend, hstop, hfirst (lt_of_le_of_lt hstart hi),
    fun j hj => hbefore j (Nat.zero_le _) hj, hafter⟩

/-- Trimming cuts no run. -/
theorem isRun_iff_trimmed (h : ∃ i < line.len, isSpace line.buf[i]! = false) {s e : ℕ} :
    line.IsRun 0 line.len s e ↔ line.IsRun line.start line.stop s e := by
  obtain ⟨hlt, hstop, hfirst, hbefore, hafter⟩ := line.start_spec h
  have hspace {i : ℕ} (h : isSpace line.buf[i]! = false) : ¬ isSpace line.buf[i]! = true := by
    simp [h]
  constructor
  · intro hrun
    have hse := hrun.lt
    have hlast := hrun.le'
    have hs : line.start ≤ s := by
      by_contra hcut
      exact hspace (hrun.run s le_rfl hse) (hbefore s (not_le.mp hcut))
    have he : e ≤ line.stop := by
      by_contra hcut
      exact hspace (hrun.run (e - 1) (by omega) (by omega)) (hafter (e - 1) (by omega) (by omega))
    refine ⟨hs, hse, he, hrun.run, ?_, ?_⟩
    · exact hrun.before.imp_left fun hzero => by omega
    · exact hrun.after.imp_left fun hlen => by omega
  · intro hrun
    refine ⟨Nat.zero_le _, hrun.lt, hrun.le'.trans hstop, hrun.run, ?_, ?_⟩
    · rcases hrun.before with heq | hspace'
      · rcases Nat.eq_zero_or_pos s with hzero | hpos
        · exact .inl hzero
        · exact .inr (hbefore (s - 1) (by omega))
      · exact .inr hspace'
    · rcases hrun.after with heq | hspace'
      · rcases Nat.eq_or_lt_of_le (heq.trans_le hstop) with hlen | hlt'
        · exact .inl hlen
        · exact .inr (hafter e heq.ge hlt')
      · exact .inr hspace'

/-- The first token is what `nextArg` would return from the start of the line. -/
theorem nextArg_start (h : ∃ i < line.len, isSpace line.buf[i]! = false) :
    line.nextArg line.start line.stop = some (line.start, line.cmdEnd) := by
  obtain ⟨hlt, hstop, hfirst, -⟩ := line.start_spec h
  have htrim : line.trimLeft line.start line.stop = line.start := by
    rw [trimLeft, ← Nat.succ_pred_eq_of_pos (Nat.sub_pos_of_lt hlt), Nat.succ_eq_add_one, scan,
      if_neg fun hspace => by simp [hfirst] at hspace]
  obtain ⟨hcmd, -⟩ := line.firstToken_spec hlt (hstop.trans line.len_le) hfirst
  rw [nextArg, htrim]
  dsimp only
  rw [if_neg (not_le.mpr hlt)]
  exact if_neg (not_le.mpr hcmd)

/-! ## The loops that are given positions

The functions below are those of the source with every index checked: `none` is a panic. -/

/-- The loop of `matchLiteral`, from position `pos` on. -/
def matchFrom (pos : ℕ) : List UInt8 → Option Bool
  | [] => some true
  | b :: rest =>
    if pos ≥ maxLine then some false
    else do
      let c ← line.buf[pos]?
      if c ≠ b then some false else matchFrom (pos + 1) rest

def matchLiteralChecked (start stop : ℕ) (lit : String) : Option Bool :=
  if (stop : ℤ) - start ≠ (ascii lit).length then some false
  else line.matchFrom start (ascii lit)

/-- A loop that copies `n` bytes of the line, from `start` on, to the beginning of a buffer. -/
def copyInto {size : ℕ} (start : ℕ) : ℕ → Vector UInt8 size → Option (Vector UInt8 size)
  | 0, buffer => some buffer
  | n + 1, buffer => do
    let buffer ← copyInto start n buffer
    let c ← line.buf[start + n]?
    if n < size then some (buffer.set! n c) else none

def copyNameChecked (start stop : ℕ) : Option (Option Name) :=
  let n := (stop : ℤ) - start
  if n ≤ 0 ∨ n > Agent.maxNameLen then some none
  else (line.copyInto start n.toNat (Vector.replicate Agent.maxNameLen 0)).map some

/-- `copyDataFromRange`: its result, and what it leaves in `tmpData`. -/
def copyDataFromRange (start stop : ℕ) (tmpData : Vector UInt8 4096) :
    Option (ℕ × Vector UInt8 4096) :=
  let n := min (stop - start) 4096
  (line.copyInto start n tmpData).map fun tmpData => (n, tmpData)

/-- The copy of the line in `runAgentNoTarget` and `runAgentAction`. -/
def requestInputChecked (inputStart inputEnd : ℕ) : Option (Vector UInt8 Agent.maxContextInput) :=
  line.copyInto inputStart (inputEnd - inputStart) (Vector.replicate Agent.maxContextInput 0)

/-- The comparison with a literal stays in the buffer. -/
theorem matchFrom_eq (lit : List UInt8) (pos : ℕ) : line.matchFrom pos lit =
    some ((List.range lit.length).all fun i =>
      pos + i < maxLine && line.buf[pos + i]! = lit.getD i 0) := by
  induction lit generalizing pos with
  | nil => rfl
  | cons b lit ih =>
    rw [matchFrom, List.length_cons, List.range_succ_eq_map, List.all_cons, List.all_map]
    by_cases hpos : pos ≥ maxLine
    · simp [hpos]
    · rw [if_neg hpos, line.getElem?_buf (not_le.mp hpos), ih]
      have hrest : ((fun i => decide (pos + i < maxLine) &&
            decide (line.buf[pos + i]! = (b :: lit).getD i 0)) ∘ Nat.succ) =
          fun i => decide (pos + 1 + i < maxLine) &&
            decide (line.buf[pos + 1 + i]! = lit.getD i 0) := by
        funext i
        rw [Function.comp_apply, List.getD_cons_succ, Nat.succ_eq_add_one, Nat.add_right_comm]
        rfl
      have hin : decide (pos + 0 < maxLine) = true := decide_eq_true (not_le.mp hpos)
      rw [hrest, List.getD_cons_zero, hin, Bool.true_and]
      change _ = some (decide (line.buf[pos]! = b) && _)
      by_cases hb : line.buf[pos]! = b
      · rw [decide_eq_true hb, Bool.true_and]
        exact if_neg (not_not.mpr hb)
      · rw [decide_eq_false hb, Bool.false_and]
        exact if_pos hb

/-- With its bounds checked, `matchLiteral` gives the same answer. -/
theorem matchLiteralChecked_eq (start stop : ℕ) (lit : String) :
    line.matchLiteralChecked start stop lit = some (line.matchLiteral start stop lit) := by
  rw [matchLiteralChecked, matchLiteral, matchFrom_eq]
  split <;> rfl

/-- A copy to a buffer that is large enough stays in the line and in the buffer. -/
theorem copyInto_eq {size start n : ℕ} (hn : n ≤ size) (hline : start + n ≤ maxLine)
    (buffer : Vector UInt8 size) : line.copyInto start n buffer =
      some ((List.range n).foldl (fun b i => b.set! i line.buf[start + i]!) buffer) := by
  induction n with
  | zero => rfl
  | succ n ih =>
    rw [copyInto, ih (by omega) (by omega), line.getElem?_buf (by omega), List.range_succ,
      List.foldl_append, List.foldl_cons, List.foldl_nil]
    exact if_pos (by omega)

/-- No loop that is given the range reads the line or writes its buffer out of range. -/
structure Safe (a b : ℕ) : Prop where
  matchLiteral : ∀ lit, line.matchLiteralChecked a b lit = some (line.matchLiteral a b lit)
  copyName : line.copyNameChecked a b = some (line.copyNameFromRange a b)
  copyData : ∀ tmpData, (line.copyDataFromRange a b tmpData).isSome
  parseDec : (line.parseDec a b).isSome
  parseHex64 : (line.parseHex64 a b).isSome
  requestInput : line.requestInputChecked a b = some (State.requestInput line a b)

/-- The ranges that `execute` hands on: the line, a token, and what follows a token. -/
inductive Passed (tokens : List (ℕ × ℕ)) : ℕ → ℕ → Prop
  | line : Passed tokens line.start line.stop
  | token {s e : ℕ} : (s, e) ∈ tokens → Passed tokens s e
  | rest {s e : ℕ} : (s, e) ∈ tokens → Passed tokens (line.trimLeft e line.stop) line.stop

/-- All functions of the tokenizer are safe on a range of the line. -/
theorem safe_of_le {a b : ℕ} (h : a ≤ b) (hb : b ≤ maxLine) : line.Safe a b where
  matchLiteral := line.matchLiteralChecked_eq a b
  copyName := by
    rw [copyNameChecked, copyNameFromRange]
    split
    · rfl
    · rw [line.copyInto_eq (by omega) (by omega)]
      rfl
  copyData := by
    intro tmpData
    rw [copyDataFromRange, line.copyInto_eq (min_le_right _ _) (by omega)]
    rfl
  parseDec := by
    rcases line.parseDec_cases a hb with ⟨n, -, heq⟩ | ⟨-, heq⟩ <;> rw [heq] <;> rfl
  parseHex64 := by
    rcases line.parseHex64_cases a hb with ⟨n, -, heq⟩ | ⟨-, heq⟩ <;> rw [heq] <;> rfl
  requestInput := by
    have hsize : b - a ≤ Agent.maxContextInput := (Nat.sub_le b a).trans hb
    exact line.copyInto_eq hsize (by omega) _

/-- **The tokens of a line.** The first token and the arguments that `nextArg` finds from there on
are the maximal runs of the line, in order and each once, and then `nextArg` fails. All positions
are in range, and so is every access of the loops that they are passed to. -/
theorem tokens_are_runs (h : ∃ i < line.len, isSpace line.buf[i]! = false) :
    ∃ args, line.ArgsFrom line.stop line.cmdEnd args ∧
      (∀ s e, (s, e) ∈ (line.start, line.cmdEnd) :: args ↔ line.IsRun 0 line.len s e) ∧
      ((line.start, line.cmdEnd) :: args).Pairwise (fun a b => a.2 ≤ b.1) ∧
      (∀ s e, (s, e) ∈ (line.start, line.cmdEnd) :: args →
        line.start ≤ s ∧ s < e ∧ e ≤ line.stop) ∧
      line.stop ≤ maxLine ∧
      ∀ a b, line.Passed ((line.start, line.cmdEnd) :: args) a b → line.Safe a b := by
  obtain ⟨hlt, hlen, -⟩ := line.start_spec h
  have hstop : line.stop ≤ maxLine := hlen.trans line.len_le
  obtain ⟨tokens, htokens, hmem, hordered⟩ := line.exists_argsFrom hstop hlt.le
  have hfirst := line.nextArg_start h
  cases htokens with
  | done hnone => rw [hfirst] at hnone; cases hnone
  | @next _ s e args hsome hargs =>
    obtain ⟨rfl, rfl⟩ : line.start = s ∧ line.cmdEnd = e := by
      simpa using hfirst.symm.trans hsome
    have hbounds : ∀ s e, (s, e) ∈ (line.start, line.cmdEnd) :: args →
        line.start ≤ s ∧ s < e ∧ e ≤ line.stop := by
      intro s e hin
      have hrun := (hmem s e).mp hin
      exact ⟨hrun.le, hrun.lt, hrun.le'⟩
    refine ⟨args, hargs, ?_, hordered, hbounds, hstop, ?_⟩
    · intro s e
      rw [hmem, line.isRun_iff_trimmed h]
    · intro a b hpassed
      cases hpassed with
      | line => exact line.safe_of_le hlt.le hstop
      | token hin =>
        obtain ⟨-, hse, he⟩ := hbounds _ _ hin
        exact line.safe_of_le hse.le (he.trans hstop)
      | rest hin =>
        obtain ⟨-, -, he⟩ := hbounds _ _ hin
        obtain ⟨-, hle, -⟩ := line.trimLeft_positions he hstop
        exact line.safe_of_le hle hstop

/-- The line `aa a  a `, with three tokens and a space at its end. -/
def spacedLine : Line where
  buf := Vector.ofFn fun i => if i.val ∈ [0, 1, 3, 6] then 0x61 else 0x20
  len := 8
  len_le := by decide

/-- The example has blanks everywhere but at four positions. -/
theorem isSpace_spacedLine {i : ℕ} (hi : i < 8) :
    isSpace spacedLine.buf[i]! = decide (i ∉ [0, 1, 3, 6]) := by
  have hlt : i < maxLine := Nat.lt_of_lt_of_le hi (by decide)
  rw [getElem!_pos spacedLine.buf i hlt, spacedLine, Vector.getElem_ofFn]
  interval_cases i <;> rfl

/-- The example has three words. -/
theorem isRun_spacedLine {s e : ℕ} (h : (s, e) ∈ [(0, 2), (3, 4), (6, 7)]) :
    spacedLine.IsRun 0 spacedLine.len s e := by
  have hspace := fun {i : ℕ} (hi : i < 8) => isSpace_spacedLine hi
  simp only [List.mem_cons, List.not_mem_nil, or_false, Prod.mk.injEq] at h
  rcases h with ⟨rfl, rfl⟩ | ⟨rfl, rfl⟩ | ⟨rfl, rfl⟩
  · refine ⟨by decide, by decide, by decide, fun i hle hlt => ?_, .inl rfl, .inr ?_⟩
    · rw [hspace (by omega)]
      interval_cases i <;> rfl
    · exact hspace (by decide)
  · refine ⟨by decide, by decide, by decide, fun i hle hlt => ?_, .inr ?_, .inr ?_⟩
    · rw [hspace (by omega)]
      interval_cases i
      rfl
    · exact hspace (by decide)
    · exact hspace (by decide)
  · refine ⟨by decide, by decide, by decide, fun i hle hlt => ?_, .inr ?_, .inr ?_⟩
    · rw [hspace (by omega)]
      interval_cases i
      rfl
    · exact hspace (by decide)
    · exact hspace (by decide)

/-- Its three tokens are found, and their ends are those of the words. -/
theorem spacedLine_tokens : ∃ args, spacedLine.ArgsFrom spacedLine.stop spacedLine.cmdEnd args ∧
    ∀ token ∈ [(0, 2), (3, 4), (6, 7)], token ∈ (spacedLine.start, spacedLine.cmdEnd) :: args := by
  obtain ⟨args, hargs, hruns, -⟩ := tokens_are_runs spacedLine
    ⟨0, by decide, isSpace_spacedLine (by decide)⟩
  exact ⟨args, hargs, fun token htoken => (hruns token.1 token.2).mpr (isRun_spacedLine htoken)⟩

end Line

end DavOS.Shell
