import DavOS.Agent.Execution
import DavOS.Lib.Ring
import DavOS.Shell.Confirmation

/-!
# The command history

Of all the shell does for a line, the history changes in one place: a line that is not blank is
added when no confirmation is pending (`execute_history`). The slots of the history form a ring that
overwrites its oldest entry, with the entries as texts, so that what an overwritten entry has left
in a slot does not matter (`History.entry`). `history_prints_last_commands` puts both together.
-/

namespace DavOS.Shell

open Agent (ascii)

/-! ## The ring -/

namespace History

variable (h : History)

/-- The text in a slot. -/
def entry (i : ℕ) : List UInt8 := (List.range h.len[i]!).map fun k => (h.buf[i]!)[k]!

/-- The history holds the last 32 of the texts. -/
def Holds (texts : List (List UInt8)) : Prop :=
  Ring.HoldsLast h.entry maxHistory h.head h.count texts

/-- An entry is compared with a line by its length and byte by byte. -/
theorem entry_eq_slice_iff {line : Line} {start stop : ℕ} (hstop : stop ≤ maxLine) (i : ℕ) :
    h.entry i = line.slice start stop ↔
      h.len[i]! = stop - start ∧
        ∀ k < stop - start, (h.buf[i]!)[k]! = line.buf[start + k]! := by
  rw [line.slice_eq_map hstop, entry]
  constructor
  · intro heq
    have hlen : h.len[i]! = stop - start := by simpa using congrArg List.length heq
    rw [hlen] at heq
    refine ⟨hlen, ?_⟩
    intro k hk
    exact List.map_inj_left.mp heq k (List.mem_range.mpr hk)
  · rintro ⟨hlen, hbytes⟩
    rw [hlen]
    apply List.map_congr_left
    intro k hk
    exact hbytes k (List.mem_range.mp hk)

/-- The check for a duplicate looks at the newest entry. -/
theorem isDuplicate_iff {line : Line} {start stop : ℕ} (hstop : stop ≤ maxLine)
    {texts : List (List UInt8)} (hholds : h.Holds texts) :
    h.isDuplicate line start stop = true ↔ texts.getLast? = some (line.slice start stop) := by
  rw [isDuplicate]
  simp only [Bool.and_eq_true, decide_eq_true_eq, List.all_eq_true, List.mem_range, and_assoc]
  rw [← h.entry_eq_slice_iff hstop]
  by_cases hcount : 0 < h.count
  · rw [hholds.getLast? hcount, Option.some_inj]
    exact and_iff_right hcount
  · have hnil : texts = [] := by
      have := hholds.count_eq
      rw [← List.length_eq_zero_iff]
      simp only [maxHistory] at this
      omega
    simp [hcount, hnil]

/-- A text added to the history, unless it is the last one already. -/
def record (texts : List (List UInt8)) (text : List UInt8) : List (List UInt8) :=
  if texts.getLast? = some text then texts else texts ++ [text]

/-- A line that is no duplicate takes the slot at the head, whatever was in it. -/
theorem entry_add {line : Line} {start stop : ℕ} (hstop : stop ≤ maxLine)
    (hnew : ¬ h.isDuplicate line start stop = true) :
    (h.add line start stop).entry = Function.update h.entry h.head (line.slice start stop) := by
  rw [add, if_neg hnew]
  funext i
  simp only [entry]
  have hlen := congrFun (Ring.slots_set! h.len h.head_lt (stop - start)) i
  have hbuf := congrFun (Ring.slots_set! h.buf h.head_lt ((List.range (stop - start)).foldl
    (fun b i => b.set! i line.buf[start + i]!) h.buf[h.head]!)) i
  rw [hlen, hbuf]
  by_cases hi : i = h.head
  · subst hi
    rw [Function.update_self, Function.update_self, Function.update_self,
      CopyLoop.map_range_getElem! _ (by omega), CopyLoop.toList_foldl_set! _ (by omega),
      List.take_left' (by simp), line.slice_eq_map hstop]
  · rw [Function.update_of_ne hi, Function.update_of_ne hi, Function.update_of_ne hi]
    rfl

variable {h} in
/-- `addHistory` records the text of the positions. -/
theorem Holds.add {texts : List (List UInt8)} (hholds : h.Holds texts) {line : Line}
    {start stop : ℕ} (hstop : stop ≤ maxLine) :
    (h.add line start stop).Holds (record texts (line.slice start stop)) := by
  rw [record]
  by_cases hdup : texts.getLast? = some (line.slice start stop)
  · rw [if_pos hdup, History.add, if_pos ((h.isDuplicate_iff hstop hholds).mpr hdup)]
    exact hholds
  have hnew := mt (h.isDuplicate_iff hstop hholds).mp hdup
  have hadd := Ring.HoldsLast.add (x := line.slice start stop) hholds (by decide) h.head_lt
  rw [if_neg hdup, Holds, h.entry_add hstop hnew, History.add, if_neg hnew]
  exact hadd

end History

/-! ## What one line does to the history -/

variable {σ : Type} (m : Machine σ)

/-- No handler of the shell touches the history. -/
theorem newAgentExecutor_keepsHistory : (newAgentExecutor m).Keeps Env.history := by
  intro kind handler hhandler action env
  have hplain : ∀ f : Agent.Action → Env σ → Agent.ActionResult × Env σ,
      (f action env).2.history = env.history →
      ((plainHandler f).onNil action env).2.history = env.history ∧
        ∀ c, ((plainHandler f).onContext action c env).2.2.history = env.history :=
    fun _ hf => ⟨hf, fun _ => hf⟩
  have hmode : (setModeResult action env).2.history = env.history := by
    rw [setModeResult]
    split_ifs <;> rfl
  cases kind
  case unknown | other => simp [Agent.AllowedActionExecutor.handler] at hhandler
  case setMode =>
    obtain rfl := Option.some.inj hhandler
    refine ⟨hmode, ?_⟩
    intro c
    simp only [agentSetMode]
    split_ifs <;> exact hmode
  all_goals
    obtain rfl := Option.some.inj hhandler
    apply hplain
    repeat' split
    all_goals rfl

namespace State

/-- What holds of both branches holds of a choice. -/
theorem of_ite {P : State σ → Prop} {p : Prop} [Decidable p] {a b : State σ} (ha : P a)
    (hb : P b) : P (if p then a else b) := by
  split <;> assumption

/-- What all that an agent command is made of keeps. -/
structure KeptByAgent (P : State σ → Prop) : Prop where
  print : ∀ {sh : State σ} (text : List UInt8), P sh → P (sh.print m text)
  tmpName : ∀ {sh : State σ} (tmpName : Agent.Name), P sh → P { sh with tmpName }
  request : ∀ {sh : State σ} (kind : Agent.ActionKind) (intent : Agent.IntentKind)
    (risk : Agent.RiskLevel) (target : Option Agent.Name) (targetLen : ℕ) (line : Line)
    (inputStart inputEnd : ℕ), P sh →
    P (sh.runActionRequestMessage m kind intent risk target targetLen line inputStart inputEnd).2
  probe : ∀ {sh : State σ}, P sh → P (sh.runAgentTransportProbe m)

namespace KeptByAgent

variable {m} {P : State σ → Prop} (h : KeptByAgent m P) {sh : State σ} (hsh : P sh)

include h hsh

/-- An agent command without a target keeps `P`. -/
theorem runAgentNoTarget (kind : Agent.ActionKind) (intent : Agent.IntentKind)
    (risk : Agent.RiskLevel) (line : Line) (inputStart inputEnd : ℕ) :
    P (sh.runAgentNoTarget m kind intent risk line inputStart inputEnd) := by
  rw [State.runAgentNoTarget]
  have hrequest := h.request kind intent risk none 0 line inputStart inputEnd hsh
  exact h.print _ (h.print _ hrequest)

/-- An agent command with a target keeps `P`. -/
theorem runAgentAction (kind : Agent.ActionKind) (intent : Agent.IntentKind)
    (risk : Agent.RiskLevel) (line : Line) (targetStart targetEnd inputStart inputEnd : ℕ) :
    P (sh.runAgentAction m kind intent risk line targetStart targetEnd inputStart inputEnd) := by
  rw [State.runAgentAction]
  split
  · exact h.print _ hsh
  · rename_i name _
    have hrequest := h.request kind intent risk (some name) (targetEnd - targetStart) line
      inputStart inputEnd (h.tmpName name hsh)
    exact h.print _ (h.print _ (of_ite (h.print _ hrequest) hrequest))

/-- `agent show` keeps `P`. -/
theorem agentShow (line : Line) (start stop a1e : ℕ) :
    P (sh.agentShow m line start stop a1e) := by
  rw [State.agentShow]
  have hrequest := fun kind intent => h.runAgentNoTarget hsh kind intent .safe line start stop
  split
  · exact h.print _ hsh
  split_ifs
  all_goals first
    | exact hrequest _ _
    | exact h.print _ hsh

/-- An agent command that names a file keeps `P`. -/
theorem agentTarget (kind : Agent.ActionKind) (intent : Agent.IntentKind) (risk : Agent.RiskLevel)
    (usage : String) (line : Line) (start stop a1e : ℕ) :
    P (sh.agentTarget m kind intent risk usage line start stop a1e) := by
  rw [State.agentTarget]
  split
  · exact h.print _ hsh
  · exact h.runAgentAction hsh _ _ _ _ _ _ _ _

/-- `agent mode` keeps `P`. -/
theorem agentMode (line : Line) (start stop a1e : ℕ) :
    P (sh.agentMode m line start stop a1e) := by
  rw [State.agentMode]
  split
  · exact h.runAgentNoTarget hsh _ _ _ _ _ _
  · exact h.runAgentAction hsh _ _ _ _ _ _ _ _

/-- `agent transport` keeps `P`. -/
theorem agentTransport (line : Line) (stop a1e : ℕ) : P (sh.agentTransport m line stop a1e) := by
  rw [State.agentTransport]
  split
  · exact h.print _ hsh
  split_ifs
  · exact h.print _ hsh
  · exact h.probe hsh

/-- All agent commands keep `P`. -/
theorem executeAgent (line : Line) (start stop cmdEnd : ℕ) :
    P (sh.executeAgent m line start stop cmdEnd) := by
  rw [State.executeAgent]
  split
  · exact h.print _ hsh
  split_ifs
  · exact h.agentShow hsh _ _ _ _
  · exact h.agentTarget hsh _ _ _ _ _ _ _ _
  · exact h.agentTarget hsh _ _ _ _ _ _ _ _
  · exact h.agentTarget hsh _ _ _ _ _ _ _ _
  · exact h.agentMode hsh _ _ _ _
  · exact h.agentTransport hsh _ _ _
  · exact h.print _ hsh
  · exact h.runAgentNoTarget hsh _ _ _ _ _ _
  · exact h.print _ hsh

end KeptByAgent

/-- The agent commands keep the history. -/
theorem history_keptByAgent (h : History) :
    KeptByAgent m fun sh : State σ => sh.env.history = h where
  print _ hsh := hsh
  tmpName _ hsh := hsh
  request kind intent risk target targetLen line inputStart inputEnd hsh := by
    rw [← hsh]
    simp only [runActionRequestMessage, Agent.Runtime.runActionRequestMessage]
    split_ifs
    · rfl
    · exact Agent.runPlanWithConfirmation_keeps (newAgentExecutor_keepsHistory m) _ _ _
  probe hsh := by
    rw [← hsh, runAgentTransportProbe]
    dsimp only
    split_ifs <;> rfl

/-- Printing keeps the history. -/
theorem print_history (text : List UInt8) (sh : State σ) :
    (sh.print m text).env.history = sh.env.history := rfl

/-- So do the commands other than `agent`. -/
theorem executeCommand_history (line : Line) (stop cmdEnd : ℕ) (command : Command)
    (sh : State σ) :
    (sh.executeCommand m line stop cmdEnd command).env.history = sh.env.history := by
  unfold executeCommand
  split
  case h_4 => split <;> rfl
  case h_7 => rfl
  all_goals exact print_history m _ sh

/-- **What a line does to the history.** -/
theorem execute_history (line : Line) (sh : State σ) :
    ((sh.agentContext.confirmationPending = true ∨ line.trimmed = []) ∧
      (sh.execute m line).env.history = sh.env.history) ∨
    (sh.agentContext.confirmationPending = false ∧ line.trimmed ≠ [] ∧
      ∃ start stop, stop ≤ maxLine ∧ line.slice start stop = line.trimmed ∧
        (sh.execute m line).env.history = sh.env.history.add line start stop) := by
  obtain ⟨start, hstart⟩ : ∃ start, start = line.trimLeft 0 line.len := ⟨_, rfl⟩
  obtain ⟨stop, hstop⟩ : ∃ stop, stop = line.trimRight start line.len := ⟨_, rfl⟩
  obtain ⟨-, hmax, hslice, -⟩ := line.trim_spec hstart hstop
  rw [execute]
  dsimp only
  rw [← hstart, ← hstop]
  by_cases hpending : sh.agentContext.confirmationPending = true
  · rw [if_pos hpending]
    refine .inl ⟨.inl hpending, ?_⟩
    exact Agent.confirmAction_keeps (r := runtimeAgent m sh.env) (newAgentExecutor_keepsHistory m)
      (start < stop && line.matchLiteral start stop "yes") sh.store
  rw [if_neg hpending]
  by_cases hblank : start ≥ stop
  · rw [if_pos hblank]
    refine .inl ⟨.inr ?_, rfl⟩
    rw [← hslice, line.slice_eq_nil hblank]
  rw [if_neg hblank]
  refine .inr ⟨by simpa using hpending, ?_, start, stop, hmax, hslice, ?_⟩
  · rw [← hslice, ← List.length_pos_iff, line.length_slice hmax]
    omega
  · split
    · exact executeCommand_history m line stop _ _ _
    · split_ifs
      · exact (history_keptByAgent m _).executeAgent rfl line start stop _
      · rfl

/-! ## Runs of lines -/

/-- The trimmed texts of the lines that are not blank and executed while nothing is pending. -/
def commands (sh : State σ) : List (Entered σ) → List (List UInt8)
  | [] => []
  | e :: rest =>
    if sh.agentContext.confirmationPending = false ∧ e.line.trimmed ≠ [] then
      e.line.trimmed :: commands (sh.enter m e) rest
    else commands (sh.enter m e) rest

end State

/-- The texts without those that are equal to the one kept before them. -/
def dropRepeats (texts : List (List UInt8)) : List (List UInt8) :=
  texts.foldl History.record []

/-- Texts, one a line, numbered from 1. -/
def numberedText (texts : List (List UInt8)) : List UInt8 :=
  (texts.zipIdx 1).flatMap fun (text, i) => ascii (toString i) ++ ascii " " ++ text ++ ascii "\n"

namespace State

/-- A session records its commands, by induction on its lines. -/
theorem holds_run {sh : State σ} {texts : List (List UInt8)} (h : sh.env.history.Holds texts)
    (lines : List (Entered σ)) :
    (lines.foldl (enter m) sh).env.history.Holds
      ((sh.commands m lines).foldl History.record texts) := by
  induction lines generalizing sh texts with
  | nil => exact h
  | cons e rest ih =>
    rw [List.foldl_cons, commands]
    obtain ⟨hnot, hsame⟩ | ⟨hidle, htext, start, stop, hstop, hslice, hadd⟩ :=
      execute_history m e.line (sh.onto e)
    · rw [if_neg]
      · apply ih
        rw [enter, hsame]
        exact h
      · rintro ⟨hidle, htext⟩
        obtain hpending | hblank := hnot
        · exact absurd hpending (by simp [onto, hidle])
        · exact htext hblank
    · rw [if_pos ⟨hidle, htext⟩, List.foldl_cons]
      apply ih
      rw [enter, hadd, ← hslice]
      exact h.add hstop

end State

/-- The numbers of the entries are printed in decimal. -/
theorem uintText_lt : ∀ i < 32, uintText (UInt64.ofNat (i + 1)) = ascii (toString (i + 1)) := by
  decide +kernel

/-- The history prints what it holds. -/
theorem historyText_eq {h : History} {texts : List (List UInt8)} (hholds : h.Holds texts) :
    historyText h = numberedText (texts.drop (texts.length - maxHistory)) := by
  have hindex : ∀ (f : ℕ → List UInt8) (n : ℕ),
      ((List.range n).map f).zipIdx 1 = (List.range n).map fun i => (f i, i + 1) := by
    intro f n
    apply List.ext_getElem
    · simp
    · intro i hi _
      simp [Nat.add_comm]
  have hle : h.count ≤ 32 := h.count_le
  rw [← hholds.contents_eq, ← Ring.contents_mod, Ring.contents, numberedText, hindex,
    List.flatMap_map, historyText]
  apply List.flatMap_congr
  intro i hi
  rw [uintText_lt i (by have := List.mem_range.mp hi; omega)]
  rfl

/-- **The history is the last 32 commands.** After any lines on an empty history, `printHistory`
prints the last 32 of the commands without repetitions, oldest first and numbered from 1. -/
theorem history_prints_last_commands (sh : State σ) (hempty : sh.env.history.count = 0)
    (lines : List (Entered σ)) :
    let texts := dropRepeats (sh.commands m lines)
    historyText (lines.foldl (State.enter m) sh).env.history =
      numberedText (texts.drop (texts.length - 32)) := by
  have hstart : sh.env.history.Holds [] := by
    rw [History.Holds, hempty]
    exact Ring.HoldsLast.nil
  exact historyText_eq (State.holds_run m hstart lines)

/-- Three lines, the second of which repeats the first one. -/
theorem repeated_command_printed_once :
    let lines := [State.typed " help" (by decide), State.typed "help " (by decide),
      State.typed "ls" (by decide)]
    historyText (lines.foldl (State.enter State.emptyMachine) State.freshState).env.history =
      numberedText [ascii "help", ascii "ls"] := by
  intro lines
  rw [history_prints_last_commands State.emptyMachine State.freshState rfl lines]
  decide +kernel

end DavOS.Shell
