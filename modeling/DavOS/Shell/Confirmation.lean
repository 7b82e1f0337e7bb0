import DavOS.Agent.Confirmation
import DavOS.Shell.Execute

/-!
# The confirmation of deletions in the shell

A deletion that the user asks the agent for is carried out if the next line is `yes`, and only then.
One line does one of three things (`execute_idle`, `execute_waiting`): it requests a deletion, which
then waits; it answers a waiting request, whatever it says; or it does something that neither
deletes a file through the agent nor leaves anything waiting. The run of lines is put together from
these.
-/

namespace DavOS.Shell

open Agent (ascii Name Action ActionKind IntentKind RiskLevel Runtime Store Plan validatePlan)

variable {σ : Type} (m : Machine σ)

/-! ## What one command does -/

/-- No handler of the shell touches the pending plan. -/
theorem newAgentExecutor_keepsPending : (newAgentExecutor m).KeepsPending := by
  intro kind handler hhandler action c env
  have hplain : ∀ f : Action → Env σ → Agent.ActionResult × Env σ,
      ((plainHandler f).onContext action c env).2.1 = c := fun _ => rfl
  cases kind
  case unknown | other => simp [Agent.AllowedActionExecutor.handler] at hhandler
  case setMode =>
    obtain rfl := Option.some.inj hhandler
    simp only [agentSetMode]
    split <;> exact ⟨rfl, rfl⟩
  all_goals
    obtain rfl := Option.some.inj hhandler
    exact ⟨congrArg _ (hplain _), congrArg _ (hplain _)⟩

namespace State

/-- What is pending in the shell. -/
def pending (sh : State σ) : Bool × Plan :=
  (sh.agentContext.confirmationPending, sh.agentContext.pendingPlan)

/-- The store of the agent has the pending plan of the shell. -/
theorem store_pending (sh : State σ) : sh.store.pending = some sh.pending := rfl

/-- And the shell takes it back. -/
theorem withStore_pending {s : Store (Env σ)} {p : Bool × Plan} (hs : s.pending = some p)
    (sh : State σ) : (sh.withStore s).pending = p := by
  rcases s with ⟨_ | c, env, calls⟩
  · simp [Store.pending] at hs
  · exact Option.some.inj hs

/-- Nothing new is pending, and the handler for deletions is not called. -/
structure Harmless (sh sh' : State σ) : Prop where
  pending : sh'.pending = sh.pending
  calls : sh'.calls = sh.calls ∨
    ∃ action, sh'.calls = sh.calls ++ [action] ∧ action.kind ≠ .deleteFile

/-- A deletion of `target` waits for a confirmation. -/
structure AwaitsDeletion (target : List UInt8) (sh : State σ) : Prop where
  pending : sh.agentContext.confirmationPending = true
  valid : (validatePlan sh.agentContext.pendingPlan).ok = true
  counted : ∃ action, sh.agentContext.pendingPlan.counted = [action] ∧
    action.kind = .deleteFile ∧ action.targetLen = target.length ∧
    action.target.toList.take target.length = target

variable {m}

/-- Nothing has happened. -/
theorem Harmless.refl (sh : State σ) : Harmless sh sh := ⟨rfl, .inl rfl⟩

/-- Printing is harmless. -/
theorem Harmless.print {sh sh' : State σ} (h : Harmless sh sh') (text : List UInt8) :
    Harmless sh (sh'.print m text) := ⟨h.pending, h.calls⟩

/-- A branch is harmless if both sides are. -/
theorem harmless_ite {sh a b : State σ} {p : Prop} [Decidable p] (ha : Harmless sh a)
    (hb : Harmless sh b) : Harmless sh (if p then a else b) := by
  split <;> assumption

/-- A valid plan that is pending and only deletes the file awaits the deletion. -/
theorem AwaitsDeletion.of_pending {target : List UInt8} {sh : State σ} {plan : Plan}
    (hpending : sh.pending = (true, plan)) (hvalid : (validatePlan plan).ok = true)
    (hcounted : ∃ action, plan.counted = [action] ∧ action.kind = .deleteFile ∧
      action.targetLen = target.length ∧ action.target.toList.take target.length = target) :
    AwaitsDeletion target sh := by
  obtain ⟨hwaits, rfl⟩ := Prod.ext_iff.mp hpending
  exact ⟨hwaits, hvalid, hcounted⟩

/-- Printing leaves the deletion pending. -/
theorem AwaitsDeletion.print {target : List UInt8} {sh : State σ} (h : AwaitsDeletion target sh)
    (text : List UInt8) : AwaitsDeletion target (sh.print m text) := ⟨h.pending, h.valid, h.counted⟩

variable (m)

/-- The message and the store of a request of the shell are those of its plan. -/
theorem runActionRequestMessage_eq (kind : ActionKind) (intent : IntentKind) (risk : RiskLevel)
    (target : Option Name) {targetLen : ℕ} (hlen : targetLen ≤ Agent.maxNameLen) (line : Line)
    (inputStart inputEnd : ℕ) (sh : State σ) :
    ∃ s : Store (Env σ), s.pending = some sh.pending ∧ s.calls = sh.calls ∧
      sh.runActionRequestMessage m kind intent risk target targetLen line inputStart inputEnd =
        let o := (runtimeAgent m sh.env).runPlan
          (Runtime.requestPlan sh.env.plannerMode kind intent risk target targetLen) s
        (o.1.result.message, sh.withStore o.2) := by
  have hvalid : ¬ ((targetLen : ℤ) < 0 ∨ (targetLen : ℤ) > Agent.maxNameLen) := by omega
  refine ⟨sh.store.onContext fun c => c.beginRequest (some (requestInput line inputStart inputEnd))
    ((inputEnd - inputStart : ℕ) : ℤ) sh.env.plannerMode, rfl, rfl, ?_⟩
  simp only [runActionRequestMessage, Runtime.runActionRequestMessage, if_neg hvalid]
  rfl

/-- A safe request for anything but a deletion is harmless. -/
theorem runActionRequestMessage_harmless {kind : ActionKind} (hkind : kind ≠ .deleteFile)
    (intent : IntentKind) (target : Option Name) {targetLen : ℕ}
    (hlen : targetLen ≤ Agent.maxNameLen) (line : Line) (inputStart inputEnd : ℕ) (sh : State σ) :
    Harmless sh (sh.runActionRequestMessage m kind intent .safe target targetLen line inputStart
      inputEnd).2 := by
  obtain ⟨s, hpending, hcalls, heq⟩ :=
    sh.runActionRequestMessage_eq m kind intent .safe target hlen line inputStart inputEnd
  obtain ⟨action, hcounted, hkind', hrisk, -⟩ :=
    Agent.requestPlan_counted sh.env.plannerMode kind intent .safe target targetLen
  obtain ⟨hpending', hcalls'⟩ := Agent.runPlan_safe (r := runtimeAgent m sh.env)
    (newAgentExecutor_keepsPending m) hcounted (by simp [hrisk]) s
  rw [heq]
  refine ⟨withStore_pending (hpending'.trans hpending) sh, ?_⟩
  rw [← hcalls]
  exact hcalls'.imp_right fun h => ⟨action, h.2, hkind'.trans_ne hkind⟩

/-- A safe agent command without a target is harmless. -/
theorem runAgentNoTarget_harmless {kind : ActionKind} (hkind : kind ≠ .deleteFile)
    (intent : IntentKind) (line : Line) (inputStart inputEnd : ℕ) (sh : State σ) :
    Harmless sh (sh.runAgentNoTarget m kind intent .safe line inputStart inputEnd) := by
  rw [runAgentNoTarget]
  exact ((runActionRequestMessage_harmless m hkind intent none (Nat.zero_le _) line inputStart
    inputEnd sh).print _).print _

/-- A safe agent command with a target is harmless, also if the target is too long. -/
theorem runAgentAction_harmless {kind : ActionKind} (hkind : kind ≠ .deleteFile)
    (intent : IntentKind) (line : Line) {targetStart targetEnd : ℕ} (h : targetStart ≤ targetEnd)
    (hend : targetEnd ≤ maxLine) (inputStart inputEnd : ℕ) (sh : State σ) :
    Harmless sh (sh.runAgentAction m kind intent .safe line targetStart targetEnd inputStart
      inputEnd) := by
  rw [runAgentAction]
  obtain ⟨hnone, -⟩ | ⟨name, hsome, -, hlen, -⟩ := line.copyNameFromRange_cases h hend
  · rw [hnone]
    exact (Harmless.refl sh).print _
  · rw [hsome]
    have hrequest := runActionRequestMessage_harmless m hkind intent (some name) hlen line
      inputStart inputEnd { sh with tmpName := name }
    refine Harmless.print (Harmless.print ?_ _) _
    exact harmless_ite ⟨hrequest.pending, hrequest.calls⟩ ⟨hrequest.pending, hrequest.calls⟩

/-- A request to delete the file named by a range of the line waits for a confirmation. -/
theorem runAgentAction_delete (line : Line) {targetStart targetEnd : ℕ}
    (h : targetStart ≤ targetEnd)
    (hend : targetEnd ≤ maxLine) (inputStart inputEnd : ℕ) (sh : State σ) :
    let target := line.slice targetStart targetEnd
    let sh' := sh.runAgentAction m .deleteFile .deleteFile .risky line targetStart targetEnd
      inputStart inputEnd
    (¬ (1 ≤ target.length ∧ target.length ≤ Agent.maxNameLen) ∧ Harmless sh sh') ∨
      ((1 ≤ target.length ∧ target.length ≤ Agent.maxNameLen) ∧ AwaitsDeletion target sh' ∧
        sh'.calls = sh.calls) := by
  intro target sh'
  have htarget : target.length = targetEnd - targetStart := line.length_slice hend
  rw [htarget]
  obtain ⟨hnone, hlen⟩ | ⟨name, hsome, hpos, hlen, hname⟩ := line.copyNameFromRange_cases h hend
  · refine .inl ⟨hlen, ?_⟩
    simp only [sh', runAgentAction, hnone]
    exact (Harmless.refl sh).print _
  refine .inr ⟨⟨hpos, hlen⟩, ?_⟩
  obtain ⟨s, hpending, hcalls, heq⟩ := { sh with tmpName := name }.runActionRequestMessage_eq m
    .deleteFile .deleteFile .risky (some name) hlen line inputStart inputEnd
  obtain ⟨hvalid, action, hcounted, hkind, hrisk, htargetLen, htake⟩ :=
    Agent.deletePlan_spec sh.env.plannerMode name hpos hlen
  obtain ⟨-, -, hmessage, hcalls', -, hpending'⟩ := Agent.runPlan_risky
    (r := runtimeAgent m sh.env) hcounted hrisk hvalid s
  rw [hpending] at hpending'
  have hwaits := withStore_pending hpending' { sh with tmpName := name }
  simp only [sh', runAgentAction, hsome, heq]
  rw [if_pos ⟨hmessage, trivial⟩]
  refine ⟨((AwaitsDeletion.print ?_ _).print _).print _, hcalls'.trans hcalls⟩
  refine .of_pending hwaits hvalid ⟨action, hcounted, hkind, htargetLen.trans ?_, ?_⟩
  · rw [htarget]
  · rw [htarget, htake, hname]

/-- `agent show` is harmless. -/
theorem agentShow_harmless (line : Line) (start stop a1e : ℕ) (sh : State σ) :
    Harmless sh (sh.agentShow m line start stop a1e) := by
  unfold agentShow
  dsimp only
  split
  · exact (Harmless.refl sh).print _
  apply harmless_ite (runAgentNoTarget_harmless m (by simp) _ line start stop sh)
  apply harmless_ite (runAgentNoTarget_harmless m (by simp) _ line start stop sh)
  apply harmless_ite (runAgentNoTarget_harmless m (by simp) _ line start stop sh)
  apply harmless_ite (runAgentNoTarget_harmless m (by simp) _ line start stop sh)
  apply harmless_ite (runAgentNoTarget_harmless m (by simp) _ line start stop sh)
  exact (Harmless.refl sh).print _

/-- The safe agent commands that name a file are harmless. -/
theorem agentTarget_harmless {kind : ActionKind} (hkind : kind ≠ .deleteFile) (intent : IntentKind)
    (usage : String) (line : Line) (start : ℕ) {stop a1e : ℕ} (h : a1e ≤ stop)
    (hstop : stop ≤ maxLine) (sh : State σ) :
    Harmless sh (sh.agentTarget m kind intent .safe usage line start stop a1e) := by
  unfold agentTarget
  obtain ⟨hnone, -⟩ | ⟨a2s, a2e, hsome, hlt, hle, -⟩ := line.nextArg_cases h hstop
  · rw [hnone]
    exact (Harmless.refl sh).print _
  · rw [hsome]
    exact runAgentAction_harmless m hkind intent line hlt.le (hle.trans hstop) start stop sh

/-- `agent mode` is harmless. -/
theorem agentMode_harmless (line : Line) (start : ℕ) {stop a1e : ℕ} (h : a1e ≤ stop)
    (hstop : stop ≤ maxLine) (sh : State σ) :
    Harmless sh (sh.agentMode m line start stop a1e) := by
  unfold agentMode
  obtain ⟨hnone, -⟩ | ⟨a2s, a2e, hsome, hlt, hle, -⟩ := line.nextArg_cases h hstop
  · rw [hnone]
    exact runAgentNoTarget_harmless m (by simp) _ line start stop sh
  · rw [hsome]
    exact runAgentAction_harmless m (by simp) _ line hlt.le (hle.trans hstop) start stop sh

/-- The probe of the transport is harmless, also if it fails. -/
theorem runAgentTransportProbe_harmless (sh : State σ) :
    Harmless sh (sh.runAgentTransportProbe m) := by
  unfold runAgentTransportProbe
  extract_lets request o response env sh'
  have hsh' : Harmless sh sh' := ⟨rfl, .inl rfl⟩
  exact harmless_ite (hsh'.print _) (harmless_ite (hsh'.print _) (hsh'.print _))

/-- `agent transport` is harmless. -/
theorem agentTransport_harmless (line : Line) (stop a1e : ℕ) (sh : State σ) :
    Harmless sh (sh.agentTransport m line stop a1e) := by
  unfold agentTransport
  dsimp only
  split
  · exact (Harmless.refl sh).print _
  · exact harmless_ite ((Harmless.refl sh).print _) (runAgentTransportProbe_harmless m sh)

/-- **What an agent command does**, by the words that follow `agent`. -/
theorem executeAgent_cases (line : Line) (start : ℕ) {stop cmdEnd : ℕ} (h : cmdEnd ≤ stop)
    (hstop : stop ≤ maxLine) (sh : State σ) :
    let words := Words.words isSpace (line.slice cmdEnd stop)
    let sh' := sh.executeAgent m line start stop cmdEnd
    ((∀ target rest, words = ascii "delete" :: target :: rest →
        ¬ (1 ≤ target.length ∧ target.length ≤ Agent.maxNameLen)) ∧ Harmless sh sh') ∨
      ∃ target rest, words = ascii "delete" :: target :: rest ∧
        (1 ≤ target.length ∧ target.length ≤ Agent.maxNameLen) ∧ AwaitsDeletion target sh' ∧
        sh'.calls = sh.calls := by
  intro words sh'
  obtain ⟨hnone, hwords⟩ | ⟨a1s, a1e, hsome, hlt, hle, hwords⟩ := line.nextArg_cases h hstop
  · refine .inl ⟨by simp [words, hwords], ?_⟩
    simp only [sh', executeAgent, hnone]
    exact (Harmless.refl sh).print _
  have hmatch : ∀ lit, line.matchLiteral a1s a1e lit = true ↔ line.slice a1s a1e = ascii lit :=
    fun lit => line.matchLiteral_iff hlt.le (hle.trans hstop)
  by_cases hdelete : line.slice a1s a1e = ascii "delete"
  swap
  · refine .inl ⟨?_, ?_⟩
    · intro target rest heq
      rw [show words = _ from hwords] at heq
      exact absurd (List.cons.inj heq).1 hdelete
    -- one branch for each of `show`, `read`, `stat`, `mode`, `transport`, `context` and `help`
    simp only [sh', executeAgent, hsome, hmatch, hdelete, if_false]
    apply harmless_ite (agentShow_harmless m line start stop a1e sh)
    apply harmless_ite (agentTarget_harmless m (by simp) _ _ line start hle hstop sh)
    apply harmless_ite (agentTarget_harmless m (by simp) _ _ line start hle hstop sh)
    apply harmless_ite (agentMode_harmless m line start hle hstop sh)
    apply harmless_ite (agentTransport_harmless m line stop a1e sh)
    apply harmless_ite ((Harmless.refl sh).print _)
    apply harmless_ite (runAgentNoTarget_harmless m (by simp) _ line start stop sh)
    exact (Harmless.refl sh).print _
  have hsh : sh' = sh.agentTarget m .deleteFile .deleteFile .risky "Usage: agent delete <name>\n"
      line start stop a1e := by
    simp only [sh', executeAgent, hsome, hmatch, hdelete]
    rw [if_neg (by decide), if_neg (by decide), if_pos trivial]
  rw [hsh, agentTarget]
  obtain ⟨hnone, hwords'⟩ | ⟨a2s, a2e, hsome', hlt', hle', hwords'⟩ := line.nextArg_cases hle hstop
  · rw [hnone]
    refine .inl ⟨?_, (Harmless.refl sh).print _⟩
    simp [words, hwords, hwords']
  rw [hsome']
  have hwords₂ : words = ascii "delete" :: line.slice a2s a2e ::
      Words.words isSpace (line.slice a2e stop) := by
    simp only [words, hwords, hwords', hdelete]
  obtain ⟨hlen, hharmless⟩ | ⟨hlen, hawaits, hcalls⟩ :=
    runAgentAction_delete m line hlt'.le (hle'.trans hstop) start stop sh
  · refine .inl ⟨?_, hharmless⟩
    intro target rest heq
    rw [hwords₂] at heq
    obtain ⟨rfl, -⟩ := List.cons.inj (List.cons.inj heq).2
    exact hlen
  · exact .inr ⟨_, _, hwords₂, hlen, hawaits, hcalls⟩

/-- The commands of the shell other than `agent` are harmless. -/
theorem executeCommand_harmless (line : Line) (stop cmdEnd : ℕ) (command : Command)
    (sh : State σ) : Harmless sh (sh.executeCommand m line stop cmdEnd command) := by
  unfold executeCommand
  split
  case h_4 =>
    split
    · exact (Harmless.refl sh).print _
    · exact ⟨rfl, .inl rfl⟩
  case h_7 => exact ⟨rfl, .inl rfl⟩
  all_goals exact (Harmless.refl sh).print _

end State

/-! ## What one line does -/

/-- The line asks the agent to delete the file `target`. -/
def Line.RequestsDeletion (line : Line) (target : List UInt8) : Prop :=
  (∃ rest, line.tokens = ascii "agent" :: ascii "delete" :: target :: rest) ∧
    1 ≤ target.length ∧ target.length ≤ Agent.maxNameLen

/-- A line asks for at most one deletion. -/
theorem Line.RequestsDeletion.unique {line : Line} {target target' : List UInt8}
    (h : line.RequestsDeletion target) (h' : line.RequestsDeletion target') : target = target' := by
  obtain ⟨⟨rest, hrest⟩, -⟩ := h
  obtain ⟨⟨rest', hrest'⟩, -⟩ := h'
  rw [hrest] at hrest'
  simp only [List.cons.injEq] at hrest'
  exact hrest'.2.2.1

/-- No command of the table is spelled `agent`. -/
theorem Command.literal_ne_agent (command : Command) : ascii command.literal ≠ ascii "agent" := by
  cases command <;> decide

namespace State

/-- A line while nothing is pending. -/
theorem execute_idle (line : Line) (sh : State σ)
    (hidle : sh.agentContext.confirmationPending = false) :
    ((∀ target, ¬ line.RequestsDeletion target) ∧ Harmless sh (sh.execute m line)) ∨
      ∃ target, line.RequestsDeletion target ∧ AwaitsDeletion target (sh.execute m line) ∧
        (sh.execute m line).calls = sh.calls := by
  obtain ⟨start, hstart⟩ : ∃ start, start = line.trimLeft 0 line.len := ⟨_, rfl⟩
  obtain ⟨stop, hstop⟩ : ∃ stop, stop = line.trimRight start line.len := ⟨_, rfl⟩
  obtain ⟨hle, hmax, hslice, hspace⟩ := line.trim_spec hstart hstop
  have htokens : line.tokens = Words.words isSpace (line.slice start stop) := by
    rw [hslice, line.words_trimmed]
  unfold execute
  simp only [hidle, Bool.false_eq_true, if_false]
  rw [← hstart, ← hstop]
  by_cases hblank : start ≥ stop
  · rw [if_pos hblank]
    refine .inl ⟨?_, .refl sh⟩
    rintro target ⟨⟨rest, hrest⟩, -⟩
    rw [htokens, line.slice_eq_nil hblank, Words.words_nil] at hrest
    simp at hrest
  rw [if_neg hblank]
  obtain ⟨hlt, hend, hwords⟩ :=
    line.firstToken_spec (not_le.mp hblank) hmax (hspace (not_le.mp hblank))
  rw [hwords] at htokens
  rcases hfirst : line.firstToken start stop with ⟨cmdStart, cmdEnd⟩
  obtain rfl : start = cmdStart := congrArg Prod.fst hfirst
  rw [hfirst] at hlt hend htokens
  dsimp only at hlt hend htokens ⊢
  have hmatch : ∀ lit, line.matchLiteral start cmdEnd lit = true ↔
      line.slice start cmdEnd = ascii lit :=
    fun lit => line.matchLiteral_iff hlt.le (hend.trans hmax)
  -- a first word that is not `agent` makes no request
  have hother : line.slice start cmdEnd ≠ ascii "agent" →
      ∀ target, ¬ line.RequestsDeletion target := by
    rintro hne target ⟨⟨rest, hrest⟩, -⟩
    rw [htokens] at hrest
    exact hne (List.cons.inj hrest).1
  split
  · rename_i command hfind
    have hfound := List.find?_some hfind
    have hliteral := (hmatch _).mp hfound
    refine .inl ⟨hother (hliteral ▸ command.literal_ne_agent), ?_⟩
    have hharmless := executeCommand_harmless m line stop cmdEnd command
      { sh with env := { sh.env with history := sh.env.history.add line start stop } }
    exact ⟨hharmless.pending, hharmless.calls⟩
  by_cases hagent : line.matchLiteral start cmdEnd "agent" = true
  swap
  · rw [if_neg hagent]
    exact .inl ⟨hother (mt (hmatch _).mpr hagent), rfl, .inl rfl⟩
  rw [if_pos hagent]
  rw [(hmatch _).mp hagent] at htokens
  obtain ⟨hnone, hharmless⟩ | ⟨target, rest, hrest, hlen, hawaits, hcalls⟩ :=
    executeAgent_cases m line start hend hmax
      { sh with env := { sh.env with history := sh.env.history.add line start stop } }
  · refine .inl ⟨?_, hharmless.pending, hharmless.calls⟩
    rintro target ⟨⟨rest, hrest⟩, hlen⟩
    rw [htokens] at hrest
    exact hnone target rest (List.cons.inj hrest).2 hlen
  · exact .inr ⟨target, ⟨⟨rest, by rw [htokens, hrest]⟩, hlen⟩, hawaits, hcalls⟩

/-- A pending request is cancelled: only its bookkeeping in the context and the message change. -/
def Cancelled (sh sh' : State σ) : Prop :=
  sh'.agentContext.confirmationPending = false ∧
    sh' = { sh with
      agentContext := sh'.agentContext
      env := (sh.env.print m (ascii "agent: action cancelled")).print m (ascii "\n") }

/-- A line while a deletion is pending. -/
theorem execute_waiting (line : Line) {target : List UInt8} (sh : State σ)
    (h : AwaitsDeletion target sh) :
    (sh.execute m line).agentContext.confirmationPending = false ∧
      ((line.trimmed = ascii "yes" ∧ ∃ action : Action,
          (sh.execute m line).calls = sh.calls ++ [action] ∧ action.kind = .deleteFile ∧
          action.targetLen = target.length ∧
          action.target.toList.take target.length = target) ∨
        (line.trimmed ≠ ascii "yes" ∧ Cancelled m sh (sh.execute m line))) := by
  obtain ⟨start, hstart⟩ : ∃ start, start = line.trimLeft 0 line.len := ⟨_, rfl⟩
  obtain ⟨stop, hstop⟩ : ∃ stop, stop = line.trimRight start line.len := ⟨_, rfl⟩
  obtain ⟨hle, hmax, hslice, -⟩ := line.trim_spec hstart hstop
  have hanswer : (decide (start < stop) && line.matchLiteral start stop "yes") =
      decide (line.trimmed = ascii "yes") := by
    rw [← hslice, Bool.eq_iff_iff, Bool.and_eq_true, line.matchLiteral_iff hle hmax]
    simp only [decide_eq_true_eq, and_iff_right_iff_imp]
    intro hyes
    have hlen : (line.slice start stop).length = stop - start := line.length_slice hmax
    rw [hyes, show (ascii "yes").length = 3 from rfl] at hlen
    omega
  have hpending : sh.store.pending = some (true, sh.agentContext.pendingPlan) := by
    rw [store_pending, pending, h.pending]
  unfold execute
  simp only [h.pending, if_true, Runtime.confirmActionMessage]
  rw [← hstart, ← hstop, hanswer]
  by_cases hyes : line.trimmed = ascii "yes"
  · obtain ⟨action, hcounted, hkind, htarget⟩ := h.counted
    obtain ⟨hdone, hcalls⟩ := Agent.confirmAction_executes (r := runtimeAgent m sh.env) rfl hcounted
      h.valid (by rw [hkind]; exact nofun) hpending
    rw [decide_eq_true hyes]
    exact ⟨congrArg Prod.fst (withStore_pending (hdone (newAgentExecutor_keepsPending m)) sh),
      .inl ⟨hyes, action, hcalls, hkind, htarget⟩⟩
  · rw [decide_eq_false hyes]
    obtain ⟨hnone, -⟩ | ⟨_, _, -, -, -, -, ⟨-, hmessage, hcalls, henv, hdone⟩ | ⟨htrue, -⟩⟩ :=
      (runtimeAgent m sh.env).confirmAction_cases false sh.store
    · exact absurd hpending (hnone _)
    swap
    · simp at htrue
    have hidle := congrArg Prod.fst (withStore_pending hdone sh)
    refine ⟨hidle, .inr ⟨hyes, hidle, ?_⟩⟩
    simp only [hmessage, printAgentMessage, print, withStore, hcalls, henv]
    rfl

end State

/-! ## Runs of lines -/

/-- A line, and the machine as it finds it: between two lines, the timer, the echo of the typed line
and other tasks have changed it. -/
structure Entered (σ : Type) where
  machine : σ
  line : Line

namespace State

/-- The shell when it comes to execute a line. -/
def onto (e : Entered σ) (sh : State σ) : State σ :=
  { sh with env := { sh.env with machine := e.machine } }

def enter (sh : State σ) (e : Entered σ) : State σ := (sh.onto e).execute m e.line

/-- The shell after some lines, from `ConfigureAgentRuntime` and `Init` on. -/
def afterLines (sh₀ : State σ) (lines : List (Entered σ)) : State σ :=
  lines.foldl (enter m) (sh₀.configureAgentRuntime.init m)

/-- The last line was executed with nothing pending, and requested the deletion of `target`. -/
def JustRequested (sh₀ : State σ) (lines : List (Entered σ)) (target : List UInt8) : Prop :=
  ∃ earlier request, lines = earlier ++ [request] ∧
    (afterLines m sh₀ earlier).agentContext.confirmationPending = false ∧
    request.line.RequestsDeletion target

/-- The last line is entered in the state that the others leave. -/
theorem afterLines_concat (sh₀ : State σ) (lines : List (Entered σ)) (e : Entered σ) :
    afterLines m sh₀ (lines ++ [e]) = (afterLines m sh₀ lines).enter m e := by
  rw [afterLines, List.foldl_append]
  rfl

/-- What is pending after some lines was requested by the last of them. -/
theorem afterLines_cases (sh₀ : State σ) (lines : List (Entered σ)) :
    ((afterLines m sh₀ lines).agentContext.confirmationPending = false ∧
      ∀ target, ¬ JustRequested m sh₀ lines target) ∨
    ∃ target, AwaitsDeletion target (afterLines m sh₀ lines) ∧
      ∀ target', JustRequested m sh₀ lines target' ↔ target' = target := by
  -- on the last line, since `JustRequested` looks at that line and the state before it
  induction lines using List.reverseRecOn with
  | nil =>
    refine .inl ⟨rfl, ?_⟩
    rintro target ⟨earlier, request, hnil, -⟩
    simp at hnil
  | append_singleton lines e ih =>
    rw [afterLines_concat]
    have hlast : ∀ target, JustRequested m sh₀ (lines ++ [e]) target ↔
        (afterLines m sh₀ lines).agentContext.confirmationPending = false ∧
          e.line.RequestsDeletion target := by
      intro target
      constructor
      · rintro ⟨earlier, request, heq, hidle, hrequest⟩
        obtain ⟨rfl, rfl⟩ := List.append_singleton_inj.mp heq
        exact ⟨hidle, hrequest⟩
      · rintro ⟨hidle, hrequest⟩
        exact ⟨lines, e, rfl, hidle, hrequest⟩
    simp only [hlast]
    obtain ⟨hidle, -⟩ | ⟨target, hawaits, -⟩ := ih
    · obtain ⟨hnone, hharmless⟩ | ⟨target, hrequest, hawaits, -⟩ :=
        execute_idle m e.line ((afterLines m sh₀ lines).onto e) hidle
      · refine .inl ⟨(congrArg Prod.fst hharmless.pending).trans hidle, ?_⟩
        rintro target ⟨-, hrequest⟩
        exact hnone target hrequest
      · refine .inr ⟨target, hawaits, ?_⟩
        intro target'
        constructor
        · rintro ⟨-, hrequest'⟩
          exact hrequest'.unique hrequest
        · rintro rfl
          exact ⟨hidle, hrequest⟩
    · have hdone := execute_waiting m e.line ((afterLines m sh₀ lines).onto e)
        ⟨hawaits.pending, hawaits.valid, hawaits.counted⟩
      refine .inl ⟨hdone.1, ?_⟩
      rintro target' ⟨hidle, -⟩
      simp [hawaits.pending] at hidle

/-- **The confirmation gate of the shell.** After any lines, the next line makes the agent delete a
file exactly if it is `yes` and the line before it was a deletion request, made with nothing
pending. It then deletes that file, once. Any other line after such a request cancels it and does
nothing else. -/
theorem deletion_iff_requested_and_confirmed (sh₀ : State σ) (lines : List (Entered σ))
    (e : Entered σ) :
    let sh := afterLines m sh₀ lines
    ∃ ran, (sh.enter m e).calls = sh.calls ++ ran ∧
      ((∃ action ∈ ran, action.kind = .deleteFile) ↔
        e.line.trimmed = ascii "yes" ∧ ∃ target, JustRequested m sh₀ lines target) ∧
      ∀ target, JustRequested m sh₀ lines target →
        (sh.enter m e).agentContext.confirmationPending = false ∧
        (e.line.trimmed = ascii "yes" → ∃ action : Action, ran = [action] ∧
          action.kind = .deleteFile ∧ action.targetLen = target.length ∧
          action.target.toList.take target.length = target) ∧
        (e.line.trimmed ≠ ascii "yes" → Cancelled m (sh.onto e) (sh.enter m e)) := by
  intro sh
  obtain ⟨hidle, hnone⟩ | ⟨target, hawaits, hrequested⟩ := afterLines_cases m sh₀ lines
  · have hcalls : ∃ ran, (sh.enter m e).calls = sh.calls ++ ran ∧
        ∀ action ∈ ran, action.kind ≠ .deleteFile := by
      obtain ⟨-, hharmless⟩ | ⟨_, -, -, hsame⟩ := execute_idle m e.line (sh.onto e) hidle
      · obtain hsame | ⟨action, hcall, hkind⟩ := hharmless.calls
        · exact ⟨[], hsame.trans (List.append_nil _).symm, by simp⟩
        · exact ⟨[action], hcall, by simpa using hkind⟩
      · exact ⟨[], hsame.trans (List.append_nil _).symm, by simp⟩
    obtain ⟨ran, hran, hkinds⟩ := hcalls
    refine ⟨ran, hran, ?_, fun target h => absurd h (hnone target)⟩
    constructor
    · rintro ⟨action, haction, hkind⟩
      exact absurd hkind (hkinds action haction)
    · rintro ⟨-, target, htarget⟩
      exact absurd htarget (hnone target)
  · obtain ⟨hdone, ⟨hyes, action, hcalls, haction⟩ | ⟨hno, hcancelled⟩⟩ :=
      execute_waiting m e.line (sh.onto e)
        ⟨hawaits.pending, hawaits.valid, hawaits.counted⟩
    · refine ⟨[action], hcalls, iff_of_true ⟨action, by simp, haction.1⟩
        ⟨hyes, target, (hrequested target).mpr rfl⟩, ?_⟩
      intro target' htarget'
      obtain rfl := (hrequested target').mp htarget'
      exact ⟨hdone, fun _ => ⟨action, rfl, haction⟩, fun hno => absurd hyes hno⟩
    · have hsame : (sh.enter m e).calls = sh.calls := by
        rw [enter, hcancelled.2]
        rfl
      refine ⟨[], hsame.trans (List.append_nil _).symm, iff_of_false (by simp) fun h => hno h.1, ?_⟩
      intro target' _
      exact ⟨hdone, fun hyes => absurd hyes hno, fun _ => hcancelled⟩

/-- A line that was typed into an empty buffer. -/
def typed (text : String) (h : (ascii text).length ≤ maxLine) : Entered Unit where
  machine := ()
  line := ⟨Vector.ofFn fun i => (ascii text).getD i 0, (ascii text).length, h⟩

/-- A machine without files. -/
def emptyMachine : Machine Unit where
  putRune _ s := s
  getTicks := none
  mmapEntries _ := []
  fsEntries _ := []
  fsLookup _ _ _ := none
  fsWrite _ _ _ s := (false, s)
  fsRemove _ _ s := (false, s)
  readByte _ _ := 0
  port := ⟨fun s => (false, s), fun _ s => (false, s), fun s => (none, s)⟩
  command _ _ _ _ s := s
  suggest _ _ _ s := s

def emptyHistory : History :=
  ⟨Vector.replicate _ (Vector.replicate _ 0), Vector.replicate _ 0, 0, 0, by decide, by decide⟩

def freshState : State Unit where
  tmpName := default
  transportRequest := default
  transportResponse := default
  serial := ⟨Vector.replicate _ 0, .zero⟩
  agentContext := default
  env := ⟨.deterministic, false, emptyHistory, ()⟩
  calls := []

/-- The user asks to delete `foo` and confirms. -/
theorem requested_deletion_confirmed :
    let lines := [typed " agent delete foo" (by decide)]
    ∃ action : Action,
      (afterLines emptyMachine freshState (lines ++ [typed "yes " (by decide)])).calls =
        (afterLines emptyMachine freshState lines).calls ++ [action] ∧
      action.kind = .deleteFile ∧ action.targetLen = 3 ∧
      action.target.toList.take 3 = ascii "foo" := by
  intro lines
  have hrequested : JustRequested emptyMachine freshState lines (ascii "foo") :=
    ⟨[], typed " agent delete foo" (by decide), rfl, rfl, ⟨[], by decide⟩, by decide, by decide⟩
  obtain ⟨ran, hcalls, -, hran⟩ := deletion_iff_requested_and_confirmed emptyMachine freshState
    lines (typed "yes " (by decide))
  obtain ⟨action, rfl, haction⟩ := (hran _ hrequested).2.1 (by decide)
  exact ⟨action, by rw [afterLines_concat, hcalls], haction⟩

end State

end DavOS.Shell
