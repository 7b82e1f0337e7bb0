import DavOS.Agent.Planner
import Mathlib.Tactic.Linarith

/-!
# What running a plan can do

`Runtime.runPlanWithConfirmation` has three kinds of outcome (`runPlanWithConfirmation_cases`): the
plan is turned away and only bookkeeping fields of the context change, it becomes the pending plan,
or its actions are executed in order. What is pending is the pair of context fields that
`Store.pending` reads, and everything a run does to it is said through that.
-/

namespace DavOS.Agent

variable {σ : Type}

/-! ## Actions that pass validation -/

/-- What an action has to satisfy to pass the checks, of which two are for the LLM planner only. -/
theorem rejectAction_eq_none_iff {planner : PlannerMode} {action : Action} :
    rejectAction planner action = none ↔
      (action.kind.valid ∧ (planner = .llm → allowedPlanAction action.kind)) ∧
      validRiskLevel action.risk ∧ (0 ≤ action.targetLen ∧ action.targetLen ≤ maxNameLen) ∧
      action.dataLen = 0 ∧ (actionRequiresTarget action.kind → action.targetLen ≠ 0) ∧
      (planner = .llm → actionRisk action.kind = action.risk) := by
  rw [rejectAction]
  split_ifs <;> grind

/-- A plan is valid if its count is and if each counted action passes. -/
theorem validatePlan_ok_iff {plan : Plan} :
    (validatePlan plan).ok = true ↔ 0 < plan.actionCount ∧ plan.actionCount ≤ maxActions ∧
      ∀ action ∈ plan.counted, rejectAction plan.planner action = none := by
  rw [validatePlan, ← List.findSome?_eq_none_iff]
  split_ifs with hnone hmany
  · exact iff_of_false (by simp) fun h => absurd h.1 (not_lt.mpr hnone)
  · exact iff_of_false (by simp) fun h => absurd h.2.1 (not_le.mpr hmany)
  · split
    · rename_i h
      exact iff_of_false (by simp) fun hall => by simp [h] at hall
    · rename_i h
      exact iff_of_true rfl ⟨not_le.mp hnone, not_lt.mp hmany, h⟩

/-- A plan with the count 1 has its first action. -/
theorem counted_eq_singleton {plan : Plan} (h : plan.actionCount = 1) :
    plan.counted = [plan.actions[0]!] := by
  rw [Plan.counted, h]
  rcases plan.actions with ⟨⟨l⟩, hl⟩
  match l, hl with
  | a :: l, _ => rfl

/-- A plan of one risky deletion, with a target, is valid. -/
theorem validatePlan_deletion {plan : Plan} (hcount : plan.actionCount = 1)
    (hkind : plan.actions[0]!.kind = .deleteFile) (hrisk : plan.actions[0]!.risk = .risky)
    (hdata : plan.actions[0]!.dataLen = 0) (hpos : plan.actions[0]!.targetLen > 0)
    (hle : plan.actions[0]!.targetLen ≤ 16) : (validatePlan plan).ok = true := by
  refine validatePlan_ok_iff.mpr ⟨by simp [hcount], by simp [hcount], ?_⟩
  rw [counted_eq_singleton hcount]
  intro action haction
  obtain rfl := List.mem_singleton.mp haction
  rw [rejectAction_eq_none_iff, hkind, hrisk, hdata]
  exact ⟨⟨rfl, fun _ => rfl⟩, rfl, ⟨by omega, hle⟩, rfl, fun _ => by omega, fun _ => rfl⟩

/-! ## The pending plan -/

/-- The fields `ConfirmationPending` and `PendingPlan`, of a context that is not `nil`. -/
def Store.pending (s : Store σ) : Option (Bool × Plan) :=
  s.context.map fun c => (c.confirmationPending, c.pendingPlan)

@[simp] theorem onContext_calls (f : Context → Context) (s : Store σ) :
    (s.onContext f).calls = s.calls := rfl

/-- A change of the context that keeps the two pending fields keeps the pending plan. -/
theorem onContext_pending {f : Context → Context}
    (h : ∀ c, ((f c).confirmationPending, (f c).pendingPlan) =
      (c.confirmationPending, c.pendingPlan)) (s : Store σ) :
    (s.onContext f).pending = s.pending := by
  rcases s with ⟨_ | c, env, calls⟩
  · rfl
  · exact congrArg some (h c)

/-- The current task is no part of the pending plan. -/
theorem currentTask_pending (kind : ActionKind) (s : Store σ) :
    (s.onContext fun c => { c with currentTask := kind }).pending = s.pending := by
  refine onContext_pending ?_ s
  intro c
  rfl

@[simp] theorem finishPlanContext_fst (response : Response) (plan : Plan) (s : Store σ) :
    (finishPlanContext response plan s).1 = response := rfl

@[simp] theorem finishPlanContext_calls (response : Response) (plan : Plan) (s : Store σ) :
    (finishPlanContext response plan s).2.calls = s.calls := rfl

@[simp] theorem finishPlanContext_env (response : Response) (plan : Plan) (s : Store σ) :
    (finishPlanContext response plan s).2.env = s.env := rfl

@[simp] theorem finishPlanContext_pending (response : Response) (plan : Plan) (s : Store σ) :
    (finishPlanContext response plan s).2.pending = s.pending := by
  refine onContext_pending ?_ s
  intro c
  rfl

@[simp] theorem addTrace_safety (stage : TraceKind) (detail : TraceDetail) (r : Response) :
    (r.addTrace stage detail).safety = r.safety := by
  rw [Response.addTrace]
  split <;> rfl

@[simp] theorem addTrace_result (stage : TraceKind) (detail : TraceDetail) (r : Response) :
    (r.addTrace stage detail).result = r.result := by
  rw [Response.addTrace]
  split <;> rfl

@[simp] theorem setResult_safety (ok : Bool) (message : MessageKind) (r : Response) :
    (r.setResult ok message).safety = r.safety := rfl

@[simp] theorem setSafety_safety (status : SafetyStatus) (reason : MessageKind) (r : Response) :
    (r.setSafety status reason).safety = ⟨status, reason⟩ := rfl

@[simp] theorem setResult_result (ok : Bool) (message : MessageKind) (r : Response) :
    (r.setResult ok message).result = ⟨ok, message⟩ := rfl

@[simp] theorem setSafety_result (status : SafetyStatus) (reason : MessageKind) (r : Response) :
    (r.setSafety status reason).result = r.result := rfl

/-! ## One handler call -/

/-- The handler of a kind of action. -/
def AllowedActionExecutor.handler (e : AllowedActionExecutor σ) :
    ActionKind → Option (ActionHandler σ)
  | .listFiles => e.listFiles
  | .readFile => e.readFile
  | .writeFile => e.writeFile
  | .deleteFile => e.deleteFile
  | .statFile => e.statFile
  | .showHelp => e.showHelp
  | .showHistory => e.showHistory
  | .showVersion => e.showVersion
  | .showTicks => e.showTicks
  | .showMemoryMap => e.showMemoryMap
  | .setMode => e.setMode
  | .unknown | .other _ => none

/-- `Execute` calls the handler of the action's kind, if there is one. -/
theorem execute_cases (e : AllowedActionExecutor σ) (action : Action) (s : Store σ) :
    (e.handler action.kind = none ∧ (e.execute action s).2 = s) ∨
      ∃ h, e.handler action.kind = some h ∧ e.execute action s = callHandler (some h) action s := by
  have hcall : ∀ handler : Option (ActionHandler σ),
      (handler = none ∧ (callHandler handler action s).2 = s) ∨
      ∃ h, handler = some h ∧ callHandler handler action s = callHandler (some h) action s := by
    intro handler
    cases handler with
    | none => exact .inl ⟨rfl, rfl⟩
    | some h => exact .inr ⟨h, rfl, rfl⟩
  rw [AllowedActionExecutor.execute]
  cases action.kind
  case unknown | other => exact .inl ⟨rfl, rfl⟩
  all_goals exact hcall _

/-- A handler that exists is called once. -/
theorem callHandler_calls (h : ActionHandler σ) (action : Action) (s : Store σ) :
    (callHandler (some h) action s).2.calls = s.calls ++ [action] := by
  rcases s with ⟨_ | c, env, calls⟩ <;> rfl

/-- The loop over one action executes it, with the action recorded as the current task. -/
theorem executeLoop_singleton (e : AllowedActionExecutor σ) (action : Action) (i : ℕ)
    (results : Vector ActionResult maxActions) (s : Store σ) :
    (executeLoop e [action] i results s).2 =
      (e.execute action (s.onContext fun c => { c with currentTask := action.kind })).2 := by
  simp only [executeLoop]
  split <;> rfl

/-! ## The three outcomes -/

/-- A plan is allowed if it is confirmed or has no risky action; otherwise it becomes pending. -/
theorem evaluateSafety_cases (plan : Plan) (confirmed : Bool) (s : Store σ) :
    (evaluateSafetyWithConfirmation plan confirmed s = (⟨.allowed, .ok⟩, s) ∧
      (confirmed = true ∨ ∀ action ∈ plan.counted, action.risk ≠ .risky)) ∨
    (confirmed = false ∧ (∃ action ∈ plan.counted, action.risk = .risky) ∧
      evaluateSafetyWithConfirmation plan confirmed s =
        (⟨.confirmationRequired, .confirmationRequired⟩,
          s.onContext fun c => { c with pendingPlan := plan, confirmationPending := true })) := by
  rw [evaluateSafetyWithConfirmation]
  by_cases hrisky : plan.counted.any fun action => action.risk = .risky
  · rw [if_pos hrisky]
    cases confirmed with
    | true => exact .inl ⟨rfl, .inl rfl⟩
    | false => exact .inr ⟨rfl, by simpa using hrisky, rfl⟩
  · rw [if_neg hrisky]
    exact .inl ⟨rfl, .inr (by simpa using hrisky)⟩

namespace Runtime

/-- The plan is turned away: no handler call, and nothing new pending. -/
def TurnedAway (s : Store σ) (o : Response × Store σ) : Prop :=
  o.1.safety.status ≠ .confirmationRequired ∧ o.2.calls = s.calls ∧ o.2.env = s.env ∧
    o.2.pending = s.pending

/-- The plan waits for a confirmation. -/
def Suspended (plan : Plan) (s : Store σ) (o : Response × Store σ) : Prop :=
  (∃ action ∈ plan.counted, action.risk = .risky) ∧ o.1.safety.status = .confirmationRequired ∧
    o.1.result.message = .confirmationRequired ∧ o.2.calls = s.calls ∧ o.2.env = s.env ∧
    o.2.pending = s.pending.map fun _ => (true, plan)

/-- The plan is executed, from a store with the same calls and pending plan. -/
def Executed (r : Runtime σ) (plan : Plan) (s : Store σ) (o : Response × Store σ) : Prop :=
  o.1.safety.status = .allowed ∧ ∃ s₁ : Store σ, s₁.calls = s.calls ∧ s₁.env = s.env ∧
    s₁.pending = s.pending ∧
    o.2.calls = (executeLoop r.executor plan.counted 0 default s₁).2.calls ∧
    o.2.env = (executeLoop r.executor plan.counted 0 default s₁).2.env ∧
    o.2.pending = (executeLoop r.executor plan.counted 0 default s₁).2.pending

/-- **What running a plan can do.** -/
theorem runPlanWithConfirmation_cases (r : Runtime σ) (plan : Plan) (confirmed : Bool)
    (s : Store σ) :
    (TurnedAway s (r.runPlanWithConfirmation plan confirmed s) ∧
      ((validatePlan plan).ok = false ∨ r.executorConfigured = false ∧
        (confirmed = true ∨ ∀ action ∈ plan.counted, action.risk ≠ .risky))) ∨
    ((validatePlan plan).ok = true ∧
      ((confirmed = false ∧ Suspended plan s (r.runPlanWithConfirmation plan confirmed s)) ∨
        ((confirmed = true ∨ ∀ action ∈ plan.counted, action.risk ≠ .risky) ∧
          r.Executed plan s (r.runPlanWithConfirmation plan confirmed s)))) := by
  rw [runPlanWithConfirmation]
  dsimp only
  by_cases hvalid : (validatePlan plan).ok = true
  swap
  · rw [if_pos hvalid]
    exact .inl ⟨⟨by simp, rfl, rfl, by simp⟩, .inl (by simpa using hvalid)⟩
  rw [if_neg (not_not.mpr hvalid)]
  set s₁ := s.onContext fun c => { c with currentTask := plan.actions[0]!.kind } with hs₁
  have hpending : s₁.pending = s.pending := currentTask_pending _ s
  obtain ⟨hsafety, hallowed⟩ | ⟨hconfirmed, hrisky, hsafety⟩ :=
    evaluateSafety_cases plan confirmed s₁
  · rw [hsafety]
    simp only [ne_eq, not_true_eq_false, if_false]
    by_cases hconf : r.executorConfigured = true
    swap
    · rw [if_pos hconf]
      exact .inl ⟨⟨by simp, rfl, rfl, by simpa using hpending⟩,
        .inr ⟨by simpa using hconf, hallowed⟩⟩
    rw [if_neg (not_not.mpr hconf)]
    refine .inr ⟨hvalid, .inr ⟨hallowed, ?_⟩⟩
    -- a failed action and a completed plan differ in the response, not in what was executed
    rcases hloop : executeLoop r.executor plan.counted 0 default s₁ with ⟨⟨_ | result, results⟩, s₂⟩
    · exact ⟨by simp, s₁, rfl, rfl, hpending, by simp [hloop], by simp [hloop], by simp [hloop]⟩
    · exact ⟨by simp, s₁, rfl, rfl, hpending, by simp [hloop], by simp [hloop], by simp [hloop]⟩
  · rw [hsafety]
    refine .inr ⟨hvalid, .inl ⟨hconfirmed, hrisky, by simp, by simp, rfl, rfl, ?_⟩⟩
    simp only [ne_eq, reduceCtorEq, not_false_eq_true, if_true, finishPlanContext_pending]
    rcases s with ⟨_ | c, env, calls⟩ <;> rfl

/-- Executing a plan of one action calls the handler of that action, or none. -/
theorem Executed.singleton {r : Runtime σ} {plan : Plan} {s : Store σ} {o : Response × Store σ}
    (h : r.Executed plan s o) {action : Action} (hcounted : plan.counted = [action]) :
    (r.executor.handler action.kind = none ∧ o.2.calls = s.calls ∧ o.2.env = s.env ∧
      o.2.pending = s.pending) ∨
    ∃ handler s₁, r.executor.handler action.kind = some handler ∧ s₁.env = s.env ∧
      s₁.pending = s.pending ∧ o.2.calls = s.calls ++ [action] ∧
      o.2.pending = (callHandler (some handler) action s₁).2.pending := by
  obtain ⟨-, s₁, hcalls, henv, hpending, hcalls', henv', hpending'⟩ := h
  rw [hcounted, executeLoop_singleton] at hcalls' henv' hpending'
  set s₂ := s₁.onContext fun c => { c with currentTask := action.kind }
  have hpending₂ : s₂.pending = s.pending := (currentTask_pending _ s₁).trans hpending
  obtain ⟨hnone, hsame⟩ | ⟨handler, hhandler, hcall⟩ := execute_cases r.executor action s₂
  · rw [hsame] at hcalls' henv' hpending'
    exact .inl ⟨hnone, hcalls'.trans hcalls, henv'.trans henv, hpending'.trans hpending₂⟩
  · rw [hcall] at hcalls' hpending'
    refine .inr ⟨handler, s₂, hhandler, henv, hpending₂, ?_, hpending'⟩
    rw [hcalls', callHandler_calls]
    exact congrArg (· ++ [action]) hcalls

/-- `ConfirmAction` does nothing to the store without a pending plan. With one, it clears the
pending fields first, and a positive answer then runs the plan. -/
theorem confirmAction_cases (r : Runtime σ) (confirmed : Bool) (s : Store σ) :
    ((∀ plan, s.pending ≠ some (true, plan)) ∧ (r.confirmAction confirmed s).2 = s) ∨
    ∃ plan s₁, s.pending = some (true, plan) ∧ s₁.calls = s.calls ∧ s₁.env = s.env ∧
      s₁.pending = some (false, default) ∧
      ((confirmed = false ∧ (r.confirmAction confirmed s).1.result.message = .actionCancelled ∧
          (r.confirmAction confirmed s).2.calls = s.calls ∧
          (r.confirmAction confirmed s).2.env = s.env ∧
          (r.confirmAction confirmed s).2.pending = some (false, default)) ∨
        (confirmed = true ∧
          r.confirmAction confirmed s = r.runPlanWithConfirmation plan true s₁)) := by
  rcases s with ⟨_ | c, env, calls⟩
  · exact .inl ⟨by simp [Store.pending], rfl⟩
  by_cases hpending : c.confirmationPending = true
  swap
  · refine .inl ⟨by simp [Store.pending, hpending], ?_⟩
    simp only [confirmAction, if_pos hpending]
  refine .inr ⟨c.pendingPlan,
    ⟨some { c with pendingPlan := default, confirmationPending := false }, env, calls⟩,
    by simp [Store.pending, hpending], rfl, rfl, rfl, ?_⟩
  cases confirmed with
  | false =>
    refine .inl ⟨rfl, ?_⟩
    simp only [confirmAction, hpending, not_true_eq_false, if_false, Bool.false_eq_true,
      not_false_eq_true, if_true, finishPlanContext_pending]
    exact ⟨by simp, rfl, rfl, rfl⟩
  | true =>
    refine .inr ⟨rfl, ?_⟩
    simp only [confirmAction, hpending, not_true_eq_false, if_false]

end Runtime

/-! ## Plans of one action -/

/-- The handlers leave alone what is pending. -/
def AllowedActionExecutor.KeepsPending (e : AllowedActionExecutor σ) : Prop :=
  ∀ kind handler, e.handler kind = some handler → ∀ action c env,
    (handler.onContext action c env).2.1.confirmationPending = c.confirmationPending ∧
      (handler.onContext action c env).2.1.pendingPlan = c.pendingPlan

/-- A handler of such an executor keeps the pending plan. -/
theorem AllowedActionExecutor.KeepsPending.callHandler {e : AllowedActionExecutor σ}
    (he : e.KeepsPending) {kind : ActionKind} {handler : ActionHandler σ}
    (h : e.handler kind = some handler) (action : Action) (s : Store σ) :
    (callHandler (some handler) action s).2.pending = s.pending := by
  rcases s with ⟨_ | c, env, calls⟩
  · rfl
  · obtain ⟨hpending, hplan⟩ := he kind handler h action c env
    exact congrArg some (Prod.ext hpending hplan)

/-- A plan of one action that is not risky is not suspended. -/
theorem runPlan_safe {r : Runtime σ} (hkeeps : r.executor.KeepsPending) {plan : Plan}
    {action : Action} (hcounted : plan.counted = [action]) (hrisk : action.risk ≠ .risky)
    (s : Store σ) :
    (r.runPlan plan s).2.pending = s.pending ∧
      ((r.runPlan plan s).2.calls = s.calls ∨
        ((validatePlan plan).ok = true ∧
          (r.runPlan plan s).2.calls = s.calls ++ [action])) := by
  rw [Runtime.runPlan]
  obtain ⟨⟨-, hcalls, -, hpending⟩, -⟩ | ⟨hvalid, ⟨-, hrisky, -⟩ | ⟨-, hexecuted⟩⟩ :=
    r.runPlanWithConfirmation_cases plan false s
  · exact ⟨hpending, .inl hcalls⟩
  · simp [hcounted, hrisk] at hrisky
  obtain ⟨-, hcalls, -, hpending⟩ | ⟨handler, s₁, hhandler, -, hpending₁, hcalls, hpending⟩ :=
    hexecuted.singleton hcounted
  · exact ⟨hpending, .inl hcalls⟩
  · exact ⟨by rw [hpending, hkeeps.callHandler hhandler, hpending₁], .inr ⟨hvalid, hcalls⟩⟩

/-- A valid plan of one risky action is suspended. -/
theorem runPlan_risky {r : Runtime σ} {plan : Plan} {action : Action}
    (hcounted : plan.counted = [action]) (hrisk : action.risk = .risky)
    (hvalid : (validatePlan plan).ok = true) (s : Store σ) :
    Runtime.Suspended plan s (r.runPlan plan s) := by
  rw [Runtime.runPlan]
  obtain ⟨-, hinvalid | ⟨-, hsafe⟩⟩ | ⟨-, ⟨-, hsuspended⟩ | ⟨hsafe, -⟩⟩ :=
    r.runPlanWithConfirmation_cases plan false s
  · simp [hvalid] at hinvalid
  · simp [hcounted, hrisk] at hsafe
  · exact hsuspended
  · simp [hcounted, hrisk] at hsafe

/-- A positive answer to a pending plan that is valid and has one action, with a handler, calls the
handler once. -/
theorem confirmAction_executes {r : Runtime σ} (hconfigured : r.executorConfigured = true)
    {plan : Plan} {action : Action} (hcounted : plan.counted = [action])
    (hvalid : (validatePlan plan).ok = true) (hhandler : r.executor.handler action.kind ≠ none)
    {s : Store σ} (hpending : s.pending = some (true, plan)) :
    (r.executor.KeepsPending → (r.confirmAction true s).2.pending = some (false, default)) ∧
      (r.confirmAction true s).2.calls = s.calls ++ [action] := by
  obtain ⟨hnone, -⟩ | ⟨plan', s₁, hplan, hcalls₁, -, hpending₁, ⟨hfalse, -⟩ | ⟨-, hrun⟩⟩ :=
    r.confirmAction_cases true s
  · exact absurd hpending (hnone plan)
  · simp at hfalse
  obtain rfl : plan = plan' := by simpa [hpending] using hplan
  rw [hrun]
  obtain ⟨-, hinvalid | ⟨hmissing, -⟩⟩ | ⟨-, ⟨hfalse, -⟩ | ⟨-, hexecuted⟩⟩ :=
    r.runPlanWithConfirmation_cases plan true s₁
  · simp [hvalid] at hinvalid
  · simp [hconfigured] at hmissing
  · simp at hfalse
  obtain ⟨hnone, -⟩ | ⟨handler, s₂, hsome, -, hpending₂, hcalls, hdone⟩ :=
    hexecuted.singleton hcounted
  · exact absurd hnone hhandler
  · refine ⟨?_, by rw [hcalls, hcalls₁]⟩
    intro hkeeps
    rw [hdone, hkeeps.callHandler hsome, hpending₂, hpending₁]

end DavOS.Agent
