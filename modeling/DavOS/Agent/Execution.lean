import DavOS.Agent.Gate

/-!
# Which handlers a plan calls

`Performs` says what executing a list of actions means: the handler of each action is called with
that action, one after the other, and the first one that is missing or fails ends it. The loop of
`runPlanWithConfirmation` does that (`performs_executeLoop`), and the rest of the function decides
whether it is reached and what the caller and the context get to know
(`plan_execution_exact`).
-/

namespace DavOS.Agent

variable {σ : Type}

/-! ## The loop over the actions -/

/-- The context as the handler of an action finds it. -/
def Store.begin (action : Action) (s : Store σ) : Store σ :=
  s.onContext fun c => { c with currentTask := action.kind }

/-- The handlers of the actions are called in order, up to the first that is missing or fails. The
list has the calls with their results. -/
inductive Performs (e : AllowedActionExecutor σ) :
    List Action → Store σ → List (Action × ActionResult) → Store σ → Prop
  | done (s : Store σ) : Performs e [] s [] s
  | missing {action : Action} {rest : List Action} {s : Store σ}
      (hnone : e.handler action.kind = none) : Performs e (action :: rest) s [] (s.begin action)
  | failed {action : Action} {rest : List Action} {s s' : Store σ} {h : ActionHandler σ}
      {result : ActionResult} (hsome : e.handler action.kind = some h)
      (hcall : callHandler (some h) action (s.begin action) = (result, s'))
      (hfailed : result.ok = false) : Performs e (action :: rest) s [(action, result)] s'
  | next {action : Action} {rest : List Action} {s s' s'' : Store σ} {h : ActionHandler σ}
      {result : ActionResult} {ran : List (Action × ActionResult)}
      (hsome : e.handler action.kind = some h)
      (hcall : callHandler (some h) action (s.begin action) = (result, s'))
      (hok : result.ok = true) (hrest : Performs e rest s' ran s'') :
      Performs e (action :: rest) s ((action, result) :: ran) s''

/-- Every action of the list was performed, with success. -/
def AllPerformed (actions : List Action) (ran : List (Action × ActionResult)) : Prop :=
  ran.map Prod.fst = actions ∧ ∀ call ∈ ran, call.2.ok = true

/-- A first action that succeeded leaves it to the others. -/
theorem allPerformed_cons {action : Action} {result : ActionResult} {actions : List Action}
    {ran : List (Action × ActionResult)} (hok : result.ok = true) :
    AllPerformed (action :: actions) ((action, result) :: ran) ↔ AllPerformed actions ran := by
  simp [AllPerformed, hok]

/-- The calls that were made are those of the actions that ran. -/
theorem Performs.calls {e : AllowedActionExecutor σ} {actions : List Action} {s s' : Store σ}
    {ran : List (Action × ActionResult)} (h : Performs e actions s ran s') :
    s'.calls = s.calls ++ ran.map Prod.fst := by
  induction h with
  | done s => simp
  | missing _ => simp [Store.begin]
  | failed _ hcall _ =>
    have hcalls := congrArg (fun o => o.2.calls) hcall
    simpa [Store.begin, callHandler_calls] using hcalls.symm
  | next _ hcall _ _ ih =>
    have hcalls := congrArg (fun o => o.2.calls) hcall
    simp only [Store.begin, callHandler_calls, onContext_calls] at hcalls
    rw [ih, ← hcalls, List.map_cons, List.append_assoc]
    rfl

/-- `Execute` fails where there is no handler. -/
theorem execute_missing {e : AllowedActionExecutor σ} {action : Action}
    (h : e.handler action.kind = none) (s : Store σ) :
    (e.execute action s).1.ok = false ∧ (e.execute action s).2 = s := by
  rw [AllowedActionExecutor.execute]
  cases hkind : action.kind
  case unknown | other => exact ⟨rfl, rfl⟩
  all_goals
    rw [hkind] at h
    simp only [AllowedActionExecutor.handler] at h
    simp only [h]
    exact ⟨rfl, rfl⟩

/-- An action is executed by the handler of its kind. -/
theorem execute_of_handler {e : AllowedActionExecutor σ} {action : Action} {h : ActionHandler σ}
    (hsome : e.handler action.kind = some h) (s : Store σ) :
    e.execute action s = callHandler (some h) action s := by
  obtain ⟨hnone, -⟩ | ⟨h', hsome', hcall⟩ := execute_cases e action s
  · simp [hsome] at hnone
  · rw [hsome] at hsome'
    rw [hcall, Option.some.inj hsome']

/-- **The loop performs the actions.** It ends with a result exactly if one of them was missing or
failed. -/
theorem performs_executeLoop (e : AllowedActionExecutor σ) (actions : List Action) (i : ℕ)
    (results : Vector ActionResult maxActions) (s : Store σ) :
    ∃ ran, Performs e actions s ran (executeLoop e actions i results s).2 ∧
      (((executeLoop e actions i results s).1.1 = none ∧ AllPerformed actions ran) ∨
        ∃ result, (executeLoop e actions i results s).1.1 = some result ∧ result.ok = false ∧
          ¬ AllPerformed actions ran) := by
  induction actions generalizing i results s with
  | nil => exact ⟨[], .done s, .inl ⟨rfl, rfl, by simp⟩⟩
  | cons action rest ih =>
    have hbegin : (s.onContext fun c => { c with currentTask := action.kind }) = s.begin action :=
      rfl
    simp only [executeLoop, hbegin]
    cases hhandler : e.handler action.kind with
    | none =>
      obtain ⟨hok, hsame⟩ := execute_missing hhandler (s.begin action)
      rw [if_pos (by simp [hok]), hsame]
      exact ⟨[], .missing hhandler, .inr ⟨_, rfl, hok, by simp [AllPerformed]⟩⟩
    | some h =>
      have hcall := execute_of_handler hhandler (s.begin action)
      rcases hexec : e.execute action (s.begin action) with ⟨result, s'⟩
      rw [hexec] at hcall
      by_cases hok : result.ok = true
      · rw [if_neg (not_not.mpr hok)]
        obtain ⟨ran, hperforms, hend⟩ := ih (i + 1) (results.set! i result) s'
        refine ⟨(action, result) :: ran, .next hhandler hcall.symm hok hperforms, ?_⟩
        simpa only [allPerformed_cons hok] using hend
      · rw [if_pos hok]
        have hfailed : result.ok = false := by simpa using hok
        exact ⟨[(action, result)], .failed hhandler hcall.symm hfailed,
          .inr ⟨result, rfl, hfailed, by simp [AllPerformed, hfailed]⟩⟩

/-- The loop sets the current task before it calls a handler, so that it does not matter what it was
before. -/
theorem executeLoop_begin (e : AllowedActionExecutor σ) {action : Action} {actions : List Action}
    (hhead : actions.head? = some action) (i : ℕ) (results : Vector ActionResult maxActions)
    (s : Store σ) :
    executeLoop e actions i results (s.begin action) = executeLoop e actions i results s := by
  cases actions with
  | nil => simp at hhead
  | cons a rest =>
    obtain rfl : a = action := by simpa using hhead
    have hbegin : (s.begin a).begin a = s.begin a := by
      rcases s with ⟨_ | c, env, calls⟩ <;> rfl
    simp only [Store.begin] at hbegin
    simp only [executeLoop, Store.begin, hbegin]

/-- When all actions were performed, the formatted result is a success. -/
theorem formatResult_ok {e : AllowedActionExecutor σ} {plan : Plan} (hpos : 0 < plan.actionCount)
    {s : Store σ} (hdone : (executeLoop e plan.counted 0 default s).1.1 = none) :
    (formatResult (executeLoop e plan.counted 0 default s).1.2 plan.actionCount).ok = true := by
  rw [formatResult, if_neg (not_le.mpr hpos)]
  by_cases hone : plan.actionCount = 1
  swap
  · rw [if_neg hone]
  rw [if_pos hone]
  rw [counted_eq_singleton hone] at hdone ⊢
  simp only [executeLoop] at hdone ⊢
  split at hdone
  · simp at hdone
  · rename_i hok
    rw [if_neg hok]
    simpa using hok

/-! ## Running a plan -/

/-- A plan with a positive count has a first action. -/
theorem head?_counted {plan : Plan} (h : 0 < plan.actionCount) :
    plan.counted.head? = some plan.actions[0]! := by
  obtain ⟨n, hn⟩ : ∃ n, plan.actionCount.toNat = n + 1 := ⟨plan.actionCount.toNat - 1, by omega⟩
  rw [Plan.counted, hn]
  rcases plan.actions with ⟨⟨l⟩, hl⟩
  cases l with
  | nil => cases hl
  | cons a l => rfl

namespace Runtime

/-- The conditions under which a plan reaches the handlers. -/
structure Reaches (r : Runtime σ) (plan : Plan) (confirmed : Bool) : Prop where
  count_pos : 1 ≤ plan.actionCount
  count_le : plan.actionCount ≤ 4
  valid : (validatePlan plan).ok = true
  allowed : (∀ action ∈ plan.counted, action.risk ≠ .risky) ∨ confirmed = true
  configured : r.executorConfigured = true

/-- The conditions under which a plan is put aside for a confirmation. -/
structure Waits (plan : Plan) (confirmed : Bool) (s : Store σ) : Prop where
  valid : (validatePlan plan).ok = true
  risky : ∃ action ∈ plan.counted, action.risk = .risky
  unconfirmed : confirmed = false
  context : s.context ≠ none

/-- The plan is not executed, and waits if it has to. -/
structure Unexecuted (plan : Plan) (confirmed : Bool) (s : Store σ) (o : Response × Store σ) :
    Prop where
  calls : o.2.calls = s.calls
  env : o.2.env = s.env
  ok : o.1.result.ok = false
  waits : Waits plan confirmed s → o.2.pending = some (true, plan)
  pending : ¬ Waits plan confirmed s → o.2.pending = s.pending

/-- The actions of the plan are performed on the store. -/
def Executes (r : Runtime σ) (plan : Plan) (s : Store σ) (o : Response × Store σ) : Prop :=
  ∃ ran s', Performs r.executor plan.counted s ran s' ∧ o.2.calls = s'.calls ∧ o.2.env = s'.env ∧
    o.2.pending = s'.pending ∧ (o.1.result.ok = true ↔ AllPerformed plan.counted ran)

/-- A risky plan is not allowed without a confirmation. -/
theorem not_allowed {plan : Plan} {confirmed : Bool}
    (hrisky : ∃ action ∈ plan.counted, action.risk = .risky) (hunconfirmed : confirmed = false) :
    ¬ ((∀ action ∈ plan.counted, action.risk ≠ .risky) ∨ confirmed = true) := by
  obtain ⟨action, haction, hrisk⟩ := hrisky
  rintro (hsafe | hconfirmed)
  · exact hsafe action haction hrisk
  · simp [hunconfirmed] at hconfirmed

/-- A plan that reaches its execution does not wait for a confirmation. -/
theorem not_waits_of_reaches {r : Runtime σ} {plan : Plan} {confirmed : Bool} {s : Store σ}
    (h : r.Reaches plan confirmed) : ¬ Waits plan confirmed s := fun hwaits =>
  not_allowed hwaits.risky hwaits.unconfirmed h.allowed

/-- The loop of a valid plan with an executor, and what the function makes of its result. -/
theorem executes_of_loop {r : Runtime σ} {plan : Plan} {s : Store σ} (hpos : 0 < plan.actionCount)
    {o : Response × Store σ}
    (hfailed : ∀ result results s',
      executeLoop r.executor plan.counted 0 default s = ((some result, results), s') →
      o.2.calls = s'.calls ∧ o.2.env = s'.env ∧ o.2.pending = s'.pending ∧
        o.1.result.ok = result.ok)
    (hdone : ∀ results s',
      executeLoop r.executor plan.counted 0 default s = ((none, results), s') →
      o.2.calls = s'.calls ∧ o.2.env = s'.env ∧ o.2.pending = s'.pending ∧
        o.1.result.ok = (formatResult results plan.actionCount).ok) :
    r.Executes plan s o := by
  obtain ⟨ran, hperforms, ⟨hnone, hall⟩ | ⟨result, hsome, hnotOk, hnotAll⟩⟩ :=
    performs_executeLoop r.executor plan.counted 0 default s
  · obtain ⟨hcalls, henv, hpending, hok⟩ := hdone _ _ (Prod.ext (Prod.ext hnone rfl) rfl)
    rw [formatResult_ok hpos hnone] at hok
    exact ⟨ran, _, hperforms, hcalls, henv, hpending, iff_of_true hok hall⟩
  · obtain ⟨hcalls, henv, hpending, hok⟩ := hfailed result _ _ (Prod.ext (Prod.ext hsome rfl) rfl)
    rw [hnotOk] at hok
    exact ⟨ran, _, hperforms, hcalls, henv, hpending, iff_of_false (by simp [hok]) hnotAll⟩

/-- The plan is performed where its handlers are reached, and else left alone. -/
theorem runPlanWithConfirmation_spec (r : Runtime σ) (plan : Plan) (confirmed : Bool)
    (s : Store σ) :
    (r.Reaches plan confirmed ∧ r.Executes plan s (r.runPlanWithConfirmation plan confirmed s)) ∨
      (¬ r.Reaches plan confirmed ∧
        Unexecuted plan confirmed s (r.runPlanWithConfirmation plan confirmed s)) := by
  rw [runPlanWithConfirmation]
  dsimp only
  by_cases hvalid : (validatePlan plan).ok = true
  swap
  · rw [if_pos hvalid]
    exact .inr ⟨fun h => hvalid h.valid, rfl, rfl, by simp, fun h => absurd h.valid hvalid,
      fun _ => by simp⟩
  rw [if_neg (not_not.mpr hvalid)]
  obtain ⟨hpos, hle, -⟩ := validatePlan_ok_iff.mp hvalid
  have hpending : ∀ kind, (s.onContext fun c => { c with currentTask := kind }).pending =
      s.pending := fun kind => currentTask_pending kind s
  obtain ⟨hsafety, hallowed⟩ | ⟨hunconfirmed, hrisky, hsafety⟩ := evaluateSafety_cases plan
    confirmed (s.onContext fun c => { c with currentTask := plan.actions[0]!.kind })
  · rw [hsafety]
    simp only [ne_eq, not_true_eq_false, if_false]
    have hnot : ¬ Waits plan confirmed s := fun hwaits =>
      not_allowed hwaits.risky hwaits.unconfirmed hallowed.symm
    by_cases hconf : r.executorConfigured = true
    swap
    · rw [if_pos hconf]
      exact .inr ⟨fun h => hconf h.configured, rfl, rfl, by simp, fun h => absurd h hnot,
        fun _ => by simpa using hpending _⟩
    rw [if_neg (not_not.mpr hconf)]
    refine .inl ⟨⟨by omega, hle, hvalid, hallowed.symm, hconf⟩, ?_⟩
    have hbegin : (s.onContext fun c => { c with currentTask := plan.actions[0]!.kind }) =
        s.begin plan.actions[0]! := rfl
    rw [hbegin, executeLoop_begin r.executor (head?_counted hpos)]
    refine executes_of_loop hpos ?_ ?_
    · intro result results s' hloop
      rw [hloop]
      exact ⟨rfl, rfl, by simp, by simp⟩
    · intro results s' hloop
      rw [hloop]
      exact ⟨rfl, rfl, by simp, by simp⟩
  · rw [hsafety]
    simp only [ne_eq, reduceCtorEq, not_false_eq_true, if_true]
    refine .inr ⟨fun hreaches => not_allowed hrisky hunconfirmed hreaches.allowed, rfl, rfl,
      by simp, ?_, ?_⟩
    · intro hwaits
      rw [finishPlanContext_pending]
      rcases s with ⟨_ | c, env, calls⟩
      · exact absurd rfl hwaits.context
      · rfl
    · intro hnot
      rw [finishPlanContext_pending]
      rcases s with ⟨_ | c, env, calls⟩
      · rfl
      · exact absurd ⟨hvalid, hrisky, hunconfirmed, by simp⟩ hnot

/-- **Plan execution is exact.** For every plan, executor, context and answer: the handlers are
reached exactly under the conditions of `Reaches`, they are then called as `Performs` says, the
result is a success exactly if all of them ran and succeeded, and the plan becomes the pending one
exactly if it has to wait. -/
theorem plan_execution_exact (r : Runtime σ) (plan : Plan) (confirmed : Bool) (s : Store σ) :
    let o := r.runPlanWithConfirmation plan confirmed s
    (¬ r.Reaches plan confirmed →
      o.2.calls = s.calls ∧ o.2.env = s.env ∧ o.1.result.ok = false) ∧
    (r.Reaches plan confirmed → ∃ ran s', Performs r.executor plan.counted s ran s' ∧
      o.2.calls = s.calls ++ ran.map Prod.fst ∧ o.2.env = s'.env ∧ o.2.pending = s'.pending ∧
      (o.1.result.ok = true ↔
        ran.map Prod.fst = plan.counted ∧ ∀ call ∈ ran, call.2.ok = true)) ∧
    (Waits plan confirmed s → o.2.pending = some (true, plan)) ∧
    (¬ Waits plan confirmed s → ¬ r.Reaches plan confirmed → o.2.pending = s.pending) := by
  intro o
  obtain ⟨hreaches, ran, s', hperforms, hcalls, henv, hpending, hok⟩ | ⟨hnot, hrest⟩ :=
    r.runPlanWithConfirmation_spec plan confirmed s
  · exact ⟨fun h => absurd hreaches h,
      fun _ => ⟨ran, s', hperforms, hcalls.trans hperforms.calls, henv, hpending, hok⟩,
      fun h => absurd h (not_waits_of_reaches hreaches), fun _ h => absurd hreaches h⟩
  · exact ⟨fun _ => ⟨hrest.calls, hrest.env, hrest.ok⟩, fun h => absurd h hnot, hrest.waits,
      fun h _ => hrest.pending h⟩

end Runtime

/-! ## What the handlers leave alone -/

section Keeps

variable {α : Type} {f : σ → α}

/-- The handlers leave alone what `f` reads of the world. -/
def AllowedActionExecutor.Keeps (e : AllowedActionExecutor σ) (f : σ → α) : Prop :=
  ∀ kind handler, e.handler kind = some handler → ∀ action env,
    f (handler.onNil action env).2 = f env ∧ ∀ c, f (handler.onContext action c env).2.2 = f env

variable {e : AllowedActionExecutor σ}

/-- A handler of such an executor keeps `f`. -/
theorem AllowedActionExecutor.Keeps.callHandler (he : e.Keeps f) {kind : ActionKind}
    {handler : ActionHandler σ} (h : e.handler kind = some handler) (action : Action)
    (s : Store σ) : f (callHandler (some handler) action s).2.env = f s.env := by
  rcases s with ⟨_ | c, env, calls⟩
  · exact (he kind handler h action env).1
  · exact (he kind handler h action env).2 c

/-- So does any sequence of actions. -/
theorem Performs.keeps (he : e.Keeps f) {actions : List Action} {s s' : Store σ}
    {ran : List (Action × ActionResult)} (h : Performs e actions s ran s') :
    f s'.env = f s.env := by
  induction h with
  | done s => rfl
  | missing _ => rfl
  | failed hsome hcall _ =>
    have hkept := congrArg (fun o => f o.2.env) hcall
    simp only [he.callHandler hsome] at hkept
    exact hkept.symm
  | next hsome hcall _ _ ih =>
    have hkept := congrArg (fun o => f o.2.env) hcall
    simp only [he.callHandler hsome] at hkept
    exact ih.trans hkept.symm

/-- So does running a plan, confirmed or not. -/
theorem runPlanWithConfirmation_keeps {r : Runtime σ} (he : r.executor.Keeps f) (plan : Plan)
    (confirmed : Bool) (s : Store σ) :
    f (r.runPlanWithConfirmation plan confirmed s).2.env = f s.env := by
  obtain ⟨-, ran, s', hperforms, -, henv, -⟩ | ⟨-, hrest⟩ :=
    r.runPlanWithConfirmation_spec plan confirmed s
  · rw [henv]
    exact hperforms.keeps he
  · rw [hrest.env]

/-- So does the answer to a confirmation. -/
theorem confirmAction_keeps {r : Runtime σ} (he : r.executor.Keeps f) (confirmed : Bool)
    (s : Store σ) : f (r.confirmAction confirmed s).2.env = f s.env := by
  obtain ⟨-, hsame⟩ | ⟨plan, s₁, -, -, henv, -, ⟨-, -, -, henv', -⟩ | ⟨-, hrun⟩⟩ :=
    r.confirmAction_cases confirmed s
  · rw [hsame]
  · rw [henv']
  · rw [hrun, runPlanWithConfirmation_keeps he, henv]

end Keeps

end DavOS.Agent
