import DavOS.Agent.Gate

/-!
# Containment of the LLM planner

Three filters stand between a bridge response and a handler: the list of allowed actions that the
planner sends along, the intent that belongs to each of them, and `validatePlan` with its checks for
plans of the LLM planner. Together they leave one action of eight kinds, with the risk of its kind
and a target in bounds, and the safety gate takes the deletion out of these.
-/

namespace DavOS.Agent

variable {σ : Type}

namespace LLMPlanner

/-- The action of a plan made from a bridge response. -/
def responseAction (response : BridgeResponse) : Action where
  kind := response.action
  risk := response.risk
  target := response.target
  targetLen := response.targetLen
  data := default
  dataLen := 0

/-- The plan of a response has one action. -/
theorem responsePlan_counted (response : BridgeResponse) :
    (responsePlan response).counted = [responseAction response] :=
  counted_eq_singleton rfl

/-- The kinds of action on the list that `newBridgeRequest` sends. -/
def allowedKinds : List ActionKind :=
  [.listFiles, .readFile, .statFile, .deleteFile, .showHistory, .showVersion, .showTicks,
    .showMemoryMap]

/-- The request allows the actions of the list. -/
theorem allows_iff {input : List UInt8} {context : Option Context} {kind : ActionKind} :
    (newBridgeRequest input context).allows kind = true ↔ kind ∈ allowedKinds := by
  have hlist : (newBridgeRequest input context).allows kind =
      allowedKinds.any fun k => k = kind := rfl
  rw [hlist, List.any_eq_true]
  simp

/-- A plan that the planner returns is one of these. -/
theorem plan_ok {p : LLMPlanner σ} {input : List UInt8} {context : Option Context} {env : σ}
    (h : (p.plan input context env).1.ok = true) :
    ∃ response, (p.plan input context env).1.plan = responsePlan response ∧
      response.action ∈ allowedKinds ∧ rejectAction .llm (responseAction response) = none := by
  rcases p with ⟨_ | bridge⟩
  · simp [plan] at h
  simp only [plan] at h ⊢
  split_ifs at h ⊢ with hok hallowed hintent hvalid
  refine ⟨_, rfl, allows_iff.mp hallowed, ?_⟩
  have hactions := (validatePlan_ok_iff.mp hvalid).2.2
  rw [responsePlan_counted] at hactions
  exact hactions _ (List.mem_singleton.mpr rfl)

end LLMPlanner

/-- What the planner of LLM mode does to the store, and what it plans. -/
theorem planInput_llm (configured : Option (LLMPlanner σ)) (input : List UInt8) (s : Store σ) :
    let o := Runtime.planInput (configured.map LLMPlanner.toPlanner) .llm input s
    o.2.calls = s.calls ∧ o.2.pending = s.pending ∧
      (o.1.ok = true → ∃ response, o.1.plan = LLMPlanner.responsePlan response ∧
        response.action ∈ LLMPlanner.allowedKinds ∧
        rejectAction .llm (LLMPlanner.responseAction response) = none) := by
  cases configured with
  | none => exact ⟨rfl, rfl, by simp [Runtime.planInput]⟩
  | some p => exact ⟨rfl, rfl, LLMPlanner.plan_ok⟩

/-- A validated action of the LLM planner is one of the seven harmless ones or a risky deletion. -/
theorem allowedKinds_cases {action : Action} (hkind : action.kind ∈ LLMPlanner.allowedKinds)
    (hvalid : rejectAction .llm action = none) :
    (action.kind = .deleteFile ∧ action.risk = .risky ∧ 1 ≤ action.targetLen) ∨
    (action.kind ∈ [ActionKind.listFiles, .readFile, .statFile, .showHistory, .showVersion,
        .showTicks, .showMemoryMap] ∧ action.risk = .safe ∧
      (action.kind = .readFile ∨ action.kind = .statFile → 1 ≤ action.targetLen)) := by
  obtain ⟨-, -, ⟨hlen, -⟩, -, htarget, hrisk⟩ := rejectAction_eq_none_iff.mp hvalid
  rw [← hrisk rfl, actionRisk]
  have hpos : actionRequiresTarget action.kind = true → 1 ≤ action.targetLen := by
    intro h
    have := htarget h
    omega
  by_cases hdelete : action.kind = .deleteFile
  · exact .inl ⟨hdelete, if_pos hdelete, hpos (by rw [hdelete]; rfl)⟩
  · refine .inr ⟨?_, if_neg hdelete, ?_⟩
    · simpa [LLMPlanner.allowedKinds, hdelete] using hkind
    · intro h
      apply hpos
      rcases h with h | h <;> rw [h] <;> rfl

/-- **The LLM planner is contained.** Whatever the bridge answers, `Run` in LLM mode makes no
handler call and leaves the pending plan alone or makes a single deletion pending, or it makes one
call, of one of seven harmless handlers, on a context whose pending plan it has not touched. -/
theorem llm_run_contained (r : Runtime σ) (hmode : r.plannerMode = .llm)
    (configured : Option (LLMPlanner σ)) (input : List UInt8) (s : Store σ) :
    let s' := (r.run (configured.map LLMPlanner.toPlanner) input s).2
    (s'.calls = s.calls ∧
      (s'.pending = s.pending ∨
        ∃ (plan : Plan) (action : Action), s'.pending = s.pending.map (fun _ => (true, plan)) ∧
          plan.actionCount = 1 ∧ plan.counted = [action] ∧ action.kind = .deleteFile ∧
          action.risk = .risky ∧ 1 ≤ action.targetLen ∧ action.targetLen ≤ maxNameLen)) ∨
    ∃ (action : Action) (handler : ActionHandler σ) (s₁ : Store σ), s'.calls = s.calls ++ [action] ∧
      action.kind ∈ [ActionKind.listFiles, .readFile, .statFile, .showHistory, .showVersion,
        .showTicks, .showMemoryMap] ∧
      action.risk = .safe ∧ 0 ≤ action.targetLen ∧ action.targetLen ≤ maxNameLen ∧
      (action.kind = .readFile ∨ action.kind = .statFile → 1 ≤ action.targetLen) ∧
      action.dataLen = 0 ∧ r.executor.handler action.kind = some handler ∧
      s₁.pending = s.pending ∧
      s'.pending = (callHandler (some handler) action s₁).2.pending := by
  rw [Runtime.run, hmode]
  set s₀ := s.onContext fun c => c.beginStringRequest input .llm
  have hpending₀ : s₀.pending = s.pending := by
    refine onContext_pending ?_ s
    intro c
    rfl
  obtain ⟨hcalls, hpending, hplan⟩ := planInput_llm configured input s₀
  rcases hplanned : Runtime.planInput (configured.map LLMPlanner.toPlanner) .llm input s₀ with
    ⟨planning, s₁⟩
  rw [hplanned] at hcalls hpending hplan
  rw [hpending₀] at hpending
  replace hcalls : s₁.calls = s.calls := hcalls
  dsimp only at hcalls hpending hplan ⊢
  by_cases hok : planning.ok = true
  swap
  · rw [if_pos hok]
    refine .inl ⟨hcalls, .inl (Eq.trans ?_ hpending)⟩
    refine onContext_pending ?_ s₁
    intro c
    rfl
  rw [if_neg (not_not.mpr hok)]
  obtain ⟨response, hresponse, hkind, hvalid⟩ := hplan hok
  have hcounted := LLMPlanner.responsePlan_counted response
  obtain ⟨-, -, ⟨hlow, hhigh⟩, hdata, -, -⟩ := rejectAction_eq_none_iff.mp hvalid
  rw [hresponse, Runtime.runPlan]
  -- the filters leave a risky deletion or a safe action of another kind; the gate tells them apart
  have hcases := allowedKinds_cases hkind hvalid
  generalize LLMPlanner.responseAction response = action at hcounted hcases hlow hhigh hdata
  obtain ⟨hturned, -⟩ | ⟨-, ⟨-, hsuspended⟩ | ⟨hsafe, hexecuted⟩⟩ :=
    r.runPlanWithConfirmation_cases (LLMPlanner.responsePlan response) false s₁
  · obtain ⟨-, hcalls', -, hpending'⟩ := hturned
    exact .inl ⟨hcalls'.trans hcalls, .inl (hpending'.trans hpending)⟩
  · obtain ⟨hrisky, -, -, hcalls', -, hpending'⟩ := hsuspended
    rw [hcounted] at hrisky
    obtain ⟨hdelete, hrisk, hpos⟩ | ⟨-, hrisk, -⟩ := hcases
    · refine .inl ⟨hcalls'.trans hcalls, .inr ⟨_, action, ?_, rfl, hcounted, hdelete, hrisk, hpos,
        hhigh⟩⟩
      rw [hpending', hpending]
    · simp [hrisk] at hrisky
  · obtain ⟨-, hcalls', -, hpending'⟩ | ⟨handler, s₂, hhandler, -, hpending₂, hcalls', hpending'⟩ :=
      hexecuted.singleton hcounted
    · exact .inl ⟨hcalls'.trans hcalls, .inl (hpending'.trans hpending)⟩
    · obtain ⟨-, hrisk, -⟩ | ⟨hkinds, hrisk, hpos⟩ := hcases
      · simp [hcounted, hrisk] at hsafe
      · exact .inr ⟨action, handler, s₂, by rw [hcalls', hcalls], hkinds, hrisk, hlow, hhigh, hpos,
          hdata, hhandler, hpending₂.trans hpending, hpending'⟩

/-- A bridge that asks for a deletion and calls it safe. -/
def hostileBridge : BridgeClient Unit where
  plan _ env := (⟨true, ⟨.deleteFile, .deleteFile, .safe, default, 1⟩, .none⟩, env)

/-- A runtime in LLM mode without handlers. -/
def bareRuntime : Runtime Unit where
  executor := ⟨none, none, none, none, none, none, none, none, none, none, none⟩
  executorConfigured := true
  plannerMode := .llm
  llmConfigured := true

/-- A handler that says that all went well. -/
def willingHandler : ActionHandler Unit :=
  ⟨fun _ env => (⟨true, .ok⟩, env), fun _ c env => (⟨true, .ok⟩, c, env)⟩

/-- A runtime in LLM mode with a handler for each kind of action. -/
def willingRuntime : Runtime Unit where
  executor := ⟨some willingHandler, some willingHandler, some willingHandler, some willingHandler,
    some willingHandler, some willingHandler, some willingHandler, some willingHandler,
    some willingHandler, some willingHandler, some willingHandler⟩
  executorConfigured := true
  plannerMode := .llm
  llmConfigured := true

/-- The handler of deletions would do it, and is not called. -/
theorem hostile_run_contained :
    willingRuntime.executor.handler .deleteFile = some willingHandler ∧
      ∀ action ∈ (willingRuntime.run (some (LLMPlanner.mk (some hostileBridge)).toPlanner) []
        ⟨some default, (), []⟩).2.calls, action.kind ≠ .deleteFile := by
  refine ⟨rfl, fun action haction hdelete => ?_⟩
  obtain ⟨hcalls, -⟩ | ⟨called, -, -, hcalls, hkind, -⟩ :=
    llm_run_contained willingRuntime rfl (some ⟨some hostileBridge⟩) [] ⟨some default, (), []⟩
  · replace haction := hcalls ▸ haction
    cases haction
  · replace haction := hcalls ▸ haction
    obtain rfl : action = called := List.mem_singleton.mp haction
    rw [hdelete] at hkind
    exact absurd hkind (by decide)

end DavOS.Agent
