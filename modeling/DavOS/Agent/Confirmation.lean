import DavOS.Agent.Containment
import DavOS.Lib.CopyLoop

/-!
# Sequences of calls to the runtime

The exported entry points of `Runtime` are run one after the other on one context. A `Record` says
what a caller sees of a call, and which handler calls happened during it. `ConfirmedDeletions` is
the promise of the safety gate: a deletion is executed only when a request for it is confirmed,
once.

The gate looks at the risk that comes with a request, and for requests outside LLM mode nothing
checks that the risk fits the action. A deletion that is requested as safe is executed at once
(`safe_deletion_unconfirmed`); without such requests the promise holds
(`honest_run_confirms_deletions`).
-/

namespace DavOS.Agent

variable {σ : Type}

inductive Entry
  | run (input : List UInt8)
  | runAction (kind : ActionKind) (intent : IntentKind) (risk : RiskLevel) (target : Option Name)
      (targetLen : ℤ)
  | runActionRequest (kind : ActionKind) (intent : IntentKind) (risk : RiskLevel)
      (target : Option Name) (targetLen : ℤ) (input : Option (Vector UInt8 maxContextInput))
      (inputLen : ℤ)
  | runActionMessage (kind : ActionKind) (intent : IntentKind) (risk : RiskLevel)
      (target : Option Name) (targetLen : ℤ)
  | runActionRequestMessage (kind : ActionKind) (intent : IntentKind) (risk : RiskLevel)
      (target : Option Name) (targetLen : ℤ) (input : Option (Vector UInt8 maxContextInput))
      (inputLen : ℤ)
  | confirmAction (confirmed : Bool)
  | confirmActionMessage (confirmed : Bool)
  | setPlannerMode (mode : PlannerMode)

inductive Reply
  | response (response : Response)
  | message (message : MessageKind)
  | result (result : ActionResult)

def Reply.ConfirmationRequired : Reply → Prop
  | response r => r.safety.status = .confirmationRequired
  | message m => m = .confirmationRequired
  | result _ => False

namespace Entry

/-- The argument of a confirmation. -/
def answer : Entry → Option Bool
  | confirmAction confirmed | confirmActionMessage confirmed => some confirmed
  | _ => none

/-- The target bytes that a request names. -/
def target : Entry → Option (List UInt8)
  | runAction _ _ _ (some target) targetLen | runActionRequest _ _ _ (some target) targetLen _ _
  | runActionMessage _ _ _ (some target) targetLen
  | runActionRequestMessage _ _ _ (some target) targetLen _ _ =>
    some (target.toList.take targetLen.toNat)
  | _ => none

/-- A request outside LLM mode does not call a deletion safe. -/
def Honest (mode : PlannerMode) : Entry → Prop
  | runAction kind _ risk _ _ | runActionRequest kind _ risk _ _ _ _
  | runActionMessage kind _ risk _ _ | runActionRequestMessage kind _ risk _ _ _ _ =>
    mode ≠ .llm → kind = .deleteFile → risk ≠ .safe
  | _ => True

end Entry

structure State (σ : Type) where
  runtime : Runtime σ
  store : Store σ

namespace State

variable (configured : Option (Planner σ))

/-- One call, of a runtime that is not `nil`. -/
def step (st : State σ) : Entry → Reply × State σ
  | .run input =>
    let o := st.runtime.run configured input st.store
    (.response o.1, { st with store := o.2 })
  | .runAction kind intent risk target targetLen =>
    let o := st.runtime.runAction kind intent risk target targetLen st.store
    (.response o.1, { st with store := o.2 })
  | .runActionRequest kind intent risk target targetLen input inputLen =>
    let o := st.runtime.runActionRequest kind intent risk target targetLen input inputLen st.store
    (.response o.1, { st with store := o.2 })
  | .runActionMessage kind intent risk target targetLen =>
    let o := Runtime.runActionMessage (some st.runtime) kind intent risk target targetLen st.store
    (.message o.1, { st with store := o.2 })
  | .runActionRequestMessage kind intent risk target targetLen input inputLen =>
    let o := Runtime.runActionRequestMessage (some st.runtime) kind intent risk target targetLen
      input inputLen st.store
    (.message o.1, { st with store := o.2 })
  | .confirmAction confirmed =>
    let o := st.runtime.confirmAction confirmed st.store
    (.response o.1, { st with store := o.2 })
  | .confirmActionMessage confirmed =>
    let o := Runtime.confirmActionMessage (some st.runtime) confirmed st.store
    (.message o.1, { st with store := o.2 })
  | .setPlannerMode mode =>
    let o := st.runtime.setPlannerMode mode
    (.result o.1, { st with runtime := o.2 })

/-- The plan that a request hands to `runPlan`. -/
def submitted (st : State σ) : Entry → Option Plan
  | .run input =>
    let mode := st.runtime.plannerMode
    let planning := (Runtime.planInput configured mode input
      (st.store.onContext fun c => c.beginStringRequest input mode)).1
    if planning.ok then some planning.plan else none
  | .runAction kind intent risk target targetLen
  | .runActionRequest kind intent risk target targetLen _ _ =>
    some (Runtime.requestPlan st.runtime.plannerMode kind intent risk target targetLen)
  | .runActionMessage kind intent risk target targetLen
  | .runActionRequestMessage kind intent risk target targetLen _ _ =>
    if targetLen < 0 ∨ targetLen > maxNameLen then none
    else some (Runtime.requestPlan st.runtime.plannerMode kind intent risk target targetLen)
  | .confirmAction _ | .confirmActionMessage _ | .setPlannerMode _ => none

end State

/-- One call, as seen from outside, and the handler calls during it. -/
structure Record where
  entry : Entry
  plan : Option Plan
  reply : Reply
  calls : List Action

def State.record (configured : Option (Planner σ)) (st : State σ) (e : Entry) : Record where
  entry := e
  plan := st.submitted configured e
  reply := (st.step configured e).1
  calls := (st.step configured e).2.store.calls.drop st.store.calls.length

/-- The histories and states that sequences of calls lead to, all of which satisfy `P`. -/
inductive Run (configured : Option (Planner σ)) (P : State σ → Entry → Prop) (st₀ : State σ) :
    List Record → State σ → Prop
  | start : Run configured P st₀ [] st₀
  | step {h : List Record} {st : State σ} (e : Entry) : Run configured P st₀ h st → P st e →
      Run configured P st₀ (h ++ [st.record configured e]) (st.step configured e).2

/-- The first confirmation after call `i` is a positive one, in call `j`. -/
def AnsweredBy (h : List Record) (i j : ℕ) : Prop :=
  i < j ∧ (∃ r, h[j]? = some r ∧ r.entry.answer = some true) ∧
    ∀ k r, i < k → k < j → h[k]? = some r → r.entry.answer = none

/-- **The promise of the safety gate.** A deletion handler is called only in a positive
confirmation, as the only handler call there, for the plan of a request that had returned that it
needs one, with the target of that request. The confirmation is the first one after the request, so
that no other call executes that plan. -/
def ConfirmedDeletions (h : List Record) : Prop :=
  ∀ j r, h[j]? = some r → ∀ action ∈ r.calls, action.kind = .deleteFile →
    ∃ i request plan, h[i]? = some request ∧ request.plan = some plan ∧
      request.reply.ConfirmationRequired ∧ AnsweredBy h i j ∧ (∀ j', AnsweredBy h i j' → j' = j) ∧
      plan.counted = [action] ∧ r.calls = [action] ∧
      ∀ target, request.entry.target = some target →
        action.target.toList.take action.targetLen.toNat = target

/-! ## Requests are plans of one action -/

/-- The action of the plan that `runAction` builds. -/
theorem requestPlan_counted (mode : PlannerMode) (kind : ActionKind) (intent : IntentKind)
    (risk : RiskLevel) (target : Option Name) (targetLen : ℤ) :
    ∃ action, (Runtime.requestPlan mode kind intent risk target targetLen).counted = [action] ∧
      action.kind = kind ∧ action.risk = risk ∧
      ∀ name, target = some name →
        action.target.toList.take action.targetLen.toNat = name.toList.take targetLen.toNat := by
  rcases target with _ | name
  · exact ⟨_, counted_eq_singleton rfl, rfl, rfl, by simp⟩
  by_cases hpos : targetLen > 0
  swap
  · simp only [Runtime.requestPlan, if_neg hpos]
    refine ⟨_, counted_eq_singleton rfl, rfl, rfl, ?_⟩
    intro _ _
    rw [Int.toNat_of_nonpos (not_lt.mp hpos)]
    rfl
  simp only [Runtime.requestPlan, if_pos hpos]
  refine ⟨_, counted_eq_singleton rfl, rfl, rfl, ?_⟩
  intro name' hname
  obtain rfl := Option.some.inj hname
  set len := if targetLen > maxNameLen then (maxNameLen : ℤ) else targetLen with hlen
  have hmax : len.toNat ≤ maxNameLen := by
    rw [hlen]
    split_ifs <;> omega
  have hcopy : ((List.range len.toNat).foldl (fun b i => b.set! i name[i]!)
      (default : Name)).toList.take len.toNat = name.toList.take len.toNat := by
    rw [CopyLoop.toList_foldl_set! _ hmax, List.take_left' (by simp),
      CopyLoop.map_range_getElem! _ hmax]
  refine Eq.trans hcopy ?_
  rw [hlen]
  split_ifs with hlong
  · rw [List.take_of_length_le (by simp), List.take_of_length_le (by simp; omega)]
  · rfl

/-- The plan of a deletion request for a name of `n` bytes. -/
theorem deletePlan_spec (mode : PlannerMode) (name : Name) {n : ℕ} (hpos : 1 ≤ n)
    (hle : n ≤ maxNameLen) :
    let plan := Runtime.requestPlan mode .deleteFile .deleteFile .risky (some name) n
    (validatePlan plan).ok = true ∧ ∃ action, plan.counted = [action] ∧
      action.kind = .deleteFile ∧ action.risk = .risky ∧ action.targetLen = n ∧
      action.target.toList.take n = name.toList.take n := by
  intro plan
  obtain ⟨action, hcounted, hkind, hrisk, htarget⟩ :=
    requestPlan_counted mode .deleteFile .deleteFile .risky (some name) n
  have hplan : plan.actionCount = 1 ∧ plan.actions[0]!.targetLen = n ∧
      plan.actions[0]!.dataLen = 0 := by
    have hn : (n : ℤ) > 0 := by omega
    have hn' : ¬ (n : ℤ) > maxNameLen := by omega
    simp only [plan, Runtime.requestPlan, if_pos hn, if_neg hn']
    exact ⟨rfl, rfl, rfl⟩
  obtain ⟨hcount, hlen, hdata⟩ := hplan
  obtain rfl : plan.actions[0]! = action := by
    have hsingle := counted_eq_singleton hcount
    rw [hcounted] at hsingle
    simpa using hsingle.symm
  have htake := htarget name rfl
  rw [hlen, Int.toNat_natCast] at htake
  refine ⟨?_, _, hcounted, hkind, hrisk, hlen, htake⟩
  have hle : n ≤ 16 := hle
  exact validatePlan_deletion hcount hkind hrisk hdata (by omega) (by omega)

/-- What the deterministic planner plans: one action, and a deletion only as a risky one. -/
def PlansOne (plan : Plan) : Prop :=
  plan.planner = .deterministic ∧ ∃ action, plan.counted = [action] ∧
    (action.kind = .deleteFile → action.risk = .risky)

/-- `singleActionPlan` plans one action. -/
theorem plansOne_singleActionPlan (intent : IntentKind) {kind : ActionKind} {risk : RiskLevel}
    (h : kind = .deleteFile → risk = .risky) :
    PlansOne (singleActionPlan .deterministic intent kind risk) :=
  ⟨rfl, _, counted_eq_singleton rfl, h⟩

/-- `singleTargetPlan` plans one action, whether or not it finds a target. -/
theorem plansOne_singleTargetPlan (intent : IntentKind) {kind : ActionKind} {risk : RiskLevel}
    (h : kind = .deleteFile → risk = .risky) (input : List UInt8) :
    PlansOne (singleTargetPlan .deterministic intent kind risk input) := by
  rw [singleTargetPlan]
  split
  split
  · exact ⟨rfl, _, counted_eq_singleton rfl, h⟩
  · exact ⟨rfl, _, counted_eq_singleton rfl, h⟩

/-- A choice plans one action if both branches do. -/
theorem plansOne_ite {p : Prop} [Decidable p] {a b : PlanningResult} (ha : PlansOne a.plan)
    (hb : PlansOne b.plan) : PlansOne (if p then a else b).plan := by
  split <;> assumption

/-- The deterministic planner plans one action in each of its branches. -/
theorem plansOne_deterministicPlan (input : List UInt8) :
    PlansOne (deterministicPlan input).plan := by
  have hsafe : ∀ intent kind, kind ≠ .deleteFile →
      PlansOne (successfulPlan (singleActionPlan .deterministic intent kind .safe)).plan :=
    fun intent kind h => plansOne_singleActionPlan intent fun hkind => absurd hkind h
  have htarget : ∀ intent kind risk, (kind = .deleteFile → risk = .risky) →
      PlansOne (successfulPlan (singleTargetPlan .deterministic intent kind risk input)).plan :=
    fun intent kind risk h => plansOne_singleTargetPlan intent h input
  unfold deterministicPlan
  apply plansOne_ite (hsafe .showHelp .showHelp (by simp))
  apply plansOne_ite (hsafe .showMemoryMap .showMemoryMap (by simp))
  apply plansOne_ite (hsafe .showVersion .showVersion (by simp))
  apply plansOne_ite (hsafe .showTicks .showTicks (by simp))
  apply plansOne_ite (hsafe .showHistory .showHistory (by simp))
  apply plansOne_ite (htarget .setMode .setMode .safe (by simp))
  apply plansOne_ite (htarget .deleteFile .deleteFile .risky (by simp))
  apply plansOne_ite (htarget .readFile .readFile .safe (by simp))
  apply plansOne_ite (htarget .statFile .statFile .safe (by simp))
  apply plansOne_ite (hsafe .listFiles .listFiles (by simp))
  apply plansOne_ite (htarget .readFile .readFile .safe (by simp))
  exact hsafe .unknown .unknown (by simp)

/-! ## One call -/

/-- What a request of one action does: nothing that matters here, one handler call that is not a
deletion, or it suspends its plan. -/
def RequestEffect (s : Store σ) (plan : Plan) (o : Response × Store σ) : Prop :=
  (o.2.pending = s.pending ∧ (o.2.calls = s.calls ∨
    ∃ action, o.2.calls = s.calls ++ [action] ∧ action.kind ≠ .deleteFile)) ∨
  (o.2.calls = s.calls ∧ o.1.safety.status = .confirmationRequired ∧
    o.1.result.message = .confirmationRequired ∧
    o.2.pending = s.pending.map fun _ => (true, plan))

/-- Running a plan of one action executes it, makes it pending or refuses it. -/
theorem runPlan_single {r : Runtime σ} (hkeeps : r.executor.KeepsPending) {plan : Plan}
    {action : Action} (hcounted : plan.counted = [action])
    (hhonest : plan.planner ≠ .llm → action.kind = .deleteFile → action.risk ≠ .safe)
    (s : Store σ) : RequestEffect s plan (r.runPlan plan s) := by
  by_cases hrisky : action.risk = .risky
  · by_cases hvalid : (validatePlan plan).ok = true
    · obtain ⟨-, hstatus, hmessage, hcalls, -, hpending⟩ :=
        runPlan_risky (r := r) hcounted hrisky hvalid s
      exact .inr ⟨hcalls, hstatus, hmessage, hpending⟩
    · obtain ⟨⟨-, hcalls, -, hpending⟩, -⟩ | ⟨hok, -⟩ :=
        r.runPlanWithConfirmation_cases plan false s
      · exact .inl ⟨hpending, .inl hcalls⟩
      · exact absurd hok hvalid
  obtain ⟨hpending, hcalls | ⟨hvalid, hcalls⟩⟩ := runPlan_safe hkeeps hcounted hrisky s
  · exact .inl ⟨hpending, .inl hcalls⟩
  refine .inl ⟨hpending, .inr ⟨action, hcalls, ?_⟩⟩
  -- a valid action is safe or risky; a deletion would not be safe, and this action is not risky
  intro hdelete
  obtain ⟨-, hrisk, -, -, -, hllm⟩ := rejectAction_eq_none_iff.mp
    ((validatePlan_ok_iff.mp hvalid).2.2 action (by simp [hcounted]))
  by_cases hplanner : plan.planner = .llm
  · rw [← hllm hplanner, hdelete] at hrisky
    exact hrisky rfl
  · rcases hkind : action.risk with _ | _ | code
    · exact hhonest hplanner hdelete hkind
    · exact hrisky hkind
    · simp [hkind, validRiskLevel] at hrisk

/-- What a confirmation does, if the pending plan has one action: afterwards nothing is pending, and
the only handler call it can make is the pending action, if the answer is positive. -/
theorem confirmAction_single {r : Runtime σ} (hkeeps : r.executor.KeepsPending) (confirmed : Bool)
    {s : Store σ} (hone : ∀ plan, s.pending = some (true, plan) →
      ∃ action, plan.counted = [action]) :
    let s' := (r.confirmAction confirmed s).2
    (∀ plan, s'.pending ≠ some (true, plan)) ∧
      (s'.calls = s.calls ∨ confirmed = true ∧ ∃ plan action, s.pending = some (true, plan) ∧
        plan.counted = [action] ∧ s'.calls = s.calls ++ [action]) := by
  obtain ⟨hnone, hsame⟩ | ⟨plan, s₁, hpending, hcalls₁, -, hpending₁, h⟩ :=
    r.confirmAction_cases confirmed s
  · rw [hsame]
    exact ⟨hnone, .inl rfl⟩
  obtain ⟨-, -, hcalls, -, hdone⟩ | ⟨hconfirmed, hrun⟩ := h
  · exact ⟨by simp [hdone], .inl hcalls⟩
  rw [hrun]
  obtain ⟨⟨-, hcalls, -, hdone⟩, -⟩ | ⟨-, ⟨hfalse, -⟩ | ⟨-, hexecuted⟩⟩ :=
    r.runPlanWithConfirmation_cases plan true s₁
  · exact ⟨by simp [hdone, hpending₁], .inl (hcalls.trans hcalls₁)⟩
  · simp at hfalse
  obtain ⟨action, hcounted⟩ := hone plan hpending
  obtain ⟨-, hcalls, -, hdone⟩ | ⟨handler, s₂, hhandler, -, hpending₂, hcalls, hdone⟩ :=
    hexecuted.singleton hcounted
  · exact ⟨by simp [hdone, hpending₁], .inl (hcalls.trans hcalls₁)⟩
  · refine ⟨?_, .inr ⟨hconfirmed, plan, action, hpending, hcounted, by rw [hcalls, hcalls₁]⟩⟩
    rw [hdone, hkeeps.callHandler hhandler, hpending₂, hpending₁]
    simp

/-- A change of the context that keeps the pending plan makes no difference. -/
theorem RequestEffect.onContext {s : Store σ} {plan : Plan} {o : Response × Store σ}
    {f : Context → Context} (hf : ∀ c, ((f c).confirmationPending, (f c).pendingPlan) =
      (c.confirmationPending, c.pendingPlan))
    (h : RequestEffect (s.onContext f) plan o) : RequestEffect s plan o := by
  rwa [RequestEffect, onContext_calls, onContext_pending hf] at h

/-- What a call other than a confirmation does to the calls and the pending plan, with its reply and
the plan it submits. -/
def RequestStep (st : State σ) (e : Entry) (plan : Option Plan) (o : Reply × State σ) : Prop :=
  (o.2.store.pending = st.store.pending ∧ (o.2.store.calls = st.store.calls ∨
    ∃ action, o.2.store.calls = st.store.calls ++ [action] ∧ action.kind ≠ .deleteFile)) ∨
  ∃ p action, plan = some p ∧ p.counted = [action] ∧ o.1.ConfirmationRequired ∧
    (∀ target, e.target = some target →
      action.target.toList.take action.targetLen.toNat = target) ∧
    o.2.store.calls = st.store.calls ∧
    o.2.store.pending = st.store.pending.map fun _ => (true, p)

/-- From the effect of the runtime to the effect of the call. -/
theorem RequestEffect.step {st : State σ} {e : Entry} {plan : Plan} {action : Action}
    {o : Response × Store σ} (h : RequestEffect st.store plan o)
    (hcounted : plan.counted = [action])
    (htarget : ∀ target, e.target = some target →
      action.target.toList.take action.targetLen.toNat = target)
    {reply : Reply} (hreply : reply = .response o.1 ∨ reply = .message o.1.result.message) :
    RequestStep st e (some plan) (reply, { st with store := o.2 }) := by
  obtain h | ⟨hcalls, hstatus, hmessage, hpending⟩ := h
  · exact .inl h
  · refine .inr ⟨plan, action, rfl, hcounted, ?_, htarget, hcalls, hpending⟩
    rcases hreply with rfl | rfl
    · exact hstatus
    · exact hmessage

/-- The effect of the plan that `runAction` builds. -/
theorem requestEffect_requestPlan {r : Runtime σ} (hkeeps : r.executor.KeepsPending)
    {kind : ActionKind} {risk : RiskLevel}
    (hhonest : r.plannerMode ≠ .llm → kind = .deleteFile → risk ≠ .safe) (intent : IntentKind)
    (target : Option Name) (targetLen : ℤ) (input : Option (Vector UInt8 maxContextInput))
    (inputLen : ℤ) (s : Store σ) :
    RequestEffect s (Runtime.requestPlan r.plannerMode kind intent risk target targetLen)
      (r.runActionRequest kind intent risk target targetLen input inputLen s) := by
  obtain ⟨action, hcounted, hkind, hrisk, -⟩ :=
    requestPlan_counted r.plannerMode kind intent risk target targetLen
  have hplanner : (Runtime.requestPlan r.plannerMode kind intent risk target targetLen).planner =
      r.plannerMode := by
    rw [Runtime.requestPlan.eq_def]
    split
    · split <;> rfl
    · rfl
  refine RequestEffect.onContext ?_ (runPlan_single hkeeps hcounted ?_ _)
  · intro c
    rfl
  · rw [hplanner, hkind, hrisk]
    exact hhonest

/-- What either planner does to the store, and what it plans. -/
theorem planInput_cases (configured : Option (LLMPlanner σ)) (mode : PlannerMode)
    (input : List UInt8) (s : Store σ) :
    let o := Runtime.planInput (configured.map LLMPlanner.toPlanner) mode input s
    o.2.calls = s.calls ∧ o.2.pending = s.pending ∧
      (o.1.ok = true → ∃ action, o.1.plan.counted = [action] ∧
        (o.1.plan.planner ≠ .llm → action.kind = .deleteFile → action.risk ≠ .safe)) := by
  by_cases hmode : mode = .llm
  · subst hmode
    obtain ⟨hcalls, hpending, hplan⟩ := planInput_llm configured input s
    refine ⟨hcalls, hpending, ?_⟩
    intro hok
    obtain ⟨response, hresponse, -⟩ := hplan hok
    rw [hresponse]
    exact ⟨_, LLMPlanner.responsePlan_counted response, fun h => absurd rfl h⟩
  · obtain ⟨-, action, hcounted, hrisk⟩ := plansOne_deterministicPlan input
    rw [Runtime.planInput.eq_def, if_neg hmode]
    refine ⟨rfl, rfl, fun _ => ⟨action, hcounted, ?_⟩⟩
    intro _ hdelete
    rw [hrisk hdelete]
    simp

/-- A call that submits the plan of `runAction`, whatever it replies with. -/
theorem requestStep_requestPlan {st : State σ} (hkeeps : st.runtime.executor.KeepsPending)
    {e : Entry} {kind : ActionKind} {risk : RiskLevel}
    (hhonest : st.runtime.plannerMode ≠ .llm → kind = .deleteFile → risk ≠ .safe)
    (intent : IntentKind) {target : Option Name} {targetLen : ℤ}
    (htarget : e.target = target.map fun n => n.toList.take targetLen.toNat)
    (input : Option (Vector UInt8 maxContextInput)) (inputLen : ℤ) {reply : Reply}
    (hreply :
      let o := st.runtime.runActionRequest kind intent risk target targetLen input inputLen st.store
      reply = .response o.1 ∨ reply = .message o.1.result.message) :
    RequestStep st e
      (some (Runtime.requestPlan st.runtime.plannerMode kind intent risk target targetLen))
      (reply, { st with store := (st.runtime.runActionRequest kind intent risk target targetLen
        input inputLen st.store).2 }) := by
  obtain ⟨action, hcounted, -, -, hname⟩ :=
    requestPlan_counted st.runtime.plannerMode kind intent risk target targetLen
  refine RequestEffect.step (requestEffect_requestPlan hkeeps hhonest intent target targetLen input
    inputLen st.store) hcounted ?_ hreply
  intro name hsome
  obtain ⟨n, hn, rfl⟩ := Option.map_eq_some_iff.mp (htarget.symm.trans hsome)
  exact hname n hn

/-- What an honest request does, whichever entry point it comes through. -/
theorem step_request (configured : Option (LLMPlanner σ)) {st : State σ}
    (hkeeps : st.runtime.executor.KeepsPending) {e : Entry}
    (hhonest : e.Honest st.runtime.plannerMode) (hanswer : e.answer = none) :
    RequestStep st e (st.submitted (configured.map LLMPlanner.toPlanner) e)
      (st.step (configured.map LLMPlanner.toPlanner) e) := by
  cases e with
  | confirmAction confirmed => simp [Entry.answer] at hanswer
  | confirmActionMessage confirmed => simp [Entry.answer] at hanswer
  | setPlannerMode mode => exact .inl ⟨rfl, .inl rfl⟩
  | run input =>
    set mode := st.runtime.plannerMode with hmode
    set s₀ := st.store.onContext fun c => c.beginStringRequest input mode with hs₀
    have hpending₀ : s₀.pending = st.store.pending := by
      refine onContext_pending ?_ st.store
      intro c
      rfl
    have hplanned := planInput_cases configured mode input s₀
    simp only [State.submitted, State.step, Runtime.run, ← hmode, ← hs₀]
    rcases hinput : Runtime.planInput (configured.map LLMPlanner.toPlanner) mode input s₀ with
      ⟨planning, s₁⟩
    rw [hinput] at hplanned
    obtain ⟨hcalls, hpending, hplan⟩ := hplanned
    rw [hpending₀] at hpending
    replace hcalls : s₁.calls = st.store.calls := hcalls
    dsimp only at hplan ⊢
    by_cases hok : planning.ok = true
    swap
    · rw [if_pos hok]
      refine .inl ⟨Eq.trans ?_ hpending, .inl hcalls⟩
      refine onContext_pending ?_ s₁
      intro c
      rfl
    rw [if_neg (not_not.mpr hok), if_pos hok]
    obtain ⟨action, hcounted, hrisk⟩ := hplan hok
    have heffect := runPlan_single hkeeps hcounted hrisk s₁
    rw [RequestEffect, hpending, hcalls] at heffect
    exact RequestEffect.step heffect hcounted (by simp [Entry.target]) (.inl rfl)
  | runAction kind intent risk target targetLen =>
    exact requestStep_requestPlan hkeeps hhonest intent (by cases target <;> rfl) none 0 (.inl rfl)
  | runActionRequest kind intent risk target targetLen input inputLen =>
    exact requestStep_requestPlan hkeeps hhonest intent (by cases target <;> rfl) input inputLen
      (.inl rfl)
  | runActionMessage kind intent risk target targetLen =>
    simp only [State.submitted, State.step, Runtime.runActionMessage]
    by_cases hlen : targetLen < 0 ∨ targetLen > maxNameLen
    · simp only [if_pos hlen]
      exact .inl ⟨rfl, .inl rfl⟩
    simp only [if_neg hlen]
    exact requestStep_requestPlan hkeeps hhonest intent (by cases target <;> rfl) none 0 (.inr rfl)
  | runActionRequestMessage kind intent risk target targetLen input inputLen =>
    simp only [State.submitted, State.step, Runtime.runActionRequestMessage]
    by_cases hlen : targetLen < 0 ∨ targetLen > maxNameLen
    · simp only [if_pos hlen]
      exact .inl ⟨rfl, .inl rfl⟩
    simp only [if_neg hlen]
    exact requestStep_requestPlan hkeeps hhonest intent (by cases target <;> rfl) input inputLen
      (.inr rfl)

/-! ## Whole runs -/

/-- A request is answered by one confirmation. -/
theorem answeredBy_unique {h : List Record} {i j j' : ℕ} (hj : AnsweredBy h i j)
    (hj' : AnsweredBy h i j') : j' = j := by
  obtain ⟨hij, ⟨r, hr, hyes⟩, hfirst⟩ := hj
  obtain ⟨hij', ⟨r', hr', hyes'⟩, hfirst'⟩ := hj'
  rcases lt_trichotomy j j' with hlt | heq | hgt
  · rw [hfirst' j r hij hlt hr] at hyes
    simp at hyes
  · exact heq.symm
  · rw [hfirst j' r' hij' hgt hr'] at hyes'
    simp at hyes'

/-- The plan `plan` of an earlier request waits for the first confirmation after it. -/
def Waiting (h : List Record) (plan : Plan) : Prop :=
  ∃ (i : ℕ) (request : Record) (action : Action), h[i]? = some request ∧
    request.plan = some plan ∧ request.reply.ConfirmationRequired ∧ plan.counted = [action] ∧
    (∀ target, request.entry.target = some target →
      action.target.toList.take action.targetLen.toNat = target) ∧
    ∀ (k : ℕ) (r : Record), i < k → h[k]? = some r → r.entry.answer = none

/-- A record of a longer history is an old one or the new one. -/
theorem getElem?_concat {h : List Record} {r r' : Record} {k : ℕ}
    (hk : (h ++ [r])[k]? = some r') : h[k]? = some r' ∨ k = h.length ∧ r' = r := by
  rcases lt_trichotomy k h.length with hlt | rfl | hgt
  · rw [List.getElem?_append_left hlt] at hk
    exact .inl hk
  · right
    simpa [eq_comm] using hk
  · rw [List.getElem?_eq_none (by simp; omega)] at hk
    simp at hk

/-- Old records keep their place. -/
theorem getElem?_concat_of_some {h : List Record} {r r' : Record} {k : ℕ} (hk : h[k]? = some r') :
    (h ++ [r])[k]? = some r' := by
  obtain ⟨hlt, -⟩ := List.getElem?_eq_some_iff.mp hk
  rw [List.getElem?_append_left hlt, hk]

/-- A call that is not a confirmation leaves a plan waiting. -/
theorem Waiting.concat {h : List Record} {plan : Plan} (hw : Waiting h plan) {r : Record}
    (hr : r.entry.answer = none) : Waiting (h ++ [r]) plan := by
  obtain ⟨i, request, action, hi, hplan, hreply, hcounted, htarget, hlater⟩ := hw
  refine ⟨i, request, action, getElem?_concat_of_some hi, hplan, hreply, hcounted, htarget, ?_⟩
  intro k r' hik hk
  obtain hk | ⟨-, rfl⟩ := getElem?_concat hk
  · exact hlater k r' hik hk
  · exact hr

/-- An answer stays one. -/
theorem AnsweredBy.concat {h : List Record} {i j : ℕ} (hij : AnsweredBy h i j) (r : Record) :
    AnsweredBy (h ++ [r]) i j := by
  obtain ⟨hlt, ⟨r', hr', hyes⟩, hfirst⟩ := hij
  obtain ⟨hj, -⟩ := List.getElem?_eq_some_iff.mp hr'
  refine ⟨hlt, ⟨r', getElem?_concat_of_some hr', hyes⟩, ?_⟩
  intro k r'' hik hkj hk
  rw [List.getElem?_append_left (hkj.trans hj)] at hk
  exact hfirst k r'' hik hkj hk

/-- The promise survives a call that keeps it. -/
theorem ConfirmedDeletions.concat {h : List Record} (hh : ConfirmedDeletions h) {r : Record}
    (hr : ∀ action ∈ r.calls, action.kind = .deleteFile →
      r.entry.answer = some true ∧ ∃ plan, Waiting h plan ∧ plan.counted = [action] ∧
        r.calls = [action]) : ConfirmedDeletions (h ++ [r]) := by
  intro j r' hj action haction hdelete
  obtain hj | ⟨rfl, rfl⟩ := getElem?_concat hj
  · obtain ⟨i, request, plan, hi, hplan, hreply, hanswered, -, hrest⟩ :=
      hh j r' hj action haction hdelete
    exact ⟨i, request, plan, getElem?_concat_of_some hi, hplan, hreply, hanswered.concat r,
      fun j' => answeredBy_unique (hanswered.concat r), hrest⟩
  · obtain ⟨hyes, plan, hwaiting, hcounted, hcalls⟩ := hr action haction hdelete
    obtain ⟨i, request, action', hi, hplan, hreply, hcounted', htarget, hlater⟩ := hwaiting
    obtain rfl : action' = action := by simpa [hcounted'] using hcounted
    have hanswered : AnsweredBy (h ++ [r']) i h.length := by
      refine ⟨(List.getElem?_eq_some_iff.mp hi).1, ⟨r', by simp, hyes⟩, ?_⟩
      intro k r'' hik hk hr''
      rw [List.getElem?_append_left hk] at hr''
      exact hlater k r'' hik hr''
    exact ⟨i, request, plan, getElem?_concat_of_some hi, hplan, hreply, hanswered,
      fun j' => answeredBy_unique hanswered, hcounted, hcalls, htarget⟩

/-- No call changes the executor. -/
theorem step_executor (configured : Option (Planner σ)) (st : State σ) (e : Entry) :
    (st.step configured e).2.runtime.executor = st.runtime.executor := by
  cases e with
  | setPlannerMode mode =>
    cases mode with
    | llm =>
      simp only [State.step, Runtime.setPlannerMode]
      split <;> rfl
    | _ => rfl
  | _ => rfl

/-- Both confirmations do the same to the store. -/
theorem step_store_of_answer (configured : Option (Planner σ)) (st : State σ) {e : Entry}
    {confirmed : Bool} (h : e.answer = some confirmed) :
    (st.step configured e).2.store = (st.runtime.confirmAction confirmed st.store).2 := by
  cases e with
  | confirmAction b =>
    obtain rfl : b = confirmed := by simpa [Entry.answer] using h
    rfl
  | confirmActionMessage b =>
    obtain rfl : b = confirmed := by simpa [Entry.answer] using h
    rfl
  | _ => simp [Entry.answer] at h

/-- What holds along a run of honest calls: the promise so far, and whatever is pending is the plan
of a request that waits for a confirmation. -/
structure Kept (h : List Record) (st : State σ) : Prop where
  deletions : ConfirmedDeletions h
  handlers : st.runtime.executor.KeepsPending
  pending : ∀ plan, st.store.pending = some (true, plan) → Waiting h plan

/-- One honest call keeps the promise. -/
theorem Kept.step {configured : Option (LLMPlanner σ)} {h : List Record} {st : State σ}
    (hkept : Kept h st) {e : Entry} (hhonest : e.Honest st.runtime.plannerMode) :
    Kept (h ++ [st.record (configured.map LLMPlanner.toPlanner) e])
      (st.step (configured.map LLMPlanner.toPlanner) e).2 := by
  set cfg := configured.map LLMPlanner.toPlanner
  have hhandlers : (st.step cfg e).2.runtime.executor.KeepsPending :=
    (step_executor cfg st e).symm ▸ hkept.handlers
  have hcalls : ∀ actions, (st.step cfg e).2.store.calls = st.store.calls ++ actions →
      (st.record cfg e).calls = actions := by
    intro actions hactions
    rw [State.record, hactions, List.drop_left]
  have hnocalls : (st.step cfg e).2.store.calls = st.store.calls →
      (st.record cfg e).calls = [] := fun hsame => hcalls [] (by rw [hsame, List.append_nil])
  rcases hanswer : e.answer with _ | confirmed
  -- a request leaves the pending plan alone, which then still waits, or it is the one waited for
  · obtain ⟨hpending, hmade⟩ | ⟨plan, action, hplan, hcounted, hreply, htarget, hsame, hpending⟩ :=
      step_request configured hkept.handlers hhonest hanswer
    · refine ⟨hkept.deletions.concat ?_, hhandlers, ?_⟩
      · intro action haction hdelete
        obtain hsame | ⟨action', hmade, hkind⟩ := hmade
        · rw [hnocalls hsame] at haction
          simp at haction
        · rw [hcalls _ hmade, List.mem_singleton] at haction
          exact absurd (haction ▸ hdelete) hkind
      · intro plan hplan
        exact (hkept.pending plan (hpending ▸ hplan)).concat hanswer
    · refine ⟨hkept.deletions.concat ?_, hhandlers, ?_⟩
      · rw [hnocalls hsame]
        simp
      · intro plan' hplan'
        rw [hpending] at hplan'
        obtain ⟨-, -, heq⟩ := Option.map_eq_some_iff.mp hplan'
        obtain rfl : plan = plan' := (Prod.mk.inj heq).2
        refine ⟨h.length, st.record cfg e, action, by simp, hplan, hreply, hcounted, htarget, ?_⟩
        intro k r hk hr
        rw [List.getElem?_eq_none (by simp; omega)] at hr
        simp at hr
  -- an answer takes the pending plan away, so that no later call can execute it again
  · have hone : ∀ plan, st.store.pending = some (true, plan) →
        ∃ action, plan.counted = [action] := by
      intro plan hplan
      obtain ⟨-, -, action, -, -, -, hcounted, -⟩ := hkept.pending plan hplan
      exact ⟨action, hcounted⟩
    obtain ⟨hnone, hmade⟩ := confirmAction_single hkept.handlers confirmed hone
    rw [← step_store_of_answer cfg st hanswer] at hnone hmade
    refine ⟨hkept.deletions.concat ?_, hhandlers, fun plan hplan => absurd hplan (hnone plan)⟩
    intro action haction hdelete
    obtain hsame | ⟨rfl, plan, action', hpending, hcounted, hmade⟩ := hmade
    · rw [hnocalls hsame] at haction
      simp at haction
    · rw [hcalls _ hmade] at haction ⊢
      obtain rfl := List.mem_singleton.mp haction
      exact ⟨hanswer, plan, hkept.pending plan hpending, hcounted, rfl⟩

/-- **The safety gate keeps its promise to honest callers.** In every run of the entry points on one
context, from one in which nothing is pending, in which no request outside LLM mode calls a deletion
safe and the handlers leave the pending fields alone, deletions are confirmed ones. -/
theorem honest_run_confirms_deletions (configured : Option (LLMPlanner σ)) {st₀ : State σ}
    (hhandlers : st₀.runtime.executor.KeepsPending)
    (hstart : ∃ c, st₀.store.context = some c ∧ c.confirmationPending = false)
    {h : List Record} {st : State σ}
    (hrun : Run (configured.map LLMPlanner.toPlanner)
      (fun st e => e.Honest st.runtime.plannerMode) st₀ h st) : ConfirmedDeletions h := by
  have hkept : Kept h st := by
    induction hrun with
    | start =>
      obtain ⟨c, hc, hpending⟩ := hstart
      refine ⟨?_, hhandlers, ?_⟩
      · intro j r hj
        simp at hj
      · intro plan hplan
        simp [Store.pending, hc, hpending] at hplan
    | step e _ hhonest ih => exact ih.step hhonest
  exact hkept.deletions

/-- A fresh context and a runtime whose only handler says that the file is deleted. -/
def deletingState : State Unit where
  runtime := .newDeterministicAgent
    { (bareRuntime.executor) with
      deleteFile := some ⟨fun _ env => (⟨true, .ok⟩, env), fun _ c env => (⟨true, .ok⟩, c, env)⟩ }
  store := ⟨some default, (), []⟩

/-- The handlers of the example keep the pending plan. -/
theorem deletingState_keepsPending : deletingState.runtime.executor.KeepsPending := by
  intro kind handler h action c env
  cases kind
  case deleteFile =>
    obtain rfl := Option.some.inj h
    exact ⟨rfl, rfl⟩
  all_goals exact absurd h (by simp [deletingState, Runtime.newDeterministicAgent, bareRuntime,
    AllowedActionExecutor.handler])

/-- A request for a deletion of the one-byte name `a`, with the given risk. -/
def deleteRequest (risk : RiskLevel) : Entry :=
  .runAction .deleteFile .deleteFile risk (some ((default : Name).set! 0 0x61)) 1

/-- The action of that request. -/
def deleteAction (risk : RiskLevel) : Action :=
  { (default : Action) with
    kind := .deleteFile
    risk := risk
    target := (default : Name).set! 0 0x61
    targetLen := 1 }

/-- **A deletion that is requested as safe is executed without a confirmation.** -/
theorem safe_deletion_unconfirmed :
    ¬ ∀ (configured : Option (LLMPlanner Unit)) (st₀ : State Unit),
      st₀.runtime.executor.KeepsPending →
      (∃ c, st₀.store.context = some c ∧ c.confirmationPending = false) →
      ∀ h st, Run (configured.map LLMPlanner.toPlanner) (fun _ _ => True) st₀ h st →
        ConfirmedDeletions h := by
  intro hall
  have hrun : Run none (fun _ _ => True) deletingState
      [deletingState.record none (deleteRequest .safe)] _ :=
    Run.start.step (deleteRequest .safe) trivial
  have hcalls : (deletingState.record none (deleteRequest .safe)).calls = [deleteAction .safe] :=
    rfl
  obtain ⟨i, -, -, -, -, -, ⟨hi, -⟩, -⟩ := hall none deletingState deletingState_keepsPending
    ⟨default, rfl, rfl⟩ _ _ hrun 0 _ rfl (deleteAction .safe) (by rw [hcalls]; simp) rfl
  exact absurd hi (Nat.not_lt_zero i)

/-- A deletion that is requested as risky and then confirmed. -/
theorem risky_deletion_confirmed :
    let st := (deletingState.step none (deleteRequest .risky)).2
    let h := [deletingState.record none (deleteRequest .risky),
      st.record none (.confirmAction true)]
    ConfirmedDeletions h ∧
      (st.record none (.confirmAction true)).calls = [deleteAction .risky] := by
  refine ⟨?_, rfl⟩
  have hhonest : (deleteRequest .risky).Honest deletingState.runtime.plannerMode := by
    simp [deleteRequest, Entry.Honest]
  exact honest_run_confirms_deletions none deletingState_keepsPending ⟨default, rfl, rfl⟩
    (Run.step (.confirmAction true) (Run.step (deleteRequest .risky) Run.start hhonest) trivial)

end DavOS.Agent
