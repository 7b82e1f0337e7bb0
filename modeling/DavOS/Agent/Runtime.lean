import DavOS.Agent.Types

/-!
# The agent runtime

Reference: `agent/planner.go`, `agent/executor.go` and `agent/runtime.go`.

A handler is code outside the package. It is called with an action and a pointer to the context,
which may be `nil`, and may change the context and whatever else it can reach. The type `σ` is that
rest of the world, and `Store` is what a call of the runtime reads and changes: the shared context,
the rest of the world, and the actions handlers have been called with so far. That list is there to
speak about handler calls; the runtime does not read it.

The runtime itself is a value receiver in all functions that run a plan. A handler that switches the
planner of the runtime it was called from changes what the next call sees, not the current one.
-/

namespace DavOS.Agent

variable {σ : Type}

/-! ## Plans -/

/-- `singleActionPlan` -/
def singleActionPlan (mode : PlannerMode) (intent : IntentKind) (actionKind : ActionKind)
    (risk : RiskLevel) : Plan where
  planner := mode
  intent := intent
  confidence := 100
  actions := (default : Plan).actions.set! 0 { (default : Action) with kind := actionKind, risk }
  actionCount := 1

def allowedPlanAction : ActionKind → Bool
  | .listFiles | .readFile | .deleteFile | .statFile | .showHelp | .showHistory | .showVersion
  | .showTicks | .showMemoryMap | .setMode => true
  | _ => false

def actionRequiresTarget : ActionKind → Bool
  | .readFile | .deleteFile | .statFile => true
  | _ => false

def actionRisk (kind : ActionKind) : RiskLevel :=
  if kind = .deleteFile then .risky else .safe

def validRiskLevel : RiskLevel → Bool
  | .safe | .risky => true
  | .other _ => false

/-- The body of the loop of `validatePlan`: the reason to reject one action of a plan. -/
def rejectAction (planner : PlannerMode) (action : Action) : Option MessageKind :=
  if ¬ action.kind.valid ∨ planner = .llm ∧ ¬ allowedPlanAction action.kind then
    some .planContainsUnsupportedAction
  else if ¬ validRiskLevel action.risk then some .actionRiskInvalid
  else if action.targetLen < 0 ∨ action.targetLen > maxNameLen then some .actionTargetInvalid
  else if action.dataLen < 0 ∨ action.dataLen > maxDataLen then some .actionDataInvalid
  else if action.dataLen ≠ 0 then some .actionDataInvalid
  else if actionRequiresTarget action.kind ∧ action.targetLen = 0 then some .actionTargetInvalid
  else if planner = .llm ∧ actionRisk action.kind ≠ action.risk then some .actionRiskInvalid
  else none

/-- The actions that a plan counts. -/
def Plan.counted (plan : Plan) : List Action := plan.actions.toList.take plan.actionCount.toNat

def validatePlan (plan : Plan) : ValidationResult :=
  if plan.actionCount ≤ 0 then ⟨false, .planHasNoActions⟩
  else if plan.actionCount > maxActions then ⟨false, .planHasTooManyActions⟩
  else
    match plan.counted.findSome? (rejectAction plan.planner) with
    | some reason => ⟨false, reason⟩
    | none => ⟨true, .ok⟩

/-! ## Handlers -/

/-- An `ActionHandler`, by what it does for a `nil` context and for a context that it may change. -/
structure ActionHandler (σ : Type) where
  onNil : Action → σ → ActionResult × σ
  onContext : Action → Context → σ → ActionResult × Context × σ

structure AllowedActionExecutor (σ : Type) where
  listFiles : Option (ActionHandler σ)
  readFile : Option (ActionHandler σ)
  writeFile : Option (ActionHandler σ)
  deleteFile : Option (ActionHandler σ)
  statFile : Option (ActionHandler σ)
  showHelp : Option (ActionHandler σ)
  showHistory : Option (ActionHandler σ)
  showVersion : Option (ActionHandler σ)
  showTicks : Option (ActionHandler σ)
  showMemoryMap : Option (ActionHandler σ)
  setMode : Option (ActionHandler σ)

structure Store (σ : Type) where
  /-- `none` is the `nil` pointer. -/
  context : Option Context
  env : σ
  calls : List Action

/-- An assignment to fields of the context behind `if context != nil`. -/
def Store.onContext (f : Context → Context) (s : Store σ) : Store σ :=
  { s with context := s.context.map f }

def callHandler (handler : Option (ActionHandler σ)) (action : Action) (s : Store σ) :
    ActionResult × Store σ :=
  match handler with
  | none => (⟨false, .actionUnavailable⟩, s)
  | some h =>
    match s.context with
    | none =>
      let (result, env) := h.onNil action s.env
      (result, ⟨none, env, s.calls ++ [action]⟩)
    | some c =>
      let (result, c, env) := h.onContext action c s.env
      (result, ⟨some c, env, s.calls ++ [action]⟩)

def AllowedActionExecutor.execute (e : AllowedActionExecutor σ) (action : Action) (s : Store σ) :
    ActionResult × Store σ :=
  match action.kind with
  | .listFiles => callHandler e.listFiles action s
  | .readFile => callHandler e.readFile action s
  | .writeFile => callHandler e.writeFile action s
  | .deleteFile => callHandler e.deleteFile action s
  | .statFile => callHandler e.statFile action s
  | .showHelp => callHandler e.showHelp action s
  | .showHistory => callHandler e.showHistory action s
  | .showVersion => callHandler e.showVersion action s
  | .showTicks => callHandler e.showTicks action s
  | .showMemoryMap => callHandler e.showMemoryMap action s
  | .setMode => callHandler e.setMode action s
  | _ => (⟨false, .unsupportedAction⟩, s)

/-! ## Running a plan -/

def evaluateSafetyWithConfirmation (plan : Plan) (confirmed : Bool) (s : Store σ) :
    SafetyDecision × Store σ :=
  if plan.counted.any (fun action => action.risk = .risky) then
    if confirmed then (⟨.allowed, .ok⟩, s)
    else
      (⟨.confirmationRequired, .confirmationRequired⟩,
        s.onContext fun c => { c with pendingPlan := plan, confirmationPending := true })
  else (⟨.allowed, .ok⟩, s)

def formatResult (results : Vector ActionResult maxActions) (resultCount : ℤ) : ActionResult :=
  if resultCount ≤ 0 then ⟨false, .noResult⟩
  else if resultCount = 1 then results[0]!
  else ⟨true, .completedPlan⟩

def plannerTrace (mode : PlannerMode) : TraceDetail :=
  if mode = .llm then .llm else .deterministic

def intentTrace : IntentKind → TraceDetail
  | .listFiles => .listFiles
  | .readFile => .readFile
  | .writeFile => .writeFile
  | .deleteFile => .deleteFile
  | .statFile => .statFile
  | .showHelp => .showHelp
  | .showHistory => .showHistory
  | .showVersion => .showVersion
  | .showTicks => .showTicks
  | .showMemoryMap => .showMemoryMap
  | .setMode => .setMode
  | _ => .none

def safetyTrace : SafetyStatus → TraceDetail
  | .allowed => .allowed
  | .confirmationRequired => .confirmationRequired
  | .rejected => .rejected

def traceFromMessage (message : MessageKind) : TraceDetail :=
  if message = .ok then .ok else .failed

def finishPlanContext (response : Response) (plan : Plan) (s : Store σ) : Response × Store σ :=
  (response, s.onContext fun c =>
    let lastAction :=
      if plan.actionCount > 0 then
        let actionIndex := plan.actionCount - 1
        let actionIndex := if actionIndex ≥ maxActions then (maxActions - 1 : ℤ) else actionIndex
        plan.actions[actionIndex.toNat]!.kind
      else .none
    { c with
      lastIntent := plan.intent
      lastAction := lastAction
      lastResultSummary := response.result.message
      plannerMode := if lastAction ≠ .setMode then plan.planner else c.plannerMode
      currentTask :=
        if response.safety.status ≠ .confirmationRequired then .none else c.currentTask })

/-- The loop of `runPlanWithConfirmation` over the actions from index `i` on: the result that
stopped it, if one failed, and the results so far. -/
def executeLoop (e : AllowedActionExecutor σ) :
    List Action → ℕ → Vector ActionResult maxActions → Store σ →
      (Option ActionResult × Vector ActionResult maxActions) × Store σ
  | [], _, results, s => ((none, results), s)
  | action :: actions, i, results, s =>
    let s := s.onContext fun c => { c with currentTask := action.kind }
    let (result, s) := e.execute action s
    let results := results.set! i result
    if ¬ result.ok then ((some result, results), s)
    else executeLoop e actions (i + 1) results s

structure Runtime (σ : Type) where
  executor : AllowedActionExecutor σ
  executorConfigured : Bool
  plannerMode : PlannerMode
  llmConfigured : Bool

namespace Runtime

def newDeterministicAgent (executor : AllowedActionExecutor σ) : Runtime σ :=
  ⟨executor, true, .deterministic, false⟩

def currentPlanner (r : Runtime σ) : ActionResult :=
  if r.plannerMode = .llm then ⟨true, .llmMode⟩ else ⟨true, .deterministicMode⟩

/-- `SetPlannerMode` on a runtime that is not `nil`. -/
def setPlannerMode (mode : PlannerMode) (r : Runtime σ) : ActionResult × Runtime σ :=
  match mode with
  | .deterministic =>
    (⟨true, .plannerSwitchedDeterministic⟩, { r with plannerMode := .deterministic })
  | .llm =>
    if ¬ r.llmConfigured then (⟨false, .llmModeNotConfigured⟩, r)
    else (⟨true, .plannerSwitchedLLM⟩, { r with plannerMode := .llm })
  | .other _ => (⟨false, .unsupportedMode⟩, r)

/-- `CopyPlannerConfiguration` on a runtime that is not `nil`. -/
def copyPlannerConfiguration (source : Option (Runtime σ)) (r : Runtime σ) : Runtime σ :=
  match source with
  | none => { r with plannerMode := .deterministic, llmConfigured := false }
  | some source =>
    { r with plannerMode := source.plannerMode, llmConfigured := source.llmConfigured }

def runPlanWithConfirmation (r : Runtime σ) (plan : Plan) (confirmed : Bool) (s : Store σ) :
    Response × Store σ :=
  let response := ((default : Response).addTrace .planner (plannerTrace plan.planner)).addTrace
    .intent (intentTrace plan.intent)
  let validation := validatePlan plan
  if ¬ validation.ok then
    finishPlanContext (((response.setResult false validation.reason).setSafety .rejected
      .validationFailed).addTrace .validation (traceFromMessage validation.reason)) plan s
  else
    let response := response.addTrace .validation .ok
    let s := s.onContext fun c => { c with currentTask := plan.actions[0]!.kind }
    let (safety, s) := evaluateSafetyWithConfirmation plan confirmed s
    let response := (response.setSafety safety.status safety.reason).addTrace .safety
      (safetyTrace safety.status)
    if safety.status ≠ .allowed then
      finishPlanContext (response.setResult false safety.reason) plan s
    else if ¬ r.executorConfigured then
      finishPlanContext ((response.setResult false .executorNotConfigured).addTrace .executor
        .missing) plan s
    else
      match executeLoop r.executor plan.counted 0 default s with
      | ((some result, _), s) =>
        finishPlanContext ((response.addTrace .executor .failed).setResult result.ok
          result.message) plan s
      | ((none, results), s) =>
        let result := formatResult results plan.actionCount
        finishPlanContext (((response.addTrace .executor .success).setResult result.ok
          result.message).addTrace .formatter .structured) plan s

def runPlan (r : Runtime σ) (plan : Plan) (s : Store σ) : Response × Store σ :=
  r.runPlanWithConfirmation plan false s

def confirmAction (r : Runtime σ) (confirmed : Bool) (s : Store σ) : Response × Store σ :=
  let cancelled := ((default : Response).setResult false .actionCancelled).setSafety .rejected
    .actionCancelled
  match s.context with
  | none => (cancelled, s)
  | some c =>
    if ¬ c.confirmationPending then (cancelled, s)
    else
      let plan := c.pendingPlan
      let s := { s with
        context := some { c with pendingPlan := default, confirmationPending := false } }
      if ¬ confirmed then finishPlanContext (cancelled.addTrace .safety .rejected) plan s
      else r.runPlanWithConfirmation plan true s

/-- The plan that `runAction` builds from its arguments. -/
def requestPlan (mode : PlannerMode) (kind : ActionKind) (intent : IntentKind) (risk : RiskLevel)
    (target : Option Name) (targetLen : ℤ) : Plan :=
  let plan := singleActionPlan mode intent kind risk
  match target with
  | some target =>
    if targetLen > 0 then
      let targetLen := if targetLen > maxNameLen then (maxNameLen : ℤ) else targetLen
      let action := plan.actions[0]!
      { plan with
        actions := plan.actions.set! 0 { action with
          targetLen
          target := (List.range targetLen.toNat).foldl (fun b i => b.set! i target[i]!)
            action.target } }
    else plan
  | none => plan

/-- The private `runAction`. -/
def runActionPlan (r : Runtime σ) (kind : ActionKind) (intent : IntentKind) (risk : RiskLevel)
    (target : Option Name) (targetLen : ℤ) (s : Store σ) : Response × Store σ :=
  r.runPlan (requestPlan r.plannerMode kind intent risk target targetLen) s

def runAction (r : Runtime σ) (kind : ActionKind) (intent : IntentKind) (risk : RiskLevel)
    (target : Option Name) (targetLen : ℤ) (s : Store σ) : Response × Store σ :=
  r.runActionPlan kind intent risk target targetLen
    (s.onContext fun c => c.beginRequest none 0 r.plannerMode)

def runActionRequest (r : Runtime σ) (kind : ActionKind) (intent : IntentKind) (risk : RiskLevel)
    (target : Option Name) (targetLen : ℤ) (input : Option (Vector UInt8 maxContextInput))
    (inputLen : ℤ) (s : Store σ) : Response × Store σ :=
  r.runActionPlan kind intent risk target targetLen
    (s.onContext fun c => c.beginRequest input inputLen r.plannerMode)

/-- `RunActionMessage`; a `nil` runtime is `none`. -/
def runActionMessage (r : Option (Runtime σ)) (kind : ActionKind) (intent : IntentKind)
    (risk : RiskLevel) (target : Option Name) (targetLen : ℤ) (s : Store σ) :
    MessageKind × Store σ :=
  match r with
  | none => (.executorNotConfigured, s)
  | some r =>
    if targetLen < 0 ∨ targetLen > maxNameLen then (.actionTargetInvalid, s)
    else
      let (response, s) := r.runAction kind intent risk target targetLen s
      (response.result.message, s)

def runActionRequestMessage (r : Option (Runtime σ)) (kind : ActionKind) (intent : IntentKind)
    (risk : RiskLevel) (target : Option Name) (targetLen : ℤ)
    (input : Option (Vector UInt8 maxContextInput)) (inputLen : ℤ) (s : Store σ) :
    MessageKind × Store σ :=
  match r with
  | none => (.executorNotConfigured, s)
  | some r =>
    if targetLen < 0 ∨ targetLen > maxNameLen then (.actionTargetInvalid, s)
    else
      let (response, s) := r.runActionRequest kind intent risk target targetLen input inputLen s
      (response.result.message, s)

def confirmActionMessage (r : Option (Runtime σ)) (confirmed : Bool) (s : Store σ) :
    MessageKind × Store σ :=
  match r with
  | none => (.executorNotConfigured, s)
  | some r =>
    let (response, s) := r.confirmAction confirmed s
    (response.result.message, s)

end Runtime

end DavOS.Agent
