import DavOS.Agent.Runtime

/-!
# Planners

Reference: `agent/planner_host.go`, `agent/planner_impl_host.go`, `agent/planner_llm.go` and
`agent/runtime_host.go`.

A Go string is the list of its bytes. A planner and a bridge client may read and change the rest of
the world `σ`, so that a client that answers differently each time is one too; they return a result
and leave the context alone.
-/

namespace DavOS.Agent

variable {σ : Type}

/-- The bytes of an ASCII literal. -/
def ascii (literal : String) : List UInt8 := literal.toList.map fun c => UInt8.ofNat c.toNat

/-! ## The deterministic planner -/

def lowerASCII (c : UInt8) : UInt8 := if c ≥ 0x41 ∧ c ≤ 0x5A then c - 0x41 + 0x61 else c

def contains (text token : List UInt8) : Bool :=
  if token.length = 0 then true
  else if token.length > text.length then false
  else
    (List.range (text.length - token.length + 1)).any fun i =>
      (List.range token.length).all fun j =>
        lowerASCII (text.getD (i + j) 0) = lowerASCII (token.getD j 0)

def isPlannerSpace (c : UInt8) : Bool := c = 0x20 || c = 0x09

/-- The first loop of `lastToken`. -/
def lastTokenEnd (text : List UInt8) : ℕ → ℕ
  | 0 => 0
  | stop + 1 => if isPlannerSpace (text.getD stop 0) then lastTokenEnd text stop else stop + 1

/-- The second loop of `lastToken`. -/
def lastTokenStart (text : List UInt8) : ℕ → ℕ
  | 0 => 0
  | start + 1 => if isPlannerSpace (text.getD start 0) then start + 1 else lastTokenStart text start

def lastToken (text : List UInt8) : ℕ × ℕ :=
  let stop := lastTokenEnd text text.length
  (lastTokenStart text stop, stop)

def tokenEquals (text : List UInt8) (start stop : ℕ) (token : List UInt8) : Bool :=
  if (stop : ℤ) - start ≠ token.length then false
  else (List.range token.length).all fun i => lowerASCII (text.getD (start + i) 0) = token.getD i 0

def isActionWord (text : List UInt8) (start stop : ℕ) : Bool :=
  tokenEquals text start stop (ascii "read") || tokenEquals text start stop (ascii "cat") ||
  tokenEquals text start stop (ascii "delete") || tokenEquals text start stop (ascii "remove") ||
  tokenEquals text start stop (ascii "show") || tokenEquals text start stop (ascii "stat") ||
  tokenEquals text start stop (ascii "status") || tokenEquals text start stop (ascii "mode")

def singleTargetPlan (mode : PlannerMode) (intent : IntentKind) (actionKind : ActionKind)
    (risk : RiskLevel) (input : List UInt8) : Plan :=
  let plan := singleActionPlan mode intent actionKind risk
  let (targetStart, targetEnd) := lastToken input
  if targetStart < targetEnd ∧ ¬ isActionWord input targetStart targetEnd then
    let targetLen := min (targetEnd - targetStart) maxNameLen
    let action := plan.actions[0]!
    { plan with
      actions := plan.actions.set! 0 { action with
        targetLen := targetLen
        target := (List.range targetLen).foldl
          (fun b i => b.set! i (input.getD (targetStart + i) 0)) action.target } }
  else plan

def successfulPlan (plan : Plan) : PlanningResult := { ok := true, plan, reason := .none }

def deterministicPlan (input : List UInt8) : PlanningResult :=
  let has := fun token => contains input (ascii token)
  let noTarget := fun intent kind => singleActionPlan .deterministic intent kind .safe
  let target := fun intent kind risk => singleTargetPlan .deterministic intent kind risk input
  if has "help" || has "commands" || has "what can you do" then
    successfulPlan (noTarget .showHelp .showHelp)
  else if has "memorymap" || has "memory" && has "map" then
    successfulPlan (noTarget .showMemoryMap .showMemoryMap)
  else if has "version" then successfulPlan (noTarget .showVersion .showVersion)
  else if has "ticks" then successfulPlan (noTarget .showTicks .showTicks)
  else if has "history" then successfulPlan (noTarget .showHistory .showHistory)
  else if has "mode" then successfulPlan (target .setMode .setMode .safe)
  else if has "delete" || has "remove" then
    successfulPlan (target .deleteFile .deleteFile .risky)
  else if has "read" || has "cat" then successfulPlan (target .readFile .readFile .safe)
  else if has "stat" || has "status" then successfulPlan (target .statFile .statFile .safe)
  else if has "ls" || has "list" || has "files" || has "file" then
    successfulPlan (noTarget .listFiles .listFiles)
  else if has "show" ∧ (target .readFile .readFile .safe).actions[0]!.targetLen > 0 then
    successfulPlan (target .readFile .readFile .safe)
  else successfulPlan (noTarget .unknown .unknown)

/-- The interface `Planner`. -/
structure Planner (σ : Type) where
  plan : List UInt8 → Option Context → σ → PlanningResult × σ
  available : Bool

def DeterministicPlanner : Planner σ where
  plan input _ env := (deterministicPlan input, env)
  available := true

/-! ## The LLM planner -/

abbrev maxBridgeAllowedActions : ℕ := 8

structure BridgeRequest where
  input : List UInt8
  context : Option Context
  allowedActions : Vector ActionKind maxBridgeAllowedActions
  allowedActionCount : ℤ

structure BridgeResponse where
  intent : IntentKind
  action : ActionKind
  risk : RiskLevel
  target : Name
  targetLen : ℤ

structure BridgeResult where
  ok : Bool
  response : BridgeResponse
  reason : MessageKind

/-- The interface `BridgeClient`. -/
structure BridgeClient (σ : Type) where
  plan : BridgeRequest → σ → BridgeResult × σ

def newBridgeRequest (input : List UInt8) (context : Option Context) : BridgeRequest where
  input := input
  context := context
  allowedActions := #v[.listFiles, .readFile, .statFile, .deleteFile, .showHistory, .showVersion,
    .showTicks, .showMemoryMap]
  allowedActionCount := maxBridgeAllowedActions

def BridgeRequest.allows (r : BridgeRequest) (kind : ActionKind) : Bool :=
  (List.range r.allowedActionCount.toNat).any fun i => r.allowedActions[i]! = kind

def bridgeActionIntent : ActionKind → IntentKind
  | .listFiles => .listFiles
  | .readFile => .readFile
  | .statFile => .statFile
  | .deleteFile => .deleteFile
  | .showHistory => .showHistory
  | .showVersion => .showVersion
  | .showTicks => .showTicks
  | .showMemoryMap => .showMemoryMap
  | _ => .unknown

structure LLMPlanner (σ : Type) where
  bridge : Option (BridgeClient σ)

namespace LLMPlanner

def available (p : LLMPlanner σ) : Bool := p.bridge.isSome

/-- The plan that `Plan` makes of a bridge response. -/
def responsePlan (response : BridgeResponse) : Plan :=
  let plan := singleActionPlan .llm response.intent response.action response.risk
  let action := plan.actions[0]!
  { plan with
    actions := plan.actions.set! 0
      { action with target := response.target, targetLen := response.targetLen } }

def plan (p : LLMPlanner σ) (input : List UInt8) (context : Option Context) (env : σ) :
    PlanningResult × σ :=
  match p.bridge with
  | none => (⟨false, default, .llmBridgeNotConfigured⟩, env)
  | some bridge =>
    let request := newBridgeRequest input context
    let (result, env) := bridge.plan request env
    if ¬ result.ok then
      let reason := if result.reason = .none then .llmBridgeFailed else result.reason
      (⟨false, default, reason⟩, env)
    else if ¬ request.allows result.response.action then
      (⟨false, default, .planContainsUnsupportedAction⟩, env)
    else if bridgeActionIntent result.response.action ≠ result.response.intent then
      (⟨false, default, .plannerFailed⟩, env)
    else
      let plan := responsePlan result.response
      let validation := validatePlan plan
      if ¬ validation.ok then (⟨false, default, validation.reason⟩, env)
      else (successfulPlan plan, env)

def toPlanner (p : LLMPlanner σ) : Planner σ := ⟨p.plan, p.available⟩

end LLMPlanner

/-! ## Running an input -/

namespace Runtime

/-- `ConfigureLLMPlanner` on a runtime that is not `nil`: the runtime, and the package variable
`configuredLLMPlanner` that all runtimes share. -/
def configureLLMPlanner (planner : Option (Planner σ)) (r : Runtime σ) :
    Runtime σ × Option (Planner σ) :=
  match planner with
  | none => (unconfigured r, none)
  | some p =>
    if ¬ p.available then (unconfigured r, none) else ({ r with llmConfigured := true }, p)
where
  unconfigured (r : Runtime σ) : Runtime σ :=
    { r with
      llmConfigured := false
      plannerMode := if r.plannerMode = .llm then .deterministic else r.plannerMode }

/-- The first half of `Run`, which asks a planner. -/
def planInput (configuredLLMPlanner : Option (Planner σ)) (mode : PlannerMode) (input : List UInt8)
    (s : Store σ) : PlanningResult × Store σ :=
  if mode = .llm then
    match configuredLLMPlanner with
    | none => (⟨false, default, .llmBridgeNotConfigured⟩, s)
    | some planner =>
      let (planning, env) := planner.plan input s.context s.env
      (planning, { s with env })
  else (deterministicPlan input, s)

/-- What `Run` returns when there is no plan. -/
def planningFailed (reason : MessageKind) (s : Store σ) : Response × Store σ :=
  ((((default : Response).setResult false reason).setSafety .rejected .plannerFailed).addTrace
      .planner (traceFromMessage reason),
    s.onContext fun c =>
      { c with
        currentTask := .none
        lastIntent := .unknown
        lastAction := .none
        lastResultSummary := reason })

def run (configuredLLMPlanner : Option (Planner σ)) (r : Runtime σ) (input : List UInt8)
    (s : Store σ) : Response × Store σ :=
  let mode := r.plannerMode
  let (planning, s) := planInput configuredLLMPlanner mode input
    (s.onContext fun c => c.beginStringRequest input mode)
  if ¬ planning.ok then planningFailed planning.reason s
  else r.runPlan planning.plan s

end Runtime

end DavOS.Agent
