import Mathlib.Data.Nat.Notation
import Mathlib.Data.Int.Notation

/-!
# Agent types

Reference: `agent/types.go`, and `BeginStringRequest` of `agent/types_host.go`.

The `uint8` types of the source get an inductive type with one constructor per constant. Where
callers may pass any byte, a last constructor `other` stands for the values beyond the constants.
Lengths and counts are Go's `int`, here `ℤ`, since plans and bridge responses arrive with negative
and oversized ones. `Inhabited` instances are the zero values of Go.
-/

namespace DavOS.Agent

abbrev maxActions : ℕ := 4
abbrev maxTraceEntries : ℕ := 8
abbrev maxNameLen : ℕ := 16
abbrev maxDataLen : ℕ := 128
abbrev maxRecentItems : ℕ := 4
abbrev maxContextInput : ℕ := 128

inductive PlannerMode
  | deterministic
  | llm
  | other (code : UInt8)
deriving DecidableEq, Repr, Inhabited

inductive IntentKind
  | unknown
  | listFiles
  | readFile
  | writeFile
  | deleteFile
  | statFile
  | showHelp
  | showHistory
  | showVersion
  | showTicks
  | showMemoryMap
  | setMode
  | other (code : UInt8)
deriving DecidableEq, Repr, Inhabited

inductive ActionKind
  | unknown
  | listFiles
  | readFile
  | writeFile
  | deleteFile
  | statFile
  | showHelp
  | showHistory
  | showVersion
  | showTicks
  | showMemoryMap
  | setMode
  | other (code : UInt8)
deriving DecidableEq, Repr, Inhabited

namespace ActionKind

/-- `ActionNone` -/
abbrev none : ActionKind := unknown

/-- `Valid` -/
def valid : ActionKind → Bool
  | listFiles | readFile | writeFile | statFile | showHelp | showHistory | showVersion | showTicks
  | showMemoryMap | setMode | deleteFile => true
  | _ => false

end ActionKind

inductive RiskLevel
  | safe
  | risky
  | other (code : UInt8)
deriving DecidableEq, Repr, Inhabited

/-- `ExpectedRisk`, which nothing in the source calls. -/
def ActionKind.expectedRisk (k : ActionKind) : RiskLevel :=
  if k = .deleteFile ∨ k = .writeFile then .risky else .safe

inductive SafetyStatus
  | rejected
  | allowed
  | confirmationRequired
deriving DecidableEq, Repr, Inhabited

inductive MessageKind
  | none
  | plannerFailed
  | plannerMissing
  | validationFailed
  | planHasNoActions
  | planHasTooManyActions
  | planContainsUnsupportedAction
  | actionRiskInvalid
  | actionTargetInvalid
  | actionDataInvalid
  | confirmationRequired
  | actionCancelled
  | executorNotConfigured
  | executorMissing
  | unsupportedAction
  | actionUnavailable
  | noResult
  | completedPlan
  | ok
  | filesListed
  | noFiles
  | fileRead
  | fileStat
  | missingFile
  | fileNotFound
  | agentHelp
  | historyListed
  | versionShown
  | ticksShown
  | memoryMapShown
  | deterministicMode
  | llmMode
  | plannerSwitchedDeterministic
  | plannerSwitchedLLM
  | llmModeNotConfigured
  | unsupportedMode
  | readFailed
  | help
  | one
  | two
  | llmBridgeNotConfigured
  | llmBridgeFailed
  | bridgeTimeout
  | other (code : UInt8)
deriving DecidableEq, Repr, Inhabited

inductive TraceKind
  | none
  | planner
  | intent
  | validation
  | safety
  | executor
  | formatter
deriving DecidableEq, Repr, Inhabited

inductive TraceDetail
  | none
  | missing
  | failed
  | ok
  | allowed
  | rejected
  | confirmationRequired
  | success
  | structured
  | deterministic
  | llm
  | listFiles
  | readFile
  | writeFile
  | deleteFile
  | statFile
  | showHelp
  | showHistory
  | showVersion
  | showTicks
  | showMemoryMap
  | setMode
deriving DecidableEq, Repr, Inhabited

/-- A fixed-size name buffer; only a first part of it is meant. -/
abbrev Name := Vector UInt8 maxNameLen

structure Action where
  kind : ActionKind
  risk : RiskLevel
  target : Name
  targetLen : ℤ
  data : Vector UInt8 maxDataLen
  dataLen : ℤ
deriving DecidableEq, Inhabited

structure Plan where
  planner : PlannerMode
  intent : IntentKind
  confidence : UInt8
  actions : Vector Action maxActions
  actionCount : ℤ
deriving DecidableEq, Inhabited

structure PlanningResult where
  ok : Bool
  plan : Plan
  reason : MessageKind
deriving DecidableEq, Inhabited

structure ValidationResult where
  ok : Bool
  reason : MessageKind
deriving DecidableEq, Repr, Inhabited

structure SafetyDecision where
  status : SafetyStatus
  reason : MessageKind
deriving DecidableEq, Repr, Inhabited

structure ActionResult where
  ok : Bool
  message : MessageKind
deriving DecidableEq, Repr, Inhabited

structure TraceEntry where
  stage : TraceKind
  detail : TraceDetail
deriving DecidableEq, Repr, Inhabited

structure Response where
  trace : Vector TraceEntry maxTraceEntries
  traceCount : ℕ
  result : ActionResult
  safety : SafetyDecision
deriving DecidableEq, Inhabited

namespace Response

def addTrace (stage : TraceKind) (detail : TraceDetail) (r : Response) : Response :=
  if r.traceCount ≥ maxTraceEntries then r
  else { r with trace := r.trace.set! r.traceCount ⟨stage, detail⟩, traceCount := r.traceCount + 1 }

/-- `setResponseResult` -/
def setResult (ok : Bool) (message : MessageKind) (r : Response) : Response :=
  { r with result := ⟨ok, message⟩ }

def setSafety (status : SafetyStatus) (reason : MessageKind) (r : Response) : Response :=
  { r with safety := ⟨status, reason⟩ }

end Response

structure Context where
  currentTask : ActionKind
  lastInput : Vector UInt8 maxContextInput
  lastInputLen : ℤ
  lastIntent : IntentKind
  lastAction : ActionKind
  lastResultSummary : MessageKind
  requestCount : UInt64
  plannerMode : PlannerMode
  recentCount : ℤ
  pendingPlan : Plan
  confirmationPending : Bool
deriving DecidableEq, Inhabited

namespace Context

/-- `BeginRequest` on a context that is not `nil`. -/
def beginRequest (input : Option (Vector UInt8 maxContextInput)) (inputLen : ℤ)
    (planner : PlannerMode) (c : Context) : Context :=
  let inputLen := if inputLen < 0 then 0 else inputLen
  let inputLen := if inputLen > maxContextInput then (maxContextInput : ℤ) else inputLen
  let inputLen := if input = none then 0 else inputLen
  let source := input.getD c.lastInput
  { c with
    lastInput := (List.range inputLen.toNat).foldl (fun b i => b.set! i source[i]!) c.lastInput
    lastInputLen := inputLen
    requestCount := c.requestCount + 1
    plannerMode := planner
    currentTask := .none
    recentCount := if c.recentCount < maxRecentItems then c.recentCount + 1 else c.recentCount }

/-- `BeginStringRequest` on a context that is not `nil`. -/
def beginStringRequest (input : List UInt8) (planner : PlannerMode) (c : Context) : Context :=
  let inputLen := min input.length maxContextInput
  let request := (List.range inputLen).foldl (fun b i => b.set! i (input.getD i 0))
    (Vector.replicate maxContextInput 0)
  c.beginRequest (some request) inputLen planner

end Context

end DavOS.Agent
