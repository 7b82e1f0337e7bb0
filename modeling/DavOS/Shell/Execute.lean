import DavOS.Shell.Output

/-!
# Executing a line

Reference: `execute`, the agent handlers, `runAgentNoTarget`, `runAgentAction`,
`runAgentTransportProbe`, `ConfigureAgentRuntime` and `Init` of `shell/shell.go`.

`runtimeAgent` is a variable of the shell whose executor holds the shell's own handlers. The planner
mode is the part of it that a handler changes (`agentSetMode`), so it is part of `Env`, what the
handlers work on. The executor is the one that `ConfigureAgentRuntime` sets.
-/

namespace DavOS.Shell

open Agent (ascii Name Action Context MessageKind ActionKind IntentKind RiskLevel PlannerMode
  ActionResult ActionHandler AllowedActionExecutor Runtime Store)

variable {σ : Type}

/-- What the handlers of the shell read and change. -/
structure Env (σ : Type) where
  plannerMode : PlannerMode
  llmConfigured : Bool
  history : History
  machine : σ

namespace Env

def print (m : Machine σ) (text : List UInt8) (env : Env σ) : Env σ :=
  { env with machine := m.print text env.machine }

/-- The planner of `runtimeAgent`. Its executor has no part in what is done with this. -/
def planner (env : Env σ) : Runtime (Env σ) where
  executor := ⟨none, none, none, none, none, none, none, none, none, none, none⟩
  executorConfigured := true
  plannerMode := env.plannerMode
  llmConfigured := env.llmConfigured

end Env

/-! ## Handlers -/

section Handlers

variable (m : Machine σ)

/-- A handler that does not look at the context. -/
def plainHandler (f : Action → Env σ → ActionResult × Env σ) : ActionHandler (Env σ) where
  onNil := f
  onContext action c env :=
    let (result, env) := f action env
    (result, c, env)

def agentListFiles : ActionHandler (Env σ) := plainHandler fun _ env =>
  let entries := m.fsEntries env.machine
  let text := entries.flatMap fun e =>
    nameText e.name e.nameLen ++ ascii "  size=" ++ uintText e.size ++ ascii "  page=0x" ++
      hexText 16 e.page.toNat ++ ascii "\n"
  (⟨true, if entries.length = 0 then .noFiles else .filesListed⟩, env.print m text)

def agentReadFile : ActionHandler (Env σ) := plainHandler fun action env =>
  if action.targetLen ≤ 0 then (⟨false, .missingFile⟩, env)
  else
    match m.fsLookup action.target action.targetLen env.machine with
    | none => (⟨false, .fileNotFound⟩, env)
    | some (page, size) =>
      let machine := (List.range size.toNat).foldl
        (fun s i => m.putRune (m.readByte (page + UInt64.ofNat i) s) s) env.machine
      (⟨true, .fileRead⟩, { env with machine := m.print (ascii "\n") machine })

def agentWriteFile : ActionHandler (Env σ) := plainHandler fun action env =>
  if action.dataLen < 0 ∨ action.dataLen > Agent.maxDataLen then
    (⟨false, .actionDataInvalid⟩, env)
  else if action.targetLen ≤ 0 then (⟨false, .missingFile⟩, env)
  else
    let (ok, machine) := m.fsWrite action.target action.targetLen
      (action.data.toList.take action.dataLen.toNat) env.machine
    (if ok then ⟨true, .ok⟩ else ⟨false, .actionUnavailable⟩, { env with machine })

def agentDeleteFile : ActionHandler (Env σ) := plainHandler fun action env =>
  if action.targetLen ≤ 0 then (⟨false, .missingFile⟩, env)
  else
    let (ok, machine) := m.fsRemove action.target action.targetLen env.machine
    (if ok then ⟨true, .ok⟩ else ⟨false, .fileNotFound⟩, { env with machine })

def agentStatFile : ActionHandler (Env σ) := plainHandler fun action env =>
  if action.targetLen ≤ 0 then (⟨false, .missingFile⟩, env)
  else
    match m.fsLookup action.target action.targetLen env.machine with
    | none => (⟨false, .fileNotFound⟩, env)
    | some (page, size) =>
      (⟨true, .fileStat⟩, env.print m (ascii "page=0x" ++ hexText 16 page.toNat ++
        ascii " size=" ++ uintText size ++ ascii "\n"))

def agentShowHelp : ActionHandler (Env σ) := plainHandler fun _ env => (⟨true, .agentHelp⟩, env)

def agentShowHistory : ActionHandler (Env σ) := plainHandler fun _ env =>
  (⟨true, .historyListed⟩, env.print m (historyText env.history))

def agentShowVersion : ActionHandler (Env σ) := plainHandler fun _ env =>
  (⟨true, .versionShown⟩, env.print m versionText)

def agentShowTicks : ActionHandler (Env σ) := plainHandler fun _ env =>
  match m.printTicks env.machine with
  | none => (⟨false, .actionUnavailable⟩, env)
  | some machine => (⟨true, .ticksShown⟩, { env with machine })

def agentShowMemoryMap : ActionHandler (Env σ) := plainHandler fun _ env =>
  (⟨true, .memoryMapShown⟩, env.print m (memoryMapText (m.mmapEntries env.machine)))

def actionTargetMatches (action : Action) (literal : String) : Bool :=
  action.targetLen = (ascii literal).length &&
    (List.range action.targetLen.toNat).all fun i => action.target[i]! = (ascii literal).getD i 0

/-- `agentSetMode` up to its last test, which is about the context. -/
def setModeResult (action : Action) (env : Env σ) : ActionResult × Env σ :=
  if action.targetLen = 0 then (env.planner.currentPlanner, env)
  else if actionTargetMatches action "deterministic" then
    let (result, r) := env.planner.setPlannerMode .deterministic
    (result, { env with plannerMode := r.plannerMode })
  else if actionTargetMatches action "llm" then
    let (result, r) := env.planner.setPlannerMode .llm
    (result, { env with plannerMode := r.plannerMode })
  else (⟨false, .unsupportedMode⟩, env)

def agentSetMode : ActionHandler (Env σ) where
  onNil := setModeResult
  onContext action c env :=
    let (result, env) := setModeResult action env
    -- the two early returns do not reach the assignment to the context
    if result.ok ∧ action.targetLen ≠ 0 then
      (result, { c with plannerMode := env.plannerMode }, env)
    else (result, c, env)

/-- The executor that `ConfigureAgentRuntime` sets. -/
def newAgentExecutor : AllowedActionExecutor (Env σ) where
  listFiles := some (agentListFiles m)
  readFile := some (agentReadFile m)
  writeFile := some (agentWriteFile m)
  deleteFile := some (agentDeleteFile m)
  statFile := some (agentStatFile m)
  showHelp := some agentShowHelp
  showHistory := some (agentShowHistory m)
  showVersion := some (agentShowVersion m)
  showTicks := some (agentShowTicks m)
  showMemoryMap := some (agentShowMemoryMap m)
  setMode := some agentSetMode

/-- `runtimeAgent`, once it is configured. -/
def runtimeAgent (env : Env σ) : Runtime (Env σ) :=
  { env.planner with executor := newAgentExecutor m }

end Handlers

/-! ## Messages -/

/-- The text of `printAgentMessage`. -/
def agentMessageText : MessageKind → String
  | .plannerFailed => "agent: planner failed"
  | .validationFailed => "validation_failed"
  | .planHasNoActions => "agent: plan has no actions"
  | .planHasTooManyActions => "agent: plan has too many actions"
  | .planContainsUnsupportedAction => "agent: plan contains unsupported action"
  | .actionRiskInvalid => "agent: action risk is invalid"
  | .actionTargetInvalid => "agent: action target is invalid"
  | .actionDataInvalid => "agent: action data is invalid"
  | .confirmationRequired => "This action may remove data.\nConfirm? type: yes"
  | .actionCancelled => "agent: action cancelled"
  | .executorNotConfigured => "agent: executor not configured"
  | .unsupportedAction => "agent: unsupported action"
  | .actionUnavailable => "agent: action unavailable"
  | .noResult => "agent: no result"
  | .completedPlan => "agent: completed plan"
  | .ok => "ok"
  | .filesListed => "agent: files listed"
  | .noFiles => "agent: no files"
  | .fileRead => "agent: file read"
  | .fileStat => "agent: file stat"
  | .missingFile => "agent: missing file"
  | .fileNotFound => "agent: file not found"
  | .agentHelp =>
    "Agent commands:\n" ++
    "  agent show files    - Show files managed by the agent\n" ++
    "  agent show history  - Show command history stored by the agent\n" ++
    "  agent show version  - Show OS version through the agent\n" ++
    "  agent show ticks    - Show PIT ticks through the agent\n" ++
    "  agent show memorymap - Show memory map through the agent\n" ++
    "  agent read <name>   - Read a file through the agent\n" ++
    "  agent stat <name>   - Show file metadata through the agent\n" ++
    "  agent delete <name> - Delete a file after confirmation\n" ++
    "  agent mode [mode]   - Show or switch agent mode\n" ++
    "  agent transport ping - Probe the guest-host transport\n" ++
    "  agent context       - Show current agent context\n" ++
    "  agent help          - Show agent commands"
  | .historyListed => "agent: history listed"
  | .versionShown => "agent: version shown"
  | .ticksShown => "agent: ticks shown"
  | .memoryMapShown => "agent: memory map shown"
  | .deterministicMode => "Current planner: deterministic"
  | .llmMode => "Current planner: llm"
  | .plannerSwitchedDeterministic => "Planner switched to: deterministic"
  | .plannerSwitchedLLM => "Planner switched to: llm"
  | .llmModeNotConfigured => "agent: llm bridge unavailable"
  | .unsupportedMode => "agent: unsupported mode"
  | _ => ""

def agentContextKindNames : List String :=
  ["none", "list_files", "read_file", "write_file", "delete_file", "stat_file", "show_help",
    "show_history", "show_version", "show_ticks", "show_memory_map", "set_mode"]

/-- The text of `printAgentContextKind`. The constants of the source count from 0, as the
constructors of the model do. -/
def agentContextKindText (kind : ℕ) : List UInt8 :=
  ascii (agentContextKindNames.getD (if kind ≥ agentContextKindNames.length then 0 else kind) "")

/-- The text of `printAgentContext`. -/
def agentContextText (c : Context) : List UInt8 :=
  ascii "Agent context:\n" ++ ascii "  current task: " ++
  agentContextKindText c.currentTask.ctorIdx ++
  ascii "\n  last input: " ++
  (if c.lastInputLen = 0 then ascii "none"
    else (List.range c.lastInputLen.toNat).map fun i => c.lastInput[i]!) ++
  ascii "\n  last intent: " ++ agentContextKindText c.lastIntent.ctorIdx ++
  ascii "\n  last action: " ++ agentContextKindText c.lastAction.ctorIdx ++
  ascii "\n  last result: " ++
  ascii (match c.lastResultSummary with
    | .none => "none"
    | .agentHelp => "agent: help shown"
    | message => agentMessageText message) ++
  ascii "\n  request count: " ++ uintText c.requestCount ++
  ascii "\n  planner mode: " ++
  ascii (if c.plannerMode = .llm then "llm" else "deterministic") ++ ascii "\n"

/-- The text of `printAgentTransportError`. -/
def agentTransportErrorText : Serial.Result → String
  | .portUnavailable => "agent: transport unavailable"
  | .writeTimeout | .readTimeout => "agent: transport timeout"
  | .partialFrame => "agent: transport partial response"
  | .oversizedFrame => "agent: transport response too large"
  | _ => "agent: transport malformed response"

/-! ## Agent commands -/

/-- The variables of the shell, and the actions its handlers have been called with. -/
structure State (σ : Type) where
  tmpName : Name
  transportRequest : Serial.Payload
  transportResponse : Serial.Payload
  serial : Serial.Globals
  agentContext : Context
  env : Env σ
  calls : List Action

namespace State

variable (m : Machine σ)

def print (text : List UInt8) (sh : State σ) : State σ := { sh with env := sh.env.print m text }

/-- What a call of the agent runtime works on; the shell passes a pointer to its own context. -/
def store (sh : State σ) : Store (Env σ) := ⟨some sh.agentContext, sh.env, sh.calls⟩

/-- The shell after a call of the agent runtime. -/
def withStore (s : Store (Env σ)) (sh : State σ) : State σ :=
  { sh with
    agentContext := s.context.getD sh.agentContext
    env := s.env
    calls := s.calls }

/-- The copy of the line that goes with a request. -/
def requestInput (line : Line) (inputStart inputEnd : ℕ) : Vector UInt8 Agent.maxContextInput :=
  (List.range (inputEnd - inputStart)).foldl (fun b i => b.set! i line.buf[inputStart + i]!)
    (Vector.replicate Agent.maxContextInput 0)

/-- The call of `RunActionRequestMessage` in `runAgentNoTarget` and `runAgentAction`. -/
def runActionRequestMessage (kind : ActionKind) (intent : IntentKind) (risk : RiskLevel)
    (target : Option Name) (targetLen : ℕ) (line : Line) (inputStart inputEnd : ℕ) (sh : State σ) :
    MessageKind × State σ :=
  let inputLen := inputEnd - inputStart
  let (message, s) := Runtime.runActionRequestMessage (some (runtimeAgent m sh.env)) kind intent
    risk target targetLen (some (requestInput line inputStart inputEnd)) inputLen sh.store
  (message, sh.withStore s)

def printAgentMessage (message : MessageKind) (sh : State σ) : State σ :=
  sh.print m (ascii (agentMessageText message))

def runAgentNoTarget (kind : ActionKind) (intent : IntentKind) (risk : RiskLevel) (line : Line)
    (inputStart inputEnd : ℕ) (sh : State σ) : State σ :=
  let (message, sh) := sh.runActionRequestMessage m kind intent risk none 0 line inputStart inputEnd
  (sh.printAgentMessage m message).print m (ascii "\n")

def runAgentAction (kind : ActionKind) (intent : IntentKind) (risk : RiskLevel) (line : Line)
    (targetStart targetEnd inputStart inputEnd : ℕ) (sh : State σ) : State σ :=
  match line.copyNameFromRange targetStart targetEnd with
  | none => sh.print m (ascii "agent: invalid target\n")
  | some tmpName =>
    let targetLen := targetEnd - targetStart
    let (message, sh) := { sh with tmpName }.runActionRequestMessage m kind intent risk
      (some tmpName) targetLen line inputStart inputEnd
    let sh :=
      if message = .confirmationRequired ∧ kind = .deleteFile then
        sh.print m (ascii "Agent understood: delete file \"" ++ nameText tmpName targetLen ++
          ascii "\"\n")
      else sh
    (sh.printAgentMessage m message).print m (ascii "\n")

def runAgentTransportProbe (sh : State σ) : State σ :=
  let request := (List.range 4).foldl (fun b i => b.set! i ((ascii "ping").getD i 0))
    sh.transportRequest
  let o := Serial.exchange m.port (some request) 4 (some sh.transportResponse) sh.serial
    sh.env.machine
  let response := o.response.getD sh.transportResponse
  let sh := { sh with
    transportRequest := request
    transportResponse := response
    serial := o.globals
    env := { sh.env with machine := o.port } }
  if o.result ≠ .ok then sh.print m (ascii (agentTransportErrorText o.result) ++ ascii "\n")
  else if o.length ≠ 4 ∨ ¬ (List.range 4).all fun i => response[i]! = (ascii "pong").getD i 0 then
    sh.print m (ascii "agent: transport invalid response\n")
  else sh.print m (ascii "Agent transport: connected\n")

/-- The branch of `agent show`. -/
def agentShow (line : Line) (start stop a1e : ℕ) (sh : State σ) : State σ :=
  let usage := ascii "Usage: agent show <files|history|version|ticks|memorymap>\n"
  match line.nextArg a1e stop with
  | none => sh.print m usage
  | some (a2s, a2e) =>
    if line.matchLiteral a2s a2e "files" then
      sh.runAgentNoTarget m .listFiles .listFiles .safe line start stop
    else if line.matchLiteral a2s a2e "history" then
      sh.runAgentNoTarget m .showHistory .showHistory .safe line start stop
    else if line.matchLiteral a2s a2e "version" then
      sh.runAgentNoTarget m .showVersion .showVersion .safe line start stop
    else if line.matchLiteral a2s a2e "ticks" then
      sh.runAgentNoTarget m .showTicks .showTicks .safe line start stop
    else if line.matchLiteral a2s a2e "memorymap" ∨ line.matchLiteral a2s a2e "memory_map" then
      sh.runAgentNoTarget m .showMemoryMap .showMemoryMap .safe line start stop
    else sh.print m usage

/-- The branches of `agent read`, `agent delete` and `agent stat`. -/
def agentTarget (kind : ActionKind) (intent : IntentKind) (risk : RiskLevel) (usage : String)
    (line : Line) (start stop a1e : ℕ) (sh : State σ) : State σ :=
  match line.nextArg a1e stop with
  | none => sh.print m (ascii usage)
  | some (a2s, a2e) => sh.runAgentAction m kind intent risk line a2s a2e start stop

/-- The branch of `agent mode`. -/
def agentMode (line : Line) (start stop a1e : ℕ) (sh : State σ) : State σ :=
  match line.nextArg a1e stop with
  | none => sh.runAgentNoTarget m .setMode .setMode .safe line start stop
  | some (a2s, a2e) => sh.runAgentAction m .setMode .setMode .safe line a2s a2e start stop

/-- The branch of `agent transport`. -/
def agentTransport (line : Line) (stop a1e : ℕ) (sh : State σ) : State σ :=
  let usage := ascii "Usage: agent transport ping\n"
  match line.nextArg a1e stop with
  | none => sh.print m usage
  | some (a2s, a2e) =>
    if line.nextArg a2e stop ≠ none ∨ ¬ line.matchLiteral a2s a2e "ping" then sh.print m usage
    else sh.runAgentTransportProbe m

/-- The branch of the command `agent`, whose name ends at `cmdEnd`. -/
def executeAgent (line : Line) (start stop cmdEnd : ℕ) (sh : State σ) : State σ :=
  match line.nextArg cmdEnd stop with
  | none =>
    sh.print m (ascii "Usage: agent <show|read|stat|delete|mode|transport|context|help> [arg]\n")
  | some (a1s, a1e) =>
    if line.matchLiteral a1s a1e "show" then sh.agentShow m line start stop a1e
    else if line.matchLiteral a1s a1e "read" then
      sh.agentTarget m .readFile .readFile .safe "Usage: agent read <name>\n" line start stop a1e
    else if line.matchLiteral a1s a1e "delete" then
      sh.agentTarget m .deleteFile .deleteFile .risky "Usage: agent delete <name>\n" line start stop
        a1e
    else if line.matchLiteral a1s a1e "stat" then
      sh.agentTarget m .statFile .statFile .safe "Usage: agent stat <name>\n" line start stop a1e
    else if line.matchLiteral a1s a1e "mode" then sh.agentMode m line start stop a1e
    else if line.matchLiteral a1s a1e "transport" then sh.agentTransport m line stop a1e
    else if line.matchLiteral a1s a1e "context" then sh.print m (agentContextText sh.agentContext)
    else if line.matchLiteral a1s a1e "help" then
      sh.runAgentNoTarget m .showHelp .showHelp .safe line start stop
    else sh.print m (ascii "Try with agent help to see available commands\n")

/-! ## Lines -/

def helpText : List UInt8 :=
  ascii ("Commands: help, history, clear, echo, ticks, uptime, mem, mmap, mmapmax, pfa, alloc, " ++
    "free, ls, write, cat, rm, stat, disk, fatinit, fatformat, fatinfo, fatls, fatcreate, " ++
    "fatread, layout, version, run, agent\n")

/-- The branch of a command that is not `agent`. -/
def executeCommand (line : Line) (stop cmdEnd : ℕ) (command : Command) (sh : State σ) : State σ :=
  match command with
  | .history => sh.print m (historyText sh.env.history)
  | .help => sh.print m helpText
  | .echo => sh.print m (line.slice (line.trimLeft cmdEnd stop) stop ++ ascii "\n")
  | .ticks =>
    match m.printTicks sh.env.machine with
    | none => sh.print m (ascii "ticks: not wired yet\n")
    | some machine => { sh with env := { sh.env with machine } }
  | .mmap => sh.print m (memoryMapText (m.mmapEntries sh.env.machine))
  | .version => sh.print m versionText
  | command =>
    let (tmpName, machine) := m.command command line cmdEnd stop (sh.tmpName, sh.env.machine)
    { sh with
      tmpName
      env := { sh.env with machine } }

/-- `execute`, for what `lineBuf` and `lineLen` hold. -/
def execute (line : Line) (sh : State σ) : State σ :=
  let start := line.trimLeft 0 line.len
  let stop := line.trimRight start line.len
  if sh.agentContext.confirmationPending then
    let (message, s) := Runtime.confirmActionMessage (some (runtimeAgent m sh.env))
      (start < stop && line.matchLiteral start stop "yes") sh.store
    ((sh.withStore s).printAgentMessage m message).print m (ascii "\n")
  else if start ≥ stop then sh
  else
    let sh := { sh with env := { sh.env with history := sh.env.history.add line start stop } }
    let (cmdStart, cmdEnd) := line.firstToken start stop
    match Command.all.find? fun c => line.matchLiteral cmdStart cmdEnd c.literal with
    | some command => sh.executeCommand m line stop cmdEnd command
    | none =>
      if line.matchLiteral cmdStart cmdEnd "agent" then sh.executeAgent m line start stop cmdEnd
      else
        { sh with
          env := { sh.env with machine := m.suggest line cmdStart cmdEnd sh.env.machine } }

/-! ## Starting the shell -/

/-- `ConfigureAgentRuntime`; the handlers it sets are those of `runtimeAgent`. -/
def configureAgentRuntime (sh : State σ) : State σ :=
  let r := sh.env.planner.copyPlannerConfiguration none
  { sh with
    env := { sh.env with
      plannerMode := r.plannerMode
      llmConfigured := r.llmConfigured } }

def init (sh : State σ) : State σ :=
  { sh with agentContext := default }.print m (ascii "Welcome to DavOS 0.5.0\n> ")

end State

end DavOS.Shell
