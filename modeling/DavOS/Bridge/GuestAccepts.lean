import DavOS.Bridge.Plan
import DavOS.Agent.Containment

/-!
# What the host accepts, the guest accepts

Reference: the `String` methods of `agent/types_host.go`.

The contract of an action is written twice: as a row of `actionContracts` on the host, and on the
guest in `bridgeActionIntent`, `actionRisk` and `actionRequiresTarget`. The two agree on the actions
of the guest's list (`contracts_agree`), so a plan that passes the host's check passes the guest's.
-/

namespace DavOS

open JsonText

namespace Agent

def IntentKind.string : IntentKind → String
  | .listFiles => "list_files"
  | .readFile => "read_file"
  | .writeFile => "write_file"
  | .deleteFile => "delete_file"
  | .statFile => "stat_file"
  | .showHelp => "show_help"
  | .showHistory => "show_history"
  | .showVersion => "show_version"
  | .showTicks => "show_ticks"
  | .showMemoryMap => "show_memory_map"
  | .setMode => "set_mode"
  | _ => "unknown"

def ActionKind.string : ActionKind → String
  | .listFiles => "list_files"
  | .readFile => "read_file"
  | .writeFile => "write_file"
  | .deleteFile => "delete_file"
  | .statFile => "stat_file"
  | .showHelp => "show_help"
  | .showHistory => "show_history"
  | .showVersion => "show_version"
  | .showTicks => "show_ticks"
  | .showMemoryMap => "show_memory_map"
  | .setMode => "set_mode"
  | _ => "unknown"

def RiskLevel.string : RiskLevel → String
  | .risky => "risky"
  | _ => "safe"

namespace LLMPlanner

variable {σ : Type} {bridge : BridgeClient σ} {input : List UInt8} {context : Option Context}
  {env env' : σ} {b : BridgeResponse} {reason : MessageKind}

/-- The guest plans what the bridge has answered, if the action is on its list and the plan is
valid. -/
theorem plan_of_response
    (hbridge : bridge.plan (newBridgeRequest input context) env = (⟨true, b, reason⟩, env'))
    (hkind : b.action ∈ allowedKinds) (hintent : bridgeActionIntent b.action = b.intent)
    (hvalid : (validatePlan (responsePlan b)).ok = true) :
    plan ⟨some bridge⟩ input context env = (successfulPlan (responsePlan b), env') := by
  have hallows : (newBridgeRequest input context).allows b.action = true := allows_iff.mpr hkind
  simp [plan, hbridge, hallows, hintent, hvalid]

/-- An action that is not on the list is refused. -/
theorem plan_of_not_allowed
    (hbridge : bridge.plan (newBridgeRequest input context) env = (⟨true, b, reason⟩, env'))
    (hkind : b.action ∉ allowedKinds) :
    plan ⟨some bridge⟩ input context env =
      (⟨false, default, .planContainsUnsupportedAction⟩, env') := by
  have hallows : (newBridgeRequest input context).allows b.action = false := by
    rw [← Bool.not_eq_true, allows_iff]
    exact hkind
  simp [plan, hbridge, hallows]

end LLMPlanner

end Agent

namespace Bridge

open Agent LLMPlanner

/-! ## The two contracts -/

/-- "unknown" names no action of the list. -/
theorem unknown_ne_string : ∀ kind ∈ allowedKinds, ofString "unknown" ≠ ofString kind.string := by
  decide

/-- The actions of the list have names of their own. -/
theorem action_of_string {action kind : ActionKind} (hkind : kind ∈ allowedKinds)
    (h : ofString action.string = ofString kind.string) : action = kind := by
  revert kind
  cases action with
  | other code =>
    intro kind hkind h
    exact absurd h (unknown_ne_string kind hkind)
  | _ => decide

/-- The intents of these actions have names of their own. -/
theorem intent_of_string {intent : IntentKind} {kind : ActionKind} (hkind : kind ∈ allowedKinds)
    (h : ofString intent.string = ofString (bridgeActionIntent kind).string) :
    bridgeActionIntent kind = intent := by
  revert kind
  cases intent with
  | other code =>
    have hunknown : ∀ kind ∈ allowedKinds,
        ofString "unknown" ≠ ofString (bridgeActionIntent kind).string := by decide
    intro kind hkind h
    exact absurd h (hunknown kind hkind)
  | _ => decide

/-- `String` gives the values beyond the two constants the name of the first. -/
theorem risk_of_string {risk : RiskLevel} {kind : ActionKind} (hrisk : risk = .safe ∨ risk = .risky)
    (hkind : kind ∈ allowedKinds) (h : ofString risk.string = ofString (actionRisk kind).string) :
    actionRisk kind = risk := by
  revert kind
  obtain rfl | rfl := hrisk <;> decide

/-- **The two contracts agree** on the actions of the guest's list. -/
theorem contracts_agree : ∀ kind ∈ allowedKinds, actionContracts.lookup (ofString kind.string) =
    some ⟨ofString (bridgeActionIntent kind).string, ofString (actionRisk kind).string,
      if actionRequiresTarget kind then 1 else 0⟩ := by
  decide +kernel

/-- The actions of the list are valid, and allowed for the LLM planner. -/
theorem planActions_of_allowed : ∀ kind ∈ allowedKinds, kind.valid ∧ allowedPlanAction kind := by
  decide

/-! ## The requests of the guest -/

/-- The field `allowedActions` of a request in JSON. -/
def renderedActions (request : BridgeRequest) : Value :=
  .arr ((request.allowedActions.toList.take request.allowedActionCount.toNat).map
    fun kind => .str (ofString kind.string))

variable {input : List UInt8} {context : Option Context} {request : List (Text × Value)}

/-- The host reads the guest's list. -/
theorem allowedActions_of_guest (hrequest : request.lookup (ofString "allowedActions") =
      some (renderedActions (newBridgeRequest input context))) :
    allowedActions (.obj request) = .ok (allowedKinds.map fun kind => ofString kind.string) := by
  have hrendered : renderedActions (newBridgeRequest input context) =
      .arr ((allowedKinds.map fun kind => ofString kind.string).map .str) := rfl
  have hknown : ((allowedKinds.map fun kind => ofString kind.string).all fun action =>
      (actionContracts.lookup action).isSome) = true := by
    decide +kernel
  simp only [allowedActions, hrequest, hrendered, texts_map_str, hknown, if_true]

/-! ## The plans that the host accepts -/

/-- A plan for an action of the guest's list, in the guest's terms. -/
structure GuestPlan (kind : ActionKind) (d : Draft) : Prop where
  kind_mem : kind ∈ allowedKinds
  action : d.action = ofString kind.string
  intent : d.intent = ofString (bridgeActionIntent kind).string
  risk : d.risk = ofString (actionRisk kind).string
  args : d.args.length = if actionRequiresTarget kind then 1 else 0
  target : ∀ arg ∈ d.args, ∃ bytes, utf8 arg = some bytes ∧ bytes ≠ [] ∧ bytes.length ≤ maxNameLen

/-- A plan that keeps a contract of the host is one in the guest's terms. -/
theorem guestPlan_of_keepsContract {kind : ActionKind} {d : Draft} {contract : Contract}
    (hkind : kind ∈ allowedKinds) (haction : d.action = ofString kind.string)
    (h : KeepsContract d contract) : GuestPlan kind d := by
  have hrow := h.row
  rw [haction, contracts_agree kind hkind] at hrow
  obtain rfl := Option.some.inj hrow
  refine ⟨hkind, haction, h.intent, h.risk, h.args, ?_⟩
  intro arg harg
  obtain ⟨hne, bytes, hbytes, hle⟩ := checkTargets_eq_ok.mp h.targets arg harg
  exact ⟨bytes, hbytes, ne_nil_of_utf8 hbytes hne, hle⟩

/-- What the host accepts is the unknown plan or one in the guest's terms. -/
theorem accepted_cases {fields : List (Text × Value)} {plan : Value}
    (hrequest : request.lookup (ofString "allowedActions") =
      some (renderedActions (newBridgeRequest input context)))
    (haccept : validateProviderPlan (.obj request) (.obj fields) = .ok plan) :
    ∃ d : Draft, d.fields = fields ∧ IsDraft d ∧ (IsUnknown d ∨ ∃ kind, GuestPlan kind d) := by
  obtain ⟨allowed, d, hallowed, hread, hcheck, -⟩ := validateProviderPlan_eq_ok.mp haccept
  obtain ⟨hfields, hdraft⟩ := readDraft_eq_ok.mp hread
  obtain rfl := Except.ok.inj ((allowedActions_of_guest hrequest).symm.trans hallowed)
  refine ⟨d, (Value.obj.inj hfields).symm, hdraft, ?_⟩
  refine (checkDraft_cases hcheck).imp_right ?_
  rintro ⟨hmem, contract, hkeeps⟩
  obtain ⟨kind, hkind, haction⟩ := List.mem_map.mp hmem
  exact ⟨kind, guestPlan_of_keepsContract hkind haction.symm hkeeps⟩

/-! ## The typed response -/

/-- The response `b` of the guest's bridge client for a plan in JSON: the names are those of the
plan, and the target is its only argument. -/
structure Typed (fields : List (Text × Value)) (b : BridgeResponse) : Prop where
  intent : fields.lookup (ofString "intent") = some (.str (ofString b.intent.string))
  action : fields.lookup (ofString "action") = some (.str (ofString b.action.string))
  risk : fields.lookup (ofString "risk") = some (.str (ofString b.risk.string))
  risk_constant : b.risk = .safe ∨ b.risk = .risky
  target : (argsOf fields = some [] ∧ b.targetLen = 0) ∨
    ∃ arg bytes, argsOf fields = some [arg] ∧ utf8 arg = some bytes ∧
      b.targetLen = bytes.length ∧ bytes <+: b.target.toList

/-- A field has one text. -/
theorem lookup_str_inj {fields : List (Text × Value)} {key s t : Text}
    (hs : fields.lookup key = some (.str s)) (ht : fields.lookup key = some (.str t)) : s = t :=
  Value.str.inj (Option.some.inj (hs.symm.trans ht))

/-- A target with the given first bytes. -/
def targetOf (bytes : List UInt8) (h : bytes.length ≤ maxNameLen) : Name :=
  ⟨(bytes ++ List.replicate (maxNameLen - bytes.length) 0).toArray, by simp; omega⟩

/-- The unknown plan has a typed form. -/
theorem IsDraft.exists_typed_unknown {d : Draft} (hdraft : IsDraft d) (h : IsUnknown d) :
    ∃ b, Typed d.fields b := by
  refine ⟨⟨.unknown, .unknown, .safe, default, 0⟩, ?_, ?_, ?_, .inl rfl, .inl ⟨?_, rfl⟩⟩
  · rw [hdraft.intent, h.intent]
    rfl
  · rw [hdraft.action, h.action]
    rfl
  · rw [hdraft.risk, h.risk]
    rfl
  · rw [hdraft.args, h.args]

/-- A plan in the guest's terms has a typed form. -/
theorem IsDraft.exists_typed {d : Draft} {kind : ActionKind} (hdraft : IsDraft d)
    (h : GuestPlan kind d) : ∃ b, Typed d.fields b := by
  have hrisk : actionRisk kind = .safe ∨ actionRisk kind = .risky := by
    rw [actionRisk]
    split <;> simp
  have hintent := hdraft.intent.trans (congrArg (some ∘ Value.str) h.intent)
  have haction := hdraft.action.trans (congrArg (some ∘ Value.str) h.action)
  have hrisk' := hdraft.risk.trans (congrArg (some ∘ Value.str) h.risk)
  cases hargs : d.args with
  | nil =>
    exact ⟨⟨bridgeActionIntent kind, kind, actionRisk kind, default, 0⟩, hintent, haction, hrisk',
      hrisk, .inl ⟨hdraft.args.trans (congrArg some hargs), rfl⟩⟩
  | cons arg rest =>
    have hlen := h.args
    rw [hargs, List.length_cons] at hlen
    obtain rfl : rest = [] := by
      apply List.eq_nil_of_length_eq_zero
      split_ifs at hlen
      omega
    obtain ⟨bytes, hbytes, -, hle⟩ := h.target arg (by simp [hargs])
    refine ⟨⟨bridgeActionIntent kind, kind, actionRisk kind, targetOf bytes hle, bytes.length⟩,
      hintent, haction, hrisk', hrisk, .inr ⟨arg, bytes, hdraft.args.trans (congrArg some hargs),
        hbytes, rfl, ?_⟩⟩
    exact List.prefix_append bytes _

/-- Its target passes the guest's checks. -/
theorem GuestPlan.targetLen {d : Draft} {kind : ActionKind} {b : BridgeResponse}
    (h : GuestPlan kind d) (hdraft : IsDraft d) (hb : Typed d.fields b) :
    (0 ≤ b.targetLen ∧ b.targetLen ≤ maxNameLen) ∧
      (actionRequiresTarget kind → b.targetLen ≠ 0) := by
  have hargs := h.args
  obtain ⟨hnone, hlen⟩ | ⟨arg, bytes, hone, hbytes, hlen, hprefix⟩ := hb.target
  · have hd : d.args = [] := Option.some.inj (hdraft.args.symm.trans hnone)
    rw [hlen]
    refine ⟨by omega, ?_⟩
    intro hrequires
    rw [hd, if_pos hrequires] at hargs
    cases hargs
  · have hd : d.args = [arg] := Option.some.inj (hdraft.args.symm.trans hone)
    obtain ⟨bytes', hbytes', hne, hle⟩ := h.target arg (by simp [hd])
    obtain rfl := Option.some.inj (hbytes.symm.trans hbytes')
    have hpos := List.length_pos_iff.mpr hne
    omega

/-- The guest's checks, on the typed response for a plan of its list. -/
theorem GuestPlan.accepted {d : Draft} {kind : ActionKind} {b : BridgeResponse}
    (h : GuestPlan kind d) (hdraft : IsDraft d) (hb : Typed d.fields b) :
    b.action ∈ allowedKinds ∧ bridgeActionIntent b.action = b.intent ∧
      (validatePlan (responsePlan b)).ok = true := by
  obtain ⟨hrange, hrequired⟩ := h.targetLen hdraft hb
  obtain rfl : b.action = kind :=
    action_of_string h.kind_mem (lookup_str_inj hb.action (h.action ▸ hdraft.action))
  have hintent := intent_of_string h.kind_mem (lookup_str_inj hb.intent (h.intent ▸ hdraft.intent))
  have hrisk := risk_of_string hb.risk_constant h.kind_mem
    (lookup_str_inj hb.risk (h.risk ▸ hdraft.risk))
  obtain ⟨hvalid, hplanned⟩ := planActions_of_allowed b.action h.kind_mem
  have hlevel : validRiskLevel b.risk = true := by
    obtain hsafe | hrisky := hb.risk_constant
    · rw [hsafe]
      rfl
    · rw [hrisky]
      rfl
  have hcount : (responsePlan b).actionCount = 1 := rfl
  refine ⟨h.kind_mem, hintent, validatePlan_ok_iff.mpr ⟨?_, ?_, ?_⟩⟩
  · rw [hcount]
    decide
  · rw [hcount]
    decide
  · rw [responsePlan_counted]
    intro action haction
    obtain rfl := List.mem_singleton.mp haction
    exact rejectAction_eq_none_iff.mpr
      ⟨⟨hvalid, fun _ => hplanned⟩, hlevel, hrange, rfl, hrequired, fun _ => hrisk⟩

/-- **What the host accepts, the guest accepts.** For a request with the guest's list of actions,
each plan that the host lets through has a typed response, and `Plan` makes of each such response
a valid plan of that one action, unless the action is unknown: then it rejects the response. -/
theorem host_plans_accepted {σ : Type} (input : List UInt8) (context : Option Context)
    (request fields : List (Text × Value)) (plan : Value)
    (hrequest : request.lookup (ofString "allowedActions") =
      some (renderedActions (newBridgeRequest input context)))
    (haccept : validateProviderPlan (.obj request) (.obj fields) = .ok plan) :
    (∃ b, Typed fields b) ∧
    ∀ b, Typed fields b → ∀ (bridge : BridgeClient σ) (env env' : σ) (reason : MessageKind),
      bridge.plan (newBridgeRequest input context) env = (⟨true, b, reason⟩, env') →
      let result := (LLMPlanner.plan ⟨some bridge⟩ input context env).1
      (fields.lookup (ofString "action") ≠ some (.str (ofString "unknown")) →
        result.ok = true ∧ result.plan.intent = b.intent ∧ result.plan.actionCount = 1 ∧
          result.plan.counted = [responseAction b] ∧ (validatePlan result.plan).ok = true) ∧
      (fields.lookup (ofString "action") = some (.str (ofString "unknown")) →
        result.ok = false) := by
  obtain ⟨d, rfl, hdraft, hunknown | ⟨kind, hguest⟩⟩ := accepted_cases hrequest haccept
  · have haction : d.fields.lookup (ofString "action") = some (.str (ofString "unknown")) :=
      hunknown.action ▸ hdraft.action
    refine ⟨hdraft.exists_typed_unknown hunknown, ?_⟩
    intro b hb bridge env env' reason hbridge
    refine ⟨fun hne => absurd haction hne, fun _ => ?_⟩
    have hkind : b.action ∉ allowedKinds := by
      intro hmem
      exact unknown_ne_string _ hmem (lookup_str_inj haction hb.action)
    rw [plan_of_not_allowed hbridge hkind]
  · refine ⟨hdraft.exists_typed hguest, ?_⟩
    intro b hb bridge env env' reason hbridge
    obtain ⟨hkind, hintent, hvalid⟩ := hguest.accepted hdraft hb
    rw [plan_of_response hbridge hkind hintent hvalid]
    refine ⟨fun _ => ⟨rfl, rfl, rfl, responsePlan_counted b, hvalid⟩, fun heq => ?_⟩
    exact absurd (lookup_str_inj heq hb.action) (unknown_ne_string _ hkind)

/-- A plan to read the file `a`. -/
def readPlan : List (Text × Value) :=
  [(ofString "intent", .str (ofString "read_file")),
    (ofString "action", .str (ofString "read_file")),
    (ofString "args", .arr [.str (ofString "a")]), (ofString "risk", .str (ofString "safe"))]

def readResponse : BridgeResponse :=
  ⟨.readFile, .readFile, .safe, targetOf (asciiBytes "a") (by decide), 1⟩

/-- `readResponse` is the typed form of the plan that reads a file. -/
theorem typed_readPlan : Typed readPlan readResponse where
  intent := rfl
  action := rfl
  risk := rfl
  risk_constant := .inl rfl
  target := .inr ⟨ofString "a", asciiBytes "a", rfl, rfl, rfl, List.prefix_append _ _⟩

/-- Host and guest accept that plan. -/
theorem read_plan_accepted :
    let request := [(ofString "allowedActions", renderedActions (newBridgeRequest [] none))]
    let bridge : BridgeClient Unit := ⟨fun _ env => (⟨true, readResponse, .none⟩, env)⟩
    let result := (LLMPlanner.plan ⟨some bridge⟩ [] none ()).1
    validateProviderPlan (.obj request) (.obj readPlan) = .ok (.obj readPlan) ∧
      result.ok = true ∧ result.plan.intent = .readFile ∧ result.plan.actionCount = 1 ∧
      result.plan.counted = [responseAction readResponse] ∧
      (validatePlan result.plan).ok = true := by
  intro request bridge result
  have haccept : validateProviderPlan (.obj request) (.obj readPlan) = .ok (.obj readPlan) := rfl
  refine ⟨haccept, ?_⟩
  refine ((host_plans_accepted [] none request readPlan _ rfl haccept).2 readResponse
    typed_readPlan bridge () () .none rfl).1 ?_
  rw [typed_readPlan.action]
  intro h
  exact absurd (Value.str.inj (Option.some.inj h)) (by decide)

end Bridge

end DavOS
