import DavOS.Lib.JsonText

/-!
# The host's check of plans

Reference: `validate_provider_plan` of `scripts/agent_bridge_planner.py`.

A plan is accepted if it has the fields of one, names an action of the request's list, and agrees
with the row of that action in `actionContracts`; or if it is the plan for an unknown action.
-/

namespace DavOS.Bridge

open JsonText

/-- The exceptions that the bridge turns into responses. -/
inductive ErrorClass
  | planner
  | protocol
  | provider
deriving DecidableEq

/-- An exception: `error.code` and `str(error)`. -/
structure BridgeError where
  errorClass : ErrorClass
  code : Text
  message : Text

def plannerError (message : String) : BridgeError where
  errorClass := .planner
  code := ofString "planner_error"
  message := ofString message

abbrev maxTargetBytes : ℕ := 16
abbrev maxExplanationBytes : ℕ := 256

def responseFields : List Text :=
  ["intent", "action", "args", "risk", "explanation"].map ofString

def requiredResponseFields : List Text := ["intent", "action", "risk"].map ofString

/-- The intent, the risk and the number of arguments of an action. -/
structure Contract where
  intent : Text
  risk : Text
  args : ℕ
deriving DecidableEq

def actionContracts : List (Text × Contract) :=
  [("list_files", "list_files", "safe", 0),
    ("read_file", "read_file", "safe", 1),
    ("write_file", "write_file", "risky", 1),
    ("stat_file", "stat_file", "safe", 1),
    ("delete_file", "delete_file", "risky", 1),
    ("show_history", "show_history", "safe", 0),
    ("show_version", "show_version", "safe", 0),
    ("show_ticks", "show_ticks", "safe", 0),
    ("show_memory_map", "show_memory_map", "safe", 0)].map
    fun (action, intent, risk, args) => (ofString action, ⟨ofString intent, ofString risk, args⟩)

/-- The strings of a list that holds nothing else. -/
def texts : List Value → Option (List Text)
  | [] => some []
  | .str s :: rest => (texts rest).map (s :: ·)
  | _ :: _ => none

/-- A list of strings is read back. -/
theorem texts_map_str (args : List Text) : texts (args.map .str) = some args := by
  induction args with
  | nil => rfl
  | cons s rest ih => rw [List.map_cons, texts, ih, Option.map_some]

def utf8Length (value : Text) : Except BridgeError ℕ :=
  match utf8 value with
  | none => .error (plannerError "provider returned invalid text")
  | some bytes => .ok bytes.length

/-- `_allowed_actions` -/
def allowedActions (request : Value) : Except BridgeError (List Text) :=
  match request with
  | .obj fields =>
    let invalid := .error (plannerError "planner action allowlist is invalid")
    match fields.lookup (ofString "allowedActions") with
    | some (.arr actions) =>
      match texts actions with
      | some actions =>
        if actions.all fun action => (actionContracts.lookup action).isSome then .ok actions
        else invalid
      | none => invalid
    | _ => invalid
  | _ => .error (plannerError "planner request is invalid")

/-- `_with_args` -/
def withArgs (fields : List (Text × Value)) (args : List Text) : List (Text × Value) :=
  setField (ofString "args") (.arr (args.map .str)) fields

/-- A response with the types of a plan. -/
structure Draft where
  fields : List (Text × Value)
  intent : Text
  action : Text
  args : List Text
  risk : Text

/-- `response.get("args", [])`, if it is a list of strings. -/
def argsOf (fields : List (Text × Value)) : Option (List Text) :=
  match fields.lookup (ofString "args") with
  | none => some []
  | some (.arr args) => texts args
  | some _ => none

def checkExplanation (fields : List (Text × Value)) : Except BridgeError Unit :=
  match fields.lookup (ofString "explanation") with
  | none => .ok ()
  | some (.str explanation) => do
    if (← utf8Length explanation) > maxExplanationBytes then
      .error (plannerError "provider explanation is too large")
    else .ok ()
  | some _ => .error (plannerError "provider returned an invalid explanation")

/-- The first half of `validate_provider_plan`: the fields and their types. -/
def readDraft (response : Value) : Except BridgeError Draft :=
  match response with
  | .obj fields =>
    let keys := fields.map Prod.fst
    if keys.any (· ∉ responseFields) ∨ ¬requiredResponseFields.all (· ∈ keys) then
      .error (plannerError "provider returned unsupported fields")
    else
      match fields.lookup (ofString "intent"), fields.lookup (ofString "action"),
        fields.lookup (ofString "risk") with
      | some (.str intent), some (.str action), some (.str risk) =>
        match argsOf fields with
        | none => .error (plannerError "provider returned invalid action arguments")
        | some args => do
          checkExplanation fields
          .ok ⟨fields, intent, action, args, risk⟩
      | _, _, _ => .error (plannerError "provider returned an invalid plan")
  | _ => .error (plannerError "provider returned an invalid plan")

/-- `any(not arg or _utf8_length(arg) > MAX_TARGET_BYTES for arg in args)`, as a check. -/
def checkTargets : List Text → Except BridgeError Unit
  | [] => .ok ()
  | arg :: rest => do
    if arg = [] then .error (plannerError "provider action target is invalid")
    else if (← utf8Length arg) > maxTargetBytes then
      .error (plannerError "provider action target is invalid")
    else checkTargets rest

/-- The second half of `validate_provider_plan`: the contract of the action. -/
def checkDraft (allowed : List Text) (d : Draft) : Except BridgeError Unit :=
  if d.action = ofString "unknown" then
    if d.intent ≠ ofString "unknown" ∨ d.risk ≠ ofString "safe" ∨ d.args ≠ [] then
      .error (plannerError "provider returned an invalid unknown action")
    else .ok ()
  else if d.action ∉ allowed then .error (plannerError "provider action is not allowed")
  else
    match actionContracts.lookup d.action with
    | none => .error (plannerError "provider returned an unknown action")
    | some contract =>
      if d.intent ≠ contract.intent ∨ d.risk ≠ contract.risk then
        .error (plannerError "provider returned an invalid action contract")
      else if d.args.length ≠ contract.args then
        .error (plannerError "provider returned invalid action arguments")
      else checkTargets d.args

def validateProviderPlan (request response : Value) : Except BridgeError Value := do
  let allowed ← allowedActions request
  let d ← readDraft response
  checkDraft allowed d
  .ok (.obj (withArgs d.fields d.args))

/-! ## What is accepted -/

/-- A sequence succeeds if each part does. -/
theorem bind_eq_ok {ε α β : Type} {x : Except ε α} {f : α → Except ε β} {b : β} :
    (x >>= f) = .ok b ↔ ∃ a, x = .ok a ∧ f a = .ok b := by
  cases x with
  | error e => simp [bind, Except.bind]
  | ok a => simp [bind, Except.bind]

/-- What passes: a draft that can be read and is allowed, with its arguments filled in. -/
theorem validateProviderPlan_eq_ok {request response plan : Value} :
    validateProviderPlan request response = .ok plan ↔
      ∃ allowed d, allowedActions request = .ok allowed ∧ readDraft response = .ok d ∧
        checkDraft allowed d = .ok () ∧ plan = .obj (withArgs d.fields d.args) := by
  simp only [validateProviderPlan, bind_eq_ok, Except.ok.injEq]
  constructor
  · rintro ⟨allowed, hallowed, d, hread, ⟨⟩, hcheck, rfl⟩
    exact ⟨allowed, d, hallowed, hread, hcheck, rfl⟩
  · rintro ⟨allowed, d, hallowed, hread, hcheck, rfl⟩
    exact ⟨allowed, hallowed, d, hread, (), hcheck, rfl⟩

/-- The fields that make a draft. -/
structure IsDraft (d : Draft) : Prop where
  known : ∀ key ∈ d.fields.map Prod.fst, key ∈ responseFields
  required : ∀ key ∈ requiredResponseFields, key ∈ d.fields.map Prod.fst
  intent : d.fields.lookup (ofString "intent") = some (.str d.intent)
  action : d.fields.lookup (ofString "action") = some (.str d.action)
  risk : d.fields.lookup (ofString "risk") = some (.str d.risk)
  args : argsOf d.fields = some d.args
  explanation : checkExplanation d.fields = .ok ()

/-- A draft can be read exactly if its fields have the types and limits. -/
theorem readDraft_eq_ok {response : Value} {d : Draft} :
    readDraft response = .ok d ↔ response = .obj d.fields ∧ IsDraft d := by
  constructor
  · intro h
    cases response with
    | obj fields =>
      simp only [readDraft] at h
      split at h
      case isTrue => cases h
      case isFalse hkeys =>
        simp only [not_or, not_not, List.any_eq_true, List.all_eq_true, decide_eq_true_eq,
          not_exists, not_and] at hkeys
        split at h
        case h_1 intent action risk hintent haction hrisk =>
          cases hargs : argsOf fields with
          | none =>
            rw [hargs] at h
            cases h
          | some args =>
            rw [hargs] at h
            cases hexplanation : checkExplanation fields with
            | error e =>
              simp only [hexplanation] at h
              cases h
            | ok u =>
              simp only [hexplanation] at h
              cases h
              exact ⟨rfl, hkeys.1, hkeys.2, hintent, haction, hrisk, hargs, hexplanation⟩
        case h_2 => cases h
    | _ => cases h
  · rintro ⟨rfl, h⟩
    have hkeys : ¬((d.fields.map Prod.fst).any (· ∉ responseFields) ∨
        ¬requiredResponseFields.all (· ∈ d.fields.map Prod.fst)) := by
      simp only [not_or, not_not, List.any_eq_true, List.all_eq_true, decide_eq_true_eq,
        not_exists, not_and]
      exact ⟨h.known, h.required⟩
    simp only [readDraft, if_neg hkeys, h.intent, h.action, h.risk, h.args, h.explanation]
    rfl

/-- Targets pass if each has at least one byte and at most `maxTargetBytes`. -/
theorem checkTargets_eq_ok {args : List Text} :
    checkTargets args = .ok () ↔
      ∀ arg ∈ args, arg ≠ [] ∧ ∃ bytes, utf8 arg = some bytes ∧ bytes.length ≤ maxTargetBytes := by
  induction args with
  | nil => simp [checkTargets]
  | cons arg rest ih =>
    rw [checkTargets, utf8Length, List.forall_mem_cons, ← ih]
    by_cases harg : arg = []
    · simp [harg]
    cases utf8 arg with
    | none => simp [harg, bind, Except.bind]
    | some bytes =>
      by_cases hlong : bytes.length > maxTargetBytes
      · simp [harg, hlong, bind, Except.bind]
      · simp [harg, hlong, bind, Except.bind, not_lt.mp hlong]

/-- The limit on one target. -/
theorem checkTargets_singleton {arg : Text} (harg : arg ≠ []) :
    checkTargets [arg] = .ok () ↔ utf8Within maxTargetBytes arg := by
  rw [checkTargets_eq_ok, List.forall_mem_singleton, utf8Within_iff]
  exact and_iff_right harg

/-- The plan for an unknown action. -/
structure IsUnknown (d : Draft) : Prop where
  action : d.action = ofString "unknown"
  intent : d.intent = ofString "unknown"
  risk : d.risk = ofString "safe"
  args : d.args = []

/-- A plan that keeps the contract of its action. -/
structure KeepsContract (d : Draft) (contract : Contract) : Prop where
  row : actionContracts.lookup d.action = some contract
  intent : d.intent = contract.intent
  risk : d.risk = contract.risk
  args : d.args.length = contract.args
  targets : checkTargets d.args = .ok ()

/-- A draft that passes is the unknown one, or an allowed action that keeps its contract. -/
theorem checkDraft_cases {allowed : List Text} {d : Draft} (h : checkDraft allowed d = .ok ()) :
    IsUnknown d ∨ d.action ∈ allowed ∧ ∃ contract, KeepsContract d contract := by
  rw [checkDraft] at h
  split_ifs at h with hunknown hinvalid hallowed
  · simp only [not_or, not_not] at hinvalid
    exact .inl ⟨hunknown, hinvalid.1, hinvalid.2.1, hinvalid.2.2⟩
  · refine .inr ⟨hallowed, ?_⟩
    split at h
    case h_1 => cases h
    case h_2 contract hcontract =>
      split_ifs at h with hkept hargs
      simp only [not_or, not_not] at hkept
      exact ⟨contract, hcontract, hkept.1, hkept.2, not_not.mp hargs, h⟩

/-- The unknown draft passes. -/
theorem checkDraft_of_isUnknown {d : Draft} (h : IsUnknown d) (allowed : List Text) :
    checkDraft allowed d = .ok () := by
  rw [checkDraft, if_pos h.action, if_neg]
  simp [h.intent, h.risk, h.args]

/-- An allowed action that keeps its contract passes. -/
theorem checkDraft_of_keepsContract {allowed : List Text} {d : Draft} {contract : Contract}
    (hallowed : d.action ∈ allowed) (h : KeepsContract d contract) :
    checkDraft allowed d = .ok () := by
  have hknown : d.action ≠ ofString "unknown" := by
    intro hunknown
    have hrow := h.row
    rw [hunknown] at hrow
    cases hrow
  rw [checkDraft, if_neg hknown, if_neg (not_not.mpr hallowed), h.row]
  simp only [h.intent, h.risk, h.args, ne_eq, not_true, or_self, if_false]
  exact h.targets

/-- An explanation that is a string is limited in its bytes. -/
theorem checkExplanation_of_lookup {fields : List (Text × Value)} {explanation : Text}
    (h : fields.lookup (ofString "explanation") = some (.str explanation)) :
    checkExplanation fields = .ok () ↔ utf8Within maxExplanationBytes explanation := by
  simp only [checkExplanation, h, utf8Length, utf8Within]
  cases utf8 explanation with
  | none => simp [bind, Except.bind]
  | some bytes =>
    by_cases hlong : bytes.length > maxExplanationBytes
    · simp [hlong, bind, Except.bind]
    · simp [hlong, bind, Except.bind, not_lt.mp hlong]

/-- The arguments that are filled in are read back. -/
theorem argsOf_withArgs (fields : List (Text × Value)) (args : List Text) :
    argsOf (withArgs fields args) = some args := by
  rw [argsOf, withArgs, lookup_setField_self]
  exact texts_map_str args

/-- The field `args` is filled in, and the rest of the plan stays. -/
theorem IsDraft.withArgs {d : Draft} (h : IsDraft d) :
    IsDraft { d with fields := withArgs d.fields d.args } where
  known key hkey := by
    obtain rfl | hold := mem_keys_setField.mp hkey
    · decide
    · exact h.known key hold
  required key hkey := mem_keys_setField.mpr (.inr (h.required key hkey))
  intent := (lookup_setField_of_ne (by decide)).trans h.intent
  action := (lookup_setField_of_ne (by decide)).trans h.action
  risk := (lookup_setField_of_ne (by decide)).trans h.risk
  args := argsOf_withArgs _ _
  explanation := by
    rw [checkExplanation, Bridge.withArgs, lookup_setField_of_ne (by decide)]
    exact h.explanation

/-! ## Plans with all fields -/

/-- A response with all the fields of a plan. -/
def planFields (intent action : Text) (args : List Text) (risk explanation : Text) :
    List (Text × Value) :=
  [(ofString "intent", .str intent), (ofString "action", .str action),
    (ofString "args", .arr (args.map .str)), (ofString "risk", .str risk),
    (ofString "explanation", .str explanation)]

section PlanFields

variable {intent action risk explanation : Text} {args : List Text}

/-- The names of the fields of a plan. -/
theorem map_fst_planFields :
    (planFields intent action args risk explanation).map Prod.fst =
      ["intent", "action", "args", "risk", "explanation"].map ofString :=
  rfl

/-- A plan with all fields is a draft if its explanation is short enough. -/
theorem isDraft_planFields :
    IsDraft ⟨planFields intent action args risk explanation, intent, action, args, risk⟩ ↔
      utf8Within maxExplanationBytes explanation := by
  have hlookup : (planFields intent action args risk explanation).lookup
      (ofString "explanation") = some (.str explanation) := rfl
  refine ⟨fun h => (checkExplanation_of_lookup hlookup).mp h.explanation, fun h => ?_⟩
  exact
    { known := by
        rw [map_fst_planFields]
        decide
      required := by
        rw [map_fst_planFields]
        decide
      intent := rfl
      action := rfl
      risk := rfl
      args := texts_map_str args
      explanation := (checkExplanation_of_lookup hlookup).mpr h }

/-- It is read back as it is. -/
theorem readDraft_planFields {d : Draft} :
    readDraft (.obj (planFields intent action args risk explanation)) = .ok d ↔
      d = ⟨planFields intent action args risk explanation, intent, action, args, risk⟩ ∧
        utf8Within maxExplanationBytes explanation := by
  rw [readDraft_eq_ok]
  constructor
  · rintro ⟨hfields, h⟩
    obtain ⟨fields, intent', action', args', risk'⟩ := d
    obtain rfl := Value.obj.inj hfields
    obtain rfl : intent = intent' := Value.str.inj (Option.some.inj h.intent)
    obtain rfl : action = action' := Value.str.inj (Option.some.inj h.action)
    obtain rfl : risk = risk' := Value.str.inj (Option.some.inj h.risk)
    obtain rfl : args = args' := Option.some.inj ((texts_map_str args).symm.trans h.args)
    exact ⟨rfl, isDraft_planFields.mp h⟩
  · rintro ⟨rfl, h⟩
    exact ⟨rfl, isDraft_planFields.mpr h⟩

/-- Filling in its own arguments changes nothing. -/
theorem withArgs_planFields :
    withArgs (planFields intent action args risk explanation) args =
      planFields intent action args risk explanation :=
  rfl

/-- When a plan with all fields passes. -/
theorem validateProviderPlan_planFields {request plan : Value} :
    validateProviderPlan request (.obj (planFields intent action args risk explanation)) =
        .ok plan ↔
      ∃ allowed, allowedActions request = .ok allowed ∧
        utf8Within maxExplanationBytes explanation ∧
        checkDraft allowed
          ⟨planFields intent action args risk explanation, intent, action, args, risk⟩ = .ok () ∧
        plan = .obj (planFields intent action args risk explanation) := by
  rw [validateProviderPlan_eq_ok]
  constructor
  · rintro ⟨allowed, d, hallowed, hread, hcheck, rfl⟩
    obtain ⟨rfl, hexplanation⟩ := readDraft_planFields.mp hread
    exact ⟨allowed, hallowed, hexplanation, hcheck, rfl⟩
  · rintro ⟨allowed, hallowed, hexplanation, hcheck, rfl⟩
    exact ⟨allowed, _, hallowed, readDraft_planFields.mpr ⟨rfl, hexplanation⟩, hcheck,
      withArgs_planFields.symm ▸ rfl⟩

end PlanFields

/-- **An accepted plan is accepted again.** -/
theorem validateProviderPlan_plan {request response plan : Value}
    (h : validateProviderPlan request response = .ok plan) :
    validateProviderPlan request plan = .ok plan := by
  obtain ⟨allowed, d, hallowed, hread, hcheck, rfl⟩ := validateProviderPlan_eq_ok.mp h
  obtain ⟨rfl, hdraft⟩ := readDraft_eq_ok.mp hread
  refine validateProviderPlan_eq_ok.mpr ⟨allowed, { d with fields := withArgs d.fields d.args },
    hallowed, readDraft_eq_ok.mpr ⟨rfl, hdraft.withArgs⟩, hcheck, ?_⟩
  rw [withArgs, withArgs, setField_setField]

end DavOS.Bridge
