import DavOS.Bridge.Response

/-!
# Plans that fit into a response

Reference: `validate_provider_plan` of `scripts/agent_bridge_planner.py`, `encode_agent_response` of
`scripts/agent_bridge_protocol.py` and `response_for_payload` of `scripts/agent_bridge.py`.

The check of a plan counts bytes of UTF-8, the limit of a response counts bytes of JSON. Everything
but the explanation takes at most 187 bytes of a response, so an explanation of up to 837 bytes of
JSON is delivered. Only control characters become more than three times as long, so an accepted
explanation with at most 23 of them is that short.
-/

namespace DavOS.Bridge

open JsonText

/-- The longest explanation that is always delivered, with its quotes. -/
def maxQuotedExplanation : ℕ := 837 + 2

/-- The longest name of an action with this number of targets, with its quotes. -/
def longestName (targets : ℕ) : ℕ := if targets = 0 then 17 else 13

/-- The longest list of targets: one target has up to 16 control characters. -/
def longestArgs (targets : ℕ) : ℕ := if targets = 0 then 2 else 6 * maxTargetBytes + 4

/-- The longest text of the value of a field in a plan with this number of targets. The longest
names are those of actions without a target. -/
def longestValue (targets : ℕ) (key : Text) : ℕ :=
  if key = ofString "explanation" then maxQuotedExplanation
  else if key = ofString "args" then longestArgs targets
  else if key = ofString "risk" then 7
  else longestName targets

/-- With all the fields, and the longest values, a plan has at most 1024 bytes. -/
theorem longest_plan {targets : ℕ} (h : targets ≤ 1) :
    (responseFields.map fun key => (quote key).length + longestValue targets key + 2).sum + 1 ≤
      maxResponsePayload := by
  revert targets
  decide +kernel

/-! ## The fields of an accepted plan -/

/-- A target that passes the check is short when it is quoted. -/
theorem length_quote_target {arg : Text} {bytes : List UInt8} (h : utf8 arg = some bytes)
    (hle : bytes.length ≤ maxTargetBytes) : (quote arg).length ≤ 6 * maxTargetBytes + 2 := by
  have hquote := length_quote_le_utf8 h
  have hcount : arg.countP isLongControl ≤ arg.length := List.countP_le_length
  have hlength := length_le_of_utf8 h
  omega

/-- The list of targets of an accepted plan is short. -/
theorem length_dumps_args {args : List Text} (hargs : args.length ≤ 1)
    (htargets : checkTargets args = .ok ()) :
    (Value.arr (args.map .str)).dumps.length ≤ longestArgs args.length := by
  obtain _ | ⟨arg, _ | ⟨arg', rest⟩⟩ := args
  · exact Nat.le_of_ble_eq_true rfl
  · obtain ⟨-, bytes, hbytes, hle⟩ := checkTargets_eq_ok.mp htargets arg List.mem_cons_self
    have hquote := length_quote_target hbytes hle
    have hbrackets : (asciiBytes "[").length = 1 ∧ (asciiBytes "]").length = 1 := ⟨rfl, rfl⟩
    rw [List.map_singleton, Value.dumps, dumpsItems, dumpsItems, Value.dumps, enclose,
      List.intercalate_singleton, List.length_append, List.length_append,
      show longestArgs [arg].length = 6 * maxTargetBytes + 4 from rfl]
    omega
  · simp at hargs

/-- What the contracts leave to the lengths of a plan's words. -/
theorem length_contract {action : Text} {contract : Contract}
    (h : actionContracts.lookup action = some contract) :
    (quote action).length ≤ longestName contract.args ∧
      (quote contract.intent).length ≤ longestName contract.args ∧
      (quote contract.risk).length ≤ 7 ∧ contract.args ≤ 1 := by
  have hrows : ∀ row ∈ actionContracts, (quote row.1).length ≤ longestName row.2.args ∧
      (quote row.2.intent).length ≤ longestName row.2.args ∧ (quote row.2.risk).length ≤ 7 ∧
      row.2.args ≤ 1 := by
    decide +kernel
  exact hrows (action, contract) (mem_of_lookup h)

/-- The words of an accepted plan. -/
structure ShortWords (d : Draft) : Prop where
  args_le : d.args.length ≤ 1
  action : (quote d.action).length ≤ longestName d.args.length
  intent : (quote d.intent).length ≤ longestName d.args.length
  risk : (quote d.risk).length ≤ 7
  args : (Value.arr (d.args.map .str)).dumps.length ≤ longestArgs d.args.length

/-- An accepted plan has at most one target, and names of the lists. -/
theorem shortWords_of_checkDraft {allowed : List Text} {d : Draft}
    (h : checkDraft allowed d = .ok ()) : ShortWords d := by
  obtain hunknown | ⟨-, contract, hkeeps⟩ := checkDraft_cases h
  · constructor <;>
      simp only [hunknown.action, hunknown.intent, hunknown.risk, hunknown.args] <;>
      decide +kernel
  · obtain ⟨haction, hintent, hrisk, hargs⟩ := length_contract hkeeps.row
    have hle := hkeeps.args.trans_le hargs
    refine ⟨hle, ?_, ?_, ?_, length_dumps_args hle hkeeps.targets⟩
    · rwa [hkeeps.args]
    · rwa [hkeeps.args, hkeeps.intent]
    · rwa [hkeeps.risk]

/-- An explanation that the check accepts. -/
theorem explanation_of_check {fields : List (Text × Value)} {v : Value}
    (hcheck : checkExplanation fields = .ok ())
    (hlookup : fields.lookup (ofString "explanation") = some v) :
    ∃ explanation, v = .str explanation ∧ utf8Within maxExplanationBytes explanation := by
  cases v with
  | str explanation => exact ⟨explanation, rfl, (checkExplanation_of_lookup hlookup).mp hcheck⟩
  | _ =>
    rw [checkExplanation, hlookup] at hcheck
    cases hcheck

/-- With at most 23 control characters an accepted explanation is short enough. -/
theorem length_quote_explanation {explanation : Text}
    (hshort : utf8Within maxExplanationBytes explanation)
    (hcontrols : explanation.countP isLongControl ≤ 23) :
    (quote explanation).length ≤ maxQuotedExplanation := by
  obtain ⟨bytes, hbytes, hle⟩ := utf8Within_iff.mp hshort
  have hquote := length_quote_le_utf8 hbytes
  rw [maxExplanationBytes] at hle
  rw [maxQuotedExplanation]
  omega

/-- Every value of an accepted plan is short enough. -/
theorem length_value {allowed : List Text} {d : Draft} (hdraft : IsDraft d)
    (hcheck : checkDraft allowed d = .ok ())
    (hshort : ∀ explanation, d.fields.lookup (ofString "explanation") = some (.str explanation) →
      (quote explanation).length ≤ maxQuotedExplanation)
    {key : Text} {v : Value} (hlookup : (withArgs d.fields d.args).lookup key = some v) :
    v.dumps.length ≤ longestValue d.args.length key := by
  have hwords := shortWords_of_checkDraft hcheck
  by_cases hkey : key = ofString "args"
  · subst hkey
    rw [withArgs, lookup_setField_self, Option.some.injEq] at hlookup
    subst hlookup
    exact hwords.args
  have hmem : key ∈ responseFields :=
    hdraft.withArgs.known key (List.mem_map.mpr ⟨_, mem_of_lookup hlookup, rfl⟩)
  rw [withArgs, lookup_setField_of_ne hkey] at hlookup
  simp only [responseFields, List.map_cons, List.map_nil, List.mem_cons, List.not_mem_nil,
    or_false] at hmem
  obtain rfl | rfl | rfl | rfl | rfl := hmem
  · rw [hdraft.intent, Option.some.injEq] at hlookup
    subst hlookup
    exact hwords.intent
  · rw [hdraft.action, Option.some.injEq] at hlookup
    subst hlookup
    exact hwords.action
  · exact absurd rfl hkey
  · rw [hdraft.risk, Option.some.injEq] at hlookup
    subst hlookup
    exact hwords.risk
  · obtain ⟨explanation, rfl, -⟩ := explanation_of_check hdraft.explanation hlookup
    rw [Value.dumps, longestValue, if_pos rfl]
    exact hshort explanation hlookup

/-! ## Delivery -/

/-- What is asked of an explanation: it has at most 837 bytes of JSON, or at most 23 characters that
JSON writes in six bytes where UTF-8 has one. -/
def ShortExplanation (explanation : Text) : Prop :=
  (quote explanation).length ≤ maxQuotedExplanation ∨ explanation.countP isLongControl ≤ 23

/-- An accepted plan with a short explanation fits. The fields of the response are those of a
dictionary: no key occurs twice. -/
theorem length_plan_le {request plan : Value} {fields : List (Text × Value)}
    (hdict : (fields.map Prod.fst).Nodup)
    (hplan : validateProviderPlan request (.obj fields) = .ok plan)
    (hshort : ∀ explanation, fields.lookup (ofString "explanation") = some (.str explanation) →
      ShortExplanation explanation) :
    plan.dumps.length ≤ maxResponsePayload := by
  obtain ⟨allowed, d, -, hread, hcheck, rfl⟩ := validateProviderPlan_eq_ok.mp hplan
  obtain ⟨hfields, hdraft⟩ := readDraft_eq_ok.mp hread
  cases hfields
  have hne : withArgs d.fields d.args ≠ [] := by
    intro hnil
    have hargs := hdraft.withArgs.action
    rw [hnil] at hargs
    cases hargs
  have hquoted : ∀ explanation,
      d.fields.lookup (ofString "explanation") = some (.str explanation) →
      (quote explanation).length ≤ maxQuotedExplanation := by
    intro explanation hlookup
    obtain hle | hcontrols := hshort explanation hlookup
    · exact hle
    · obtain ⟨_, ⟨⟩, hutf8⟩ := explanation_of_check hdraft.explanation hlookup
      exact length_quote_explanation hutf8 hcontrols
  exact (length_dumps_obj_le (longestValue d.args.length) hne (nodup_keys_setField hdict)
    hdraft.withArgs.known fun key v hlookup => length_value hdraft hcheck hquoted hlookup).trans
      (longest_plan (shortWords_of_checkDraft hcheck).args_le)

/-- A plan that fits is delivered. -/
theorem encodeAgentResponse_of_le {fields : List (Text × Value)}
    (h : (Value.obj fields).dumps.length ≤ maxResponsePayload) :
    encodeAgentResponse (.obj fields) = .ok (Value.obj fields).dumps :=
  if_neg (not_lt.mpr h)

/-- The exception of `encode_agent_response` for a long response. -/
def responseTooLarge : BridgeError :=
  ProtocolError.toBridgeError
    { message := "provider response is too large", code := "invalid_response" }

/-- A plan that does not fit is refused as too large. -/
theorem encodeAgentResponse_of_lt {fields : List (Text × Value)}
    (h : maxResponsePayload < (Value.obj fields).dumps.length) :
    encodeAgentResponse (.obj fields) = .error responseTooLarge :=
  if_pos h

/-- **Accepted plans are delivered** if their explanations have at most 837 bytes of JSON, as they
have with at most 23 control characters: the encoding of the plan has at most 1024 bytes, and
`response_for_payload` returns it. -/
theorem accepted_plans_delivered {request plan : Value} {fields : List (Text × Value)}
    (hdict : (fields.map Prod.fst).Nodup)
    (hplan : validateProviderPlan request (.obj fields) = .ok plan)
    (hshort : ∀ explanation, fields.lookup (ofString "explanation") = some (.str explanation) →
      ShortExplanation explanation) :
    plan.dumps.length ≤ maxResponsePayload ∧ encodeAgentResponse plan = .ok plan.dumps ∧
      ∀ (loads : List UInt8 → Option Value) (payload : List UInt8)
        (provider : Value → Except BridgeError Value),
        decodeAgentRequest loads payload = .ok request → provider request = .ok (.obj fields) →
        responseForPayload loads payload provider = some (.ok plan.dumps) := by
  have hle := length_plan_le hdict hplan hshort
  have hencode : encodeAgentResponse plan = .ok plan.dumps := by
    obtain ⟨allowed, d, -, -, -, rfl⟩ := validateProviderPlan_eq_ok.mp hplan
    exact encodeAgentResponse_of_le hle
  refine ⟨hle, hencode, fun loads payload provider hrequest hresponse => ?_⟩
  have hplanned : plannedResponse loads payload provider = .ok plan.dumps := by
    simp only [plannedResponse, bind_eq_ok]
    exact ⟨request, hrequest, .obj fields, hresponse, plan, hplan, hencode⟩
  rw [responseForPayload, hplanned]

/-! ### Explanations of control characters -/

/-- `n` times the character U+0001. -/
def controls (n : ℕ) : Text := List.replicate n (codePoint 1)

/-- A request that allows only deleting files. -/
def deletionRequest : Value :=
  .obj [(ofString "allowedActions", .arr [.str (ofString "delete_file")])]

/-- A plan to delete the file with the longest name there is, with an explanation. -/
def deletionFields (explanation : Text) : List (Text × Value) :=
  planFields (ofString "delete_file") (ofString "delete_file") [controls 16] (ofString "risky")
    explanation

/-- The deletion is accepted, with any explanation that is short enough. -/
theorem validateProviderPlan_deletion {explanation : Text}
    (h : utf8Within maxExplanationBytes explanation) :
    validateProviderPlan deletionRequest (.obj (deletionFields explanation)) =
      .ok (.obj (deletionFields explanation)) :=
  validateProviderPlan_planFields.mpr ⟨[ofString "delete_file"], rfl, h, rfl, rfl⟩

/-- Control characters, and letters of two bytes of UTF-8 and six of JSON. -/
def mixedExplanation (controlCount letters : ℕ) : Text :=
  controls controlCount ++ List.replicate letters (codePoint 0xE9)

/-- The longest plan to delete a file, with 23 control characters in its explanation. -/
theorem longest_deletion_delivered :
    encodeAgentResponse (.obj (deletionFields (mixedExplanation 23 116))) =
      .ok (Value.obj (deletionFields (mixedExplanation 23 116))).dumps :=
  (accepted_plans_delivered (by decide +kernel)
    (validateProviderPlan_deletion (by decide +kernel))
    fun explanation hlookup => by
      cases hlookup
      exact .inr (by decide +kernel)).2.1

/-- The refusal itself can be delivered. -/
theorem errorPayload_responseTooLarge :
    errorPayload responseTooLarge =
      some (.ok (errorObject responseTooLarge.code responseTooLarge.message).dumps) := by
  have hshort : (errorObject responseTooLarge.code responseTooLarge.message).dumps.length ≤
      maxResponsePayload := by
    decide +kernel
  have htake : responseTooLarge.code.take 32 = responseTooLarge.code ∧
      responseTooLarge.message.take maxErrorMessage = responseTooLarge.message := by
    decide +kernel
  rw [errorPayload, errorResponse, htake.1, htake.2, shrink, if_neg (not_lt.mpr hshort),
    Option.map_some, errorObject, encodeAgentResponse_of_le hshort]

/-- Both bounds are as large as they can be: with 24 control characters, or with 838 bytes of JSON,
an accepted plan to delete a file is refused. -/
theorem longer_explanations_refused :
    ((mixedExplanation 24 116).countP isLongControl = 24 ∧
      validateProviderPlan deletionRequest (.obj (deletionFields (mixedExplanation 24 116))) =
        .ok (.obj (deletionFields (mixedExplanation 24 116))) ∧
      encodeAgentResponse (.obj (deletionFields (mixedExplanation 24 116))) =
        .error responseTooLarge) ∧
    ((quote (controls 139 ++ ofString "info")).length = maxQuotedExplanation + 1 ∧
      validateProviderPlan deletionRequest
          (.obj (deletionFields (controls 139 ++ ofString "info"))) =
        .ok (.obj (deletionFields (controls 139 ++ ofString "info"))) ∧
      encodeAgentResponse (.obj (deletionFields (controls 139 ++ ofString "info"))) =
        .error responseTooLarge) :=
  ⟨⟨by decide +kernel, validateProviderPlan_deletion (by decide +kernel),
      encodeAgentResponse_of_lt (by decide +kernel)⟩,
    by decide +kernel, validateProviderPlan_deletion (by decide +kernel),
      encodeAgentResponse_of_lt (by decide +kernel)⟩

/-- A request that allows only listing files. -/
def listingRequest : Value :=
  .obj [(ofString "allowedActions", .arr [.str (ofString "list_files")])]

/-- A plan to list the files, with an explanation. -/
def listingFields (explanation : Text) : List (Text × Value) :=
  planFields (ofString "list_files") (ofString "list_files") [] (ofString "safe") explanation

/-- So is the listing accepted. -/
theorem validateProviderPlan_listing {explanation : Text}
    (h : utf8Within maxExplanationBytes explanation) :
    validateProviderPlan listingRequest (.obj (listingFields explanation)) =
      .ok (.obj (listingFields explanation)) :=
  validateProviderPlan_planFields.mpr ⟨[ofString "list_files"], rfl, h, rfl, rfl⟩

/-- **An accepted plan can be too long.** 256 control characters are an explanation of 256 bytes of
UTF-8, and of 1538 bytes of JSON: the plan is replaced by an error. -/
theorem control_characters_undelivered :
    validateProviderPlan listingRequest (.obj (listingFields (controls 256))) =
        .ok (.obj (listingFields (controls 256))) ∧
      encodeAgentResponse (.obj (listingFields (controls 256))) = .error responseTooLarge ∧
      responseForPayload (fun _ => some listingRequest) []
          (fun _ => .ok (.obj (listingFields (controls 256)))) =
        some (.ok (errorObject (ofString "invalid_response")
          (ofString "provider response is too large")).dumps) := by
  have hplan := validateProviderPlan_listing
    (show utf8Within maxExplanationBytes (controls 256) by decide +kernel)
  have hlong : maxResponsePayload < (Value.obj (listingFields (controls 256))).dumps.length := by
    decide +kernel
  have hencode := encodeAgentResponse_of_lt hlong
  refine ⟨hplan, hencode, ?_⟩
  have hplanned : plannedResponse (fun _ => some listingRequest) []
      (fun _ => .ok (.obj (listingFields (controls 256)))) = .error responseTooLarge := by
    have hrequest : decodeAgentRequest (fun _ => some listingRequest) [] = .ok listingRequest := rfl
    simp only [plannedResponse, hrequest, bind, Except.bind, hplan, hencode]
  rw [responseForPayload, hplanned]
  exact errorPayload_responseTooLarge

end DavOS.Bridge
