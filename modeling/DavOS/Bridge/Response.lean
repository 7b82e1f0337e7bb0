import DavOS.Bridge.Plan
import DavOS.Bridge.Protocol

/-!
# Responses of the bridge

Reference: `decode_agent_request`, `encode_agent_response` and `error_response` of
`scripts/agent_bridge_protocol.py`, and `response_for_payload` of `scripts/agent_bridge.py`.

`loads` is `json.loads(payload.decode("utf-8"))`; it is `none` where that raises one of the
exceptions that `decode_agent_request` catches. What does not end is `none` too: the loop of
`error_response` would not, if the message were empty and the response still too long.
-/

namespace DavOS.Bridge

open JsonText

abbrev maxErrorMessage : ℕ := 96

/-- A `ProtocolError`, as the other exceptions of the bridge. -/
def ProtocolError.toBridgeError (e : ProtocolError) : BridgeError where
  errorClass := .protocol
  code := ofString e.code
  message := ofString e.message

def decodeAgentRequest (loads : List UInt8 → Option Value) (payload : List UInt8) :
    Except BridgeError Value :=
  match loads payload with
  | none =>
    .error <| ProtocolError.toBridgeError
      { message := "request must be valid UTF-8 JSON", code := "invalid_request" }
  | some (.obj fields) => .ok (.obj fields)
  | some _ =>
    .error <| ProtocolError.toBridgeError
      { message := "request must be a JSON object", code := "invalid_request" }

/-- `encode_agent_response`; `json.dumps` raises nothing for a JSON value. -/
def encodeAgentResponse (response : Value) : Except BridgeError (List UInt8) :=
  match response with
  | .obj fields =>
    let payload := (Value.obj fields).dumps
    if payload.length > maxResponsePayload then
      .error <| ProtocolError.toBridgeError
        { message := "provider response is too large", code := "invalid_response" }
    else .ok payload
  | _ =>
    .error <| ProtocolError.toBridgeError
      { message := "provider response must be a JSON object", code := "invalid_response" }

def errorObject (code message : Text) : Value :=
  .obj [(ofString "error",
    .obj [(ofString "code", .str code), (ofString "message", .str message)])]

/-- The loop of `error_response`. -/
def shrink (code message : Text) : Option Value :=
  if (errorObject code message).dumps.length > maxResponsePayload then
    -- `message[:-1]` of an empty message is empty, and the loop goes on for ever
    if message = [] then none else shrink code message.dropLast
  else some (errorObject code message)
termination_by message.length
decreasing_by
  rename_i _ hne
  have hpos := List.length_pos_iff.mpr hne
  rw [List.length_dropLast]
  omega

def errorResponse (code message : Text) : Option Value :=
  shrink (code.take 32) (message.take maxErrorMessage)

/-- The body of the `try` of `response_for_payload`. -/
def plannedResponse (loads : List UInt8 → Option Value) (payload : List UInt8)
    (provider : Value → Except BridgeError Value) : Except BridgeError (List UInt8) := do
  let request ← decodeAgentRequest loads payload
  let response ← provider request
  let plan ← validateProviderPlan request response
  encodeAgentResponse plan

/-- `encode_agent_response(error_response(error.code, str(error)))` -/
def errorPayload (e : BridgeError) : Option (Except BridgeError (List UInt8)) :=
  (errorResponse e.code e.message).map encodeAgentResponse

def responseForPayload (loads : List UInt8 → Option Value) (payload : List UInt8)
    (provider : Value → Except BridgeError Value) : Option (Except BridgeError (List UInt8)) :=
  match plannedResponse loads payload provider with
  | .ok bytes => some (.ok bytes)
  | .error e => errorPayload e

/-! ## Error responses -/

/-- An error is as long as its quoted code and message and 30 bytes. -/
theorem length_errorObject (code message : Text) :
    (errorObject code message).dumps.length =
      (quote code).length + (quote message).length + 30 := by
  have herror : (quote (ofString "error")).length = 7 := rfl
  have hcode : (quote (ofString "code")).length = 6 := rfl
  have hmessage : (quote (ofString "message")).length = 9 := rfl
  rw [errorObject, length_dumps_obj (by simp), List.map_singleton, List.sum_singleton,
    length_dumps_obj (by simp), List.map_cons, List.map_singleton, List.sum_cons,
    List.sum_singleton, Value.dumps, Value.dumps]
  dsimp only
  omega

/-- The loop ends as soon as the code leaves room for an empty message. -/
theorem shrink_eq_some {code : Text} (hcode : (quote code).length + 32 ≤ maxResponsePayload)
    (message : Text) :
    ∃ message', message' <+: message ∧ shrink code message = some (errorObject code message') ∧
      (errorObject code message').dumps.length ≤ maxResponsePayload := by
  fun_induction shrink code message with
  | case1 hlong =>
    rw [length_errorObject] at hlong
    have hempty : (quote []).length = 2 := rfl
    omega
  | case2 message hlong hne ih =>
    obtain ⟨message', hprefix, hshrink, hle⟩ := ih
    exact ⟨message', hprefix.trans (List.dropLast_prefix message), hshrink, hle⟩
  | case3 message hshort => exact ⟨message, List.prefix_rfl, rfl, not_lt.mp hshort⟩

/-- **The loop of `error_response` ends** for every code and message, with a response that is short
enough. -/
theorem errorResponse_eq_some (code message : Text) :
    ∃ message', errorResponse code message = some (errorObject (code.take 32) message') ∧
      (errorObject (code.take 32) message').dumps.length ≤ maxResponsePayload := by
  have hquote := length_quote_le (code.take 32)
  have htake := List.length_take_le 32 code
  obtain ⟨message', -, hshrink, hle⟩ := shrink_eq_some
    (show (quote (code.take 32)).length + 32 ≤ maxResponsePayload by
      rw [maxResponsePayload]; omega) (message.take maxErrorMessage)
  exact ⟨message', hshrink, hle⟩

/-- A response that is encoded fits. -/
theorem encodeAgentResponse_eq_ok {response : Value} {payload : List UInt8}
    (h : encodeAgentResponse response = .ok payload) :
    payload = response.dumps ∧ payload.length ≤ maxResponsePayload := by
  cases response with
  | obj fields =>
    simp only [encodeAgentResponse] at h
    split at h
    case isTrue => cases h
    case isFalse hshort =>
      cases h
      exact ⟨rfl, not_lt.mp hshort⟩
  | _ => cases h

/-- The handler of the exceptions raises nothing itself. -/
theorem errorPayload_eq_some (e : BridgeError) :
    ∃ message bytes, errorPayload e = some (.ok bytes) ∧
      bytes = (errorObject (e.code.take 32) message).dumps ∧ bytes.length ≤ maxResponsePayload := by
  obtain ⟨message, hresponse, hle⟩ := errorResponse_eq_some e.code e.message
  refine ⟨message, _, ?_, rfl, hle⟩
  rw [errorPayload, hresponse, Option.map_some, errorObject]
  exact congrArg some (if_neg (not_lt.mpr hle))

/-! ## All responses -/

/-- A planned response has passed all stages. -/
theorem plannedResponse_eq_ok {loads : List UInt8 → Option Value} {payload bytes : List UInt8}
    {provider : Value → Except BridgeError Value}
    (h : plannedResponse loads payload provider = .ok bytes) :
    ∃ request response plan, decodeAgentRequest loads payload = .ok request ∧
      provider request = .ok response ∧ validateProviderPlan request response = .ok plan ∧
      encodeAgentResponse plan = .ok bytes := by
  simp only [plannedResponse, bind_eq_ok] at h
  obtain ⟨request, hrequest, response, hresponse, plan, hplan, hencode⟩ := h
  exact ⟨request, response, plan, hrequest, hresponse, hplan, hencode⟩

/-- What `response_for_payload` returns: a plan or an error. -/
theorem responseForPayload_eq_some (loads : List UInt8 → Option Value) (payload : List UInt8)
    (provider : Value → Except BridgeError Value) :
    ∃ bytes, responseForPayload loads payload provider = some (.ok bytes) ∧
      bytes.length ≤ maxResponsePayload ∧
      ((∃ request response plan, decodeAgentRequest loads payload = .ok request ∧
          provider request = .ok response ∧ validateProviderPlan request response = .ok plan ∧
          bytes = plan.dumps) ∨
        ∃ error, bytes = (Value.obj [(ofString "error", error)]).dumps) := by
  rw [responseForPayload]
  cases hplanned : plannedResponse loads payload provider with
  | ok bytes =>
    obtain ⟨request, response, plan, hrequest, hresponse, hplan, hencode⟩ :=
      plannedResponse_eq_ok hplanned
    obtain ⟨hbytes, hle⟩ := encodeAgentResponse_eq_ok hencode
    exact ⟨bytes, rfl, hle, .inl ⟨request, response, plan, hrequest, hresponse, hplan, hbytes⟩⟩
  | error e =>
    obtain ⟨message, bytes, hpayload, hbytes, hle⟩ := errorPayload_eq_some e
    exact ⟨bytes, hpayload, hle, .inr ⟨_, hbytes⟩⟩

/-- **Responses are bounded.** `error_response` ends and is short enough, and for every payload and
provider `response_for_payload` returns at most 1024 bytes: the plan of the provider, which the
check accepts for the request, or an object with the key `error` only. -/
theorem responses_bounded (loads : List UInt8 → Option Value) (payload : List UInt8)
    (provider : Value → Except BridgeError Value) :
    (∀ code message, ∃ response, errorResponse code message = some response ∧
      response.dumps.length ≤ maxResponsePayload) ∧
    ∃ bytes, responseForPayload loads payload provider = some (.ok bytes) ∧
      bytes.length ≤ maxResponsePayload ∧
      ((∃ request response plan, decodeAgentRequest loads payload = .ok request ∧
          provider request = .ok response ∧ validateProviderPlan request response = .ok plan ∧
          validateProviderPlan request plan = .ok plan ∧ bytes = plan.dumps) ∨
        ∃ error, bytes = (Value.obj [(ofString "error", error)]).dumps) := by
  refine ⟨fun code message => ?_, ?_⟩
  · obtain ⟨message', hresponse, hle⟩ := errorResponse_eq_some code message
    exact ⟨_, hresponse, hle⟩
  · obtain ⟨bytes, hbytes, hle, hcases⟩ := responseForPayload_eq_some loads payload provider
    refine ⟨bytes, hbytes, hle, hcases.imp_left ?_⟩
    rintro ⟨request, response, plan, hrequest, hresponse, hplan, hdumps⟩
    exact ⟨request, response, plan, hrequest, hresponse, hplan, validateProviderPlan_plan hplan,
      hdumps⟩

end DavOS.Bridge
