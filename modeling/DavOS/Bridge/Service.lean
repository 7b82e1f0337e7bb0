import DavOS.Bridge.Response
import DavOS.Bridge.Transport

/-!
# The loop of the bridge

Reference: `serve` of `scripts/agent_bridge.py`.

The provider has a state of its own, and `planned` lists the requests it was called with. As long as
the network is reliable, each request frame is answered by one response frame, whatever its checksum
and whatever the provider does.
-/

namespace DavOS.Bridge

open DavOS.Serial JsonText

/-- `provider.plan` -/
abbrev Provider (σ : Type*) := Value → σ → Except BridgeError Value × σ

structure Service (σ : Type*) where
  stream : Stream
  provider : σ
  /-- The requests of the calls of `provider.plan`. -/
  planned : List Value

/-- The ways `serve` ends. -/
inductive Ending
  | returned
  | raised (e : BridgeError)
  /-- The loop of `error_response` does not end. -/
  | stuck

namespace Service

variable {σ : Type*}

section

variable (loads : List UInt8 → Option Value) (plan : Provider σ) (network : ℕ → Transfer)

/-- `response_for_payload`, with the state of the provider. -/
def responseForPayload (payload : List UInt8) (host : Service σ) :
    Option (Except BridgeError (List UInt8)) × Service σ :=
  match decodeAgentRequest loads payload with
  | .error e => (errorPayload e, host)
  | .ok request =>
    let (response, provider) := plan request host.provider
    let host := { host with provider, planned := host.planned ++ [request] }
    match (do encodeAgentResponse (← validateProviderPlan request (← response))) with
    | .error e => (errorPayload e, host)
    | .ok bytes => (some (.ok bytes), host)

/-- `transport.send` of an encoded response; nothing if the loop of `serve` goes on. -/
def send (response : Option (Except BridgeError (List UInt8))) (host : Service σ) :
    Option Ending × Service σ :=
  match response with
  | none => (some .stuck, host)
  | some (.error e) => (some (.raised e), host)
  | some (.ok payload) =>
    match SerialTransport.send network payload host.stream with
    | (.error e, stream) => (some (.raised e.toBridgeError), { host with stream })
    | (.ok (), stream) => (none, { host with stream })

/-- The body of the loop of `serve`. -/
def round (once : Bool) (host : Service σ) : Option Ending × Service σ :=
  match SerialTransport.receive network host.stream with
  | (.error e, stream) =>
    let host := { host with stream }
    if ¬e.recoverable then (some (.raised e.toBridgeError), host)
    else host.send network (errorPayload e.toBridgeError)
  | (.ok payload, stream) =>
    let (response, host) := { host with stream }.responseForPayload loads plan payload
    match host.send network response with
    | (none, host) => if once then (some .returned, host) else (none, host)
    | ended => ended

/-! ## What a round keeps -/

/-- The request of a payload that is a JSON object in UTF-8. -/
def jsonObject (loads : List UInt8 → Option Value) (payload : List UInt8) : Option Value :=
  match loads payload with
  | some (.obj fields) => some (.obj fields)
  | _ => none

/-- A request is read exactly if its payload is a JSON object. -/
theorem decodeAgentRequest_cases (loads : List UInt8 → Option Value) (payload : List UInt8) :
    (∃ e, decodeAgentRequest loads payload = .error e ∧ jsonObject loads payload = none) ∨
      ∃ request, decodeAgentRequest loads payload = .ok request ∧
        jsonObject loads payload = some request := by
  rw [decodeAgentRequest, jsonObject]
  cases loads payload with
  | none => exact .inl ⟨_, rfl, rfl⟩
  | some request =>
    cases request with
    | obj fields => exact .inr ⟨_, rfl, rfl⟩
    | _ => exact .inl ⟨_, rfl, rfl⟩

/-- The state of the provider after it was called, or not. -/
def afterCall : Option Value → σ → σ
  | none, provider => provider
  | some request, provider => (plan request provider).2

/-- The provider is called once if the payload is a JSON object, and otherwise not at all. -/
theorem responseForPayload_eq (payload : List UInt8) (host : Service σ) :
    host.responseForPayload loads plan payload =
      (Bridge.responseForPayload loads payload fun request => (plan request host.provider).1,
        { host with
          provider := afterCall plan (jsonObject loads payload) host.provider
          planned := host.planned ++ (jsonObject loads payload).toList }) := by
  rw [responseForPayload, Bridge.responseForPayload, plannedResponse]
  obtain ⟨e, hdecode, hobject⟩ | ⟨request, hdecode, hobject⟩ :=
    decodeAgentRequest_cases loads payload
  · rw [hdecode, hobject, Option.toList_none, List.append_nil]
    rfl
  · rw [hdecode, hobject, Option.toList_some]
    simp only [bind, Except.bind]
    cases (plan request host.provider).1 with
    | error e => rfl
    | ok response =>
      dsimp only
      cases validateProviderPlan request response with
      | error e => rfl
      | ok plan =>
        dsimp only
        cases encodeAgentResponse plan with
        | error e => rfl
        | ok bytes => rfl

variable {loads plan network} {host host' : Service σ}

/-- Sending does not touch what waits to be read. -/
theorem send_pending {response : Option (Except BridgeError (List UInt8))} {o : Option Ending}
    (hsend : host.send network response = (o, host')) :
    host'.stream.pending = host.stream.pending := by
  match response with
  | none =>
    cases hsend
    rfl
  | some (.error e) =>
    cases hsend
    rfl
  | some (.ok payload) =>
    have hstream := SerialTransport.send_pending network payload host.stream
    simp only [send] at hsend
    generalize SerialTransport.send network payload host.stream = r at hstream hsend
    obtain ⟨_ | _, stream⟩ := r <;> cases hsend <;> exact hstream

/-- A round after which the loop goes on has taken bytes off the stream. -/
theorem round_shrinks {once : Bool} (hround : host.round loads plan network once = (none, host')) :
    host'.stream.pending.length < host.stream.pending.length := by
  have hshrinks := receive_shrinks network host.stream
  rw [round] at hround
  generalize SerialTransport.receive network host.stream = r at hshrinks hround
  obtain ⟨e | payload, stream⟩ := r
  · dsimp only at hround
    by_cases hrecoverable : e.recoverable = true
    · rw [if_neg (not_not.mpr hrecoverable)] at hround
      obtain hlt | ⟨e', he, hfalse⟩ := hshrinks
      · rwa [send_pending hround]
      · cases he
        exact absurd hrecoverable (by rw [hfalse]; decide)
    · rw [if_pos hrecoverable] at hround
      cases hround
  · obtain hlt | ⟨e', he, -⟩ := hshrinks
    swap
    · cases he
    simp only [responseForPayload_eq] at hround
    split at hround
    case h_1 host₁ hsend =>
      split_ifs at hround
      · cases hround
      · cases hround
        rwa [send_pending hsend]
    case h_2 ended hended => exact absurd hround (hended _)

end

/-! ## The loop -/

section

variable (loads : List UInt8 → Option Value) (plan : Provider σ) (network : ℕ → Transfer)

def serve (once : Bool) (host : Service σ) : Ending × Service σ :=
  match _hround : host.round loads plan network once with
  | (some ending, host') => (ending, host')
  | (none, host') => serve once host'
termination_by host.stream.pending.length
decreasing_by exact round_shrinks _hround

end

variable {loads : List UInt8 → Option Value} {plan : Provider σ} {network : ℕ → Transfer}
  {host : Service σ}

/-- The loop of the service, unrolled once. -/
theorem serve_eq (once : Bool) (host : Service σ) :
    host.serve loads plan network once =
      match host.round loads plan network once with
      | (some ending, host') => (ending, host')
      | (none, host') => host'.serve loads plan network once := by
  rw [serve]
  split <;> simp only [*]

/-! ## Answers -/

/-- The call of the provider for a request frame, if there is one. -/
def call (loads : List UInt8 → Option Value) (f : RequestFrame) : Option Value :=
  if f.Intact then jsonObject loads f.payload else none

/-- The answer to a request frame, from a provider in the given state. -/
structure Answers (loads : List UInt8 → Option Value) (plan : Provider σ) (provider : σ)
    (f : RequestFrame) (answer : List UInt8) : Prop where
  length_le : answer.length ≤ maxResponsePayload
  intact : f.Intact → Bridge.responseForPayload loads f.payload
    (fun request => (plan request provider).1) = some (.ok answer)
  corrupt : ¬f.Intact → ∃ error, answer = (Value.obj [(ofString "error", error)]).dumps

/-- One answer for each request frame, in order, while the provider goes from state to state. -/
inductive AnswersEach (loads : List UInt8 → Option Value) (plan : Provider σ) :
    σ → List RequestFrame → List (List UInt8) → Prop
  | nil {provider : σ} : AnswersEach loads plan provider [] []
  | cons {provider : σ} {f : RequestFrame} {answer : List UInt8} {frames : List RequestFrame}
      {answers : List (List UInt8)} (hfirst : Answers loads plan provider f answer)
      (hrest : AnswersEach loads plan (afterCall plan (call loads f) provider) frames answers) :
      AnswersEach loads plan provider (f :: frames) (answer :: answers)

/-- A round takes one frame off the stream and answers it. -/
theorem round_frame (loads : List UInt8 → Option Value) (plan : Provider σ)
    (hnet : Reliable network) (f : RequestFrame) {rest : List UInt8}
    (hpending : host.stream.pending = f.bytes ++ rest) :
    ∃ answer host', host.round loads plan network false = (none, host') ∧
      host'.stream.pending = rest ∧
      host'.stream.sent = host.stream.sent ++ wire .response answer ∧
      host'.planned = host.planned ++ (call loads f).toList ∧
      host'.provider = afterCall plan (call loads f) host.provider ∧
      Answers loads plan host.provider f answer := by
  obtain ⟨calls, hreceive⟩ := hnet.receive f hpending
  rw [round, hreceive]
  by_cases hintact : f.Intact
  · obtain ⟨answer, hanswer, hle, -⟩ := responseForPayload_eq_some loads f.payload
      fun request => (plan request host.provider).1
    simp only [if_pos hintact, responseForPayload_eq, hanswer, send, hnet.send hle, call]
    exact ⟨answer, _, rfl, rfl, rfl, rfl, rfl, hle, fun _ => hanswer,
      fun hcorrupt => absurd hintact hcorrupt⟩
  · obtain ⟨message, answer, hanswer, hbytes, hle⟩ := errorPayload_eq_some
      (ProtocolError.toBridgeError
        { message := "request checksum mismatch", recoverable := true })
    simp only [if_neg hintact, hanswer, send, hnet.send hle, call, not_true_eq_false, if_false]
    exact ⟨answer, _, rfl, rfl, rfl, (List.append_nil _).symm, rfl, hle,
      fun hok => absurd hok hintact, fun _ => ⟨_, hbytes⟩⟩

/-- At the end of the stream the loop ends. -/
theorem round_end (hnet : Reliable network) (hpending : host.stream.pending = []) :
    host.round loads plan network false =
      (some (.raised (ProtocolError.toBridgeError { message := "partial frame" })),
        { host with stream := { host.stream with calls := host.stream.calls + 1 } }) := by
  rw [round, hnet.receive_end hpending]
  rfl

/-- **Each request is answered once.** Over a reliable network, whatever the pieces in which `recv`
hands out the request frames, `serve` sends one response frame for each of them, in order, and then
raises at the end of the stream. A frame with a wrong checksum gets an error; the provider is called
once for each other frame that holds a JSON object, and for no other. -/
theorem serve_answers_each (loads : List UInt8 → Option Value) (plan : Provider σ)
    (network : ℕ → Transfer) (hnet : Reliable network) (frames : List RequestFrame)
    (host : Service σ) (hpending : host.stream.pending = frames.flatMap RequestFrame.bytes) :
    (host.serve loads plan network false).1 =
        .raised (ProtocolError.toBridgeError { message := "partial frame" }) ∧
      (host.serve loads plan network false).2.planned =
        host.planned ++ frames.filterMap (call loads) ∧
      ∃ answers, (host.serve loads plan network false).2.stream.sent =
          host.stream.sent ++ answers.flatMap (wire .response) ∧
        AnswersEach loads plan host.provider frames answers := by
  induction frames generalizing host with
  | nil =>
    rw [serve_eq, round_end hnet hpending]
    exact ⟨rfl, (List.append_nil _).symm, [], (List.append_nil _).symm, .nil⟩
  | cons f rest ih =>
    obtain ⟨answer, host', hround, hpending', hsent, hplanned, hprovider, hanswer⟩ :=
      round_frame loads plan hnet f hpending
    obtain ⟨hending, hcalls, answers, hrest, hanswers⟩ := ih host' hpending'
    rw [serve_eq, hround]
    refine ⟨hending, ?_, answer :: answers, ?_, .cons hanswer (hprovider ▸ hanswers)⟩
    · rw [hcalls, hplanned, List.append_assoc]
      congr 1
      cases hcall : call loads f <;> simp [hcall]
    · rw [hrest, hsent, List.flatMap_cons, List.append_assoc]

/-- An empty object with a wrong checksum and then with the right one, handed out byte by byte. -/
theorem second_request_planned :
    let corrupt : RequestFrame := ⟨[0x7b, 0x7d], by decide, 0, 0⟩
    let intact : RequestFrame := ⟨[0x7b, 0x7d], by decide, 0xF4, 0x18⟩
    let service : Service ℕ := ⟨⟨[corrupt, intact].flatMap RequestFrame.bytes, [], 0⟩, 0, []⟩
    let served := service.serve (fun _ => some (.obj [])) (fun _ n => (.ok .null, n + 1))
      (fun _ => .moves 0) false
    ¬corrupt.Intact ∧ intact.Intact ∧ served.2.planned = [.obj []] := by
  intro corrupt intact service served
  have hcorrupt : ¬corrupt.Intact := by decide +kernel
  have hintact : intact.Intact := by decide +kernel
  obtain ⟨-, hplanned, -⟩ := serve_answers_each (fun _ => some (.obj []))
    (fun _ n => (.ok .null, n + 1)) (fun _ => .moves 0) (fun _ => ⟨0, rfl⟩) [corrupt, intact]
    service rfl
  refine ⟨hcorrupt, hintact, hplanned.trans ?_⟩
  simp only [call, List.filterMap_cons, if_neg hcorrupt, if_pos hintact]
  rfl

end Service

end DavOS.Bridge
