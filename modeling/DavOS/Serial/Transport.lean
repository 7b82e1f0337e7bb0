import DavOS.Lib.CopyLoop
import DavOS.Serial.Codec

/-!
# One exchange over the serial port

Reference: `serial/transport.go`.

The port is whatever answers the three calls of `io_gccgo.go`: a state type and three functions on
it, so that a statement about every `Port` is one about every result of `initPort`, `tryWriteByte`
and `tryReadByte` at every poll. The polling loops count the polls that are left.

Each loop has one rule that turns an invariant of its steps into a fact about where it stops
(`drainLoop_invariant`, `writeLoop_invariant`, `readLoop_ends`). `Port.recorded` runs a port and
keeps the list of all calls made to it, and the rules at that port give what `exchange` sends and
what it takes for a response.
-/

namespace DavOS.Serial

structure Port (σ : Type) where
  initPort : σ → Bool × σ
  tryWriteByte : UInt8 → σ → Bool × σ
  /-- `none` is the source's `(0, false)`. -/
  tryReadByte : σ → Option UInt8 × σ

def maxPortPolls : ℕ := 1000000

/-- The package variables `encodedRequest` and `responseDecoder`. -/
structure Globals where
  encodedRequest : FrameBuffer
  responseDecoder : Decoder

/-- What `Exchange` returns, and what it leaves behind. -/
structure Outcome (σ : Type) where
  length : ℕ
  result : Result
  response : Option Payload
  globals : Globals
  port : σ

section

variable {σ : Type} (port : Port σ)

/-- The loop of `drainInput`, with `n` rounds left. -/
def drainLoop : ℕ → σ → σ
  | 0, s => s
  | n + 1, s =>
    match port.tryReadByte s with
    | (some _, s) => drainLoop n s
    | (none, s) => s

def drainInput (s : σ) : σ := drainLoop port (maxFrameSize * 2) s

/-- The write loop of `Exchange`, with `polls` polls left: the bytes written, and the port. -/
def writeLoop (buffer : FrameBuffer) (frameLen : ℕ) : ℕ → ℕ → σ → ℕ × σ
  | 0, written, s => (written, s)
  | polls + 1, written, s =>
    if written < frameLen then
      match port.tryWriteByte buffer[written]! s with
      | (true, s) => writeLoop buffer frameLen polls (written + 1) s
      | (false, s) => writeLoop buffer frameLen polls written s
    else
      (written, s)

/-- The loop that copies a received payload to the caller. -/
def copyResponse (frame : Frame) (response : Payload) : Payload :=
  (List.range frame.length).foldl (fun r i => r.set! i frame.payload[i]!) response

/-- The read loop of `Exchange`, with `polls` polls left: the length and the result to return, the
response buffer, the decoder and the port. -/
def readLoop (response : Payload) :
    ℕ → Decoder → ℕ → σ → (ℕ × Result) × Payload × Decoder × σ
  | 0, d, bytesRead, s =>
    ((0, if bytesRead ≠ 0 then .partialFrame else .readTimeout), response, d, s)
  | polls + 1, d, bytesRead, s =>
    match port.tryReadByte s with
    | (none, s) => readLoop response polls d bytesRead s
    | (some value, s) =>
      match d.push value with
      | (d, .needMore) => readLoop response polls d (bytesRead + 1) s
      | (d, .ok) =>
        if d.frame.kind ≠ .response then ((0, .unexpectedFrame), response, d, s)
        else ((d.frame.length, .ok), copyResponse d.frame response, d, s)
      | (d, result) => ((0, result), response, d, s)

/-- `Exchange` from the call of `initPort` on, with the encoded request in the global buffer. -/
def exchangeFrame (frameLen : ℕ) (buffer : Payload) (g : Globals) (s : σ) : Outcome σ :=
  let init := port.initPort s
  if ¬ init.1 then
    ⟨0, .portUnavailable, some buffer, g, init.2⟩
  else
    let write := writeLoop port g.encodedRequest frameLen maxPortPolls 0 (drainInput port init.2)
    if write.1 ≠ frameLen then
      ⟨0, .writeTimeout, some buffer, g, write.2⟩
    else
      let read := readLoop port buffer maxPortPolls g.responseDecoder.reset 0 write.2
      ⟨read.1.1, read.1.2, some read.2.1, { g with responseDecoder := read.2.2.1 }, read.2.2.2⟩

/-- `Exchange` -/
def exchange (request : Option Payload) (requestLen : ℤ) (response : Option Payload)
    (g : Globals) (s : σ) : Outcome σ :=
  match response with
  | none => ⟨0, .invalidPayload, none, g, s⟩
  | some buffer =>
    match encode .request request requestLen (some g.encodedRequest) with
    | ((frameLen, .ok), some encodedRequest) =>
      exchangeFrame port frameLen buffer { g with encodedRequest } s
    -- the buffer is a package variable, never `nil`, and unchanged by an error
    | ((_, result), _) => ⟨0, result, some buffer, g, s⟩

end

/-! ## Loop rules -/

section

variable {σ : Type} {port : Port σ}

/-- What every read preserves, `drainInput` preserves. -/
theorem drainLoop_invariant {P : σ → Prop}
    (hread : ∀ s value s', P s → port.tryReadByte s = (value, s') → P s') (n : ℕ) {s : σ}
    (h : P s) :
    P (drainLoop port n s) := by
  induction n generalizing s with
  | zero => exact h
  | succ n ih =>
    rw [drainLoop]
    split
    · rename_i heq
      exact ih (hread _ _ _ h heq)
    · rename_i heq
      exact hread _ _ _ h heq

/-- The write loop stops at some number of accepted bytes. An invariant indexed by that number has
to survive an accepted and a refused byte. -/
theorem writeLoop_invariant {buffer : FrameBuffer} {frameLen : ℕ} {P : ℕ → σ → Prop}
    (haccepted : ∀ k s s', k < frameLen → P k s → port.tryWriteByte buffer[k]! s = (true, s') →
      P (k + 1) s')
    (hrefused : ∀ k s s', k < frameLen → P k s → port.tryWriteByte buffer[k]! s = (false, s') →
      P k s')
    (polls : ℕ) {written : ℕ} {s : σ} (h : P written s) :
    P (writeLoop port buffer frameLen polls written s).1
      (writeLoop port buffer frameLen polls written s).2 := by
  induction polls generalizing written s with
  | zero => exact h
  | succ polls ih =>
    rw [writeLoop]
    split
    · rename_i hmore
      split
      · rename_i heq
        exact ih (haccepted _ _ _ hmore h heq)
      · rename_i heq
        exact ih (hrefused _ _ _ hmore h heq)
    · exact h

/-- How the read loop ends, for an invariant `P` of its decoder and port: the polls are used up, or
one more byte is read, after which either an error is returned or the response is copied. -/
inductive ReadEnd (port : Port σ) (P : Decoder → σ → Prop) (response : Payload) :
    (ℕ × Result) × Payload × Decoder × σ → Prop
  | expired {d : Decoder} {s : σ} {result : Result} : P d s → result ≠ .ok →
      ReadEnd port P response ((0, result), response, d, s)
  | rejected {d d' : Decoder} {s s' : σ} {value : UInt8} {result : Result} : P d s →
      port.tryReadByte s = (some value, s') → result ≠ .ok →
      ReadEnd port P response ((0, result), response, d', s')
  | accepted {d d' : Decoder} {s s' : σ} {value : UInt8} : P d s →
      port.tryReadByte s = (some value, s') → d.push value = (d', .ok) →
      d'.frame.kind = .response →
      ReadEnd port P response ((d'.frame.length, .ok), copyResponse d'.frame response, d', s')

/-- The read loop keeps what each of its steps keeps, up to the byte that ends it. -/
theorem readLoop_ends {P : Decoder → σ → Prop}
    (hnone : ∀ d s s', P d s → port.tryReadByte s = (none, s') → P d s')
    (hmore : ∀ d d' s s' value, P d s → port.tryReadByte s = (some value, s') →
      d.push value = (d', .needMore) → P d' s')
    (response : Payload) (polls : ℕ) {d : Decoder} (bytesRead : ℕ) {s : σ} (h : P d s) :
    ReadEnd port P response (readLoop port response polls d bytesRead s) := by
  induction polls generalizing d bytesRead s with
  | zero =>
    refine .expired h ?_
    split <;> simp
  | succ polls ih =>
    rw [readLoop]
    split
    · rename_i hread
      exact ih _ (hnone _ _ _ h hread)
    · rename_i value s' hread
      split
      · rename_i hpush
        exact ih _ (hmore _ _ _ _ _ h hread hpush)
      · rename_i hpush
        split
        · exact .rejected h hread (by simp)
        · rename_i hkind
          exact .accepted h hread hpush (not_not.mp hkind)
      · rename_i hok hpush
        exact .rejected h hread hok

/-- The ways through `exchangeFrame`: the port is unavailable, or it is drained and written to, and
then either the frame is incomplete or the read loop decides. -/
theorem exchangeFrame_cases (port : Port σ) (frameLen : ℕ) (buffer : Payload) (g : Globals)
    (s : σ) :
    (∃ s', port.initPort s = (false, s') ∧
      exchangeFrame port frameLen buffer g s = ⟨0, .portUnavailable, some buffer, g, s'⟩) ∨
    ∃ s' w, port.initPort s = (true, s') ∧
      writeLoop port g.encodedRequest frameLen maxPortPolls 0 (drainInput port s') = w ∧
      ((w.1 ≠ frameLen ∧
        exchangeFrame port frameLen buffer g s = ⟨0, .writeTimeout, some buffer, g, w.2⟩) ∨
      ∃ r, w.1 = frameLen ∧ readLoop port buffer maxPortPolls g.responseDecoder.reset 0 w.2 = r ∧
        exchangeFrame port frameLen buffer g s =
          ⟨r.1.1, r.1.2, some r.2.1, { g with responseDecoder := r.2.2.1 }, r.2.2.2⟩) := by
  unfold exchangeFrame
  rcases hinit : port.initPort s with ⟨_ | _, s'⟩
  · exact .inl ⟨s', rfl, by simp⟩
  · refine .inr ⟨s', _, rfl, rfl, ?_⟩
    by_cases hw : (writeLoop port g.encodedRequest frameLen maxPortPolls 0
        (drainInput port s')).1 = frameLen
    · exact .inr ⟨_, hw, rfl, by simp [hw]⟩
    · exact .inl ⟨hw, by simp [hw]⟩

/-- The ways through `exchange`: it returns an error before it touches the port, or `Encode` has
left the frame of the request in the global buffer and `exchangeFrame` goes on. -/
theorem exchange_cases (port : Port σ) (request : Option Payload) (requestLen : ℤ)
    (response : Option Payload) (g : Globals) (s : σ) :
    (∃ result, result ≠ .ok ∧
      exchange port request requestLen response g s = ⟨0, result, response, g, s⟩) ∨
    ∃ (n : ℕ) (buffer : Payload) (encoded : FrameBuffer), requestLen = n ∧ n ≤ maxPayload ∧
      response = some buffer ∧
      encodeBytes .request request requestLen g.encodedRequest =
        wire .request (payloadBytes request n) ∧
      encoded.toList.take (n + 8) = wire .request (payloadBytes request n) ∧
      exchange port request requestLen response g s =
        exchangeFrame port (n + 8) buffer { g with encodedRequest := encoded } s := by
  cases response with
  | none => exact .inl ⟨.invalidPayload, by simp, rfl⟩
  | some buffer =>
    by_cases hinvalid : requestLen < 0 ∨ request = none ∧ requestLen ≠ 0
    · refine .inl ⟨.invalidPayload, by simp, ?_⟩
      simp only [exchange, encode, if_pos hinvalid]
    by_cases hmax : requestLen ≤ maxPayload
    swap
    · refine .inl ⟨.oversizedFrame, by simp, ?_⟩
      have hover : requestLen > maxPayload ∨ requestLen > FrameKind.request.maxPayload :=
        .inl (not_le.mp hmax)
      have hvalid : ¬ ¬ FrameKind.request.valid := by decide
      simp only [exchange, encode, if_neg hinvalid, if_neg hvalid, if_pos hover]
    · obtain ⟨n, rfl⟩ := Int.eq_ofNat_of_zero_le (not_lt.mp (not_or.mp hinvalid).1)
      have hnil : request = none → n = 0 := by
        intro hreq
        by_contra hn
        exact hinvalid (.inr ⟨hreq, by exact_mod_cast hn⟩)
      have hn : n ≤ maxPayload := by exact_mod_cast hmax
      have hvalid : FrameKind.request.valid := by decide
      obtain ⟨encoded, henc, htake⟩ := encode_eq_ok hvalid request hnil hn g.encodedRequest
      refine .inr ⟨n, buffer, encoded, rfl, hn, rfl,
        encodeBytes_eq_wire hvalid request hnil hn _, htake, ?_⟩
      simp only [exchange, henc]

/-- The loop of `copyResponse` replaces the first bytes of the buffer. -/
theorem toList_copyResponse (frame : Frame) (h : frame.length ≤ maxPayload) (response : Payload) :
    (copyResponse frame response).toList =
      frame.payload.toList.take frame.length ++ response.toList.drop frame.length := by
  rw [copyResponse, CopyLoop.toList_foldl_set! _ h, CopyLoop.map_range_getElem! _ h]

end

/-! ## Recording the calls to a port -/

inductive PortCall
  | init (ok : Bool)
  | write (value : UInt8) (accepted : Bool)
  | read (value : Option UInt8)
deriving DecidableEq, Repr

namespace PortCall

def isWrite : PortCall → Bool
  | write _ _ => true
  | _ => false

def isRead : PortCall → Bool
  | read _ => true
  | _ => false

/-- The byte that the port accepted. -/
def acceptedByte : PortCall → Option UInt8
  | write value true => some value
  | _ => none

/-- The byte that was read. -/
def readByte : PortCall → Option UInt8
  | read value => value
  | _ => none

end PortCall

/-- The bytes the port accepted, in order. -/
def acceptedBytes (calls : List PortCall) : List UInt8 := calls.filterMap PortCall.acceptedByte

/-- The bytes that were read after the last write call, in order, not-ready polls skipped. -/
def readAfterWrites (calls : List PortCall) : List UInt8 :=
  (calls.reverse.takeWhile fun call => !call.isWrite).reverse.filterMap PortCall.readByte

/-- The port `port`, with the list of all calls made to it. -/
def Port.recorded {σ : Type} (port : Port σ) : Port (σ × List PortCall) where
  initPort s :=
    let (ok, s') := port.initPort s.1
    (ok, s', s.2 ++ [.init ok])
  tryWriteByte value s :=
    let (accepted, s') := port.tryWriteByte value s.1
    (accepted, s', s.2 ++ [.write value accepted])
  tryReadByte s :=
    let (value, s') := port.tryReadByte s.1
    (value, s', s.2 ++ [.read value])

/-- The bytes that the port has taken add up, call by call. -/
theorem acceptedBytes_append (h calls : List PortCall) :
    acceptedBytes (h ++ calls) = acceptedBytes h ++ acceptedBytes calls :=
  List.filterMap_append

/-- A write starts a new answer. -/
theorem readAfterWrites_write (h : List PortCall) (value : UInt8) (accepted : Bool) :
    readAfterWrites (h ++ [.write value accepted]) = [] := by
  simp [readAfterWrites, PortCall.isWrite]

/-- A read adds to the answer. -/
theorem readAfterWrites_read (h : List PortCall) (value : Option UInt8) :
    readAfterWrites (h ++ [.read value]) = readAfterWrites h ++ value.toList := by
  cases value <;> simp [readAfterWrites, PortCall.isWrite, PortCall.readByte]

section

variable {σ : Type} (port : Port σ)

/-- A set-up is recorded with its result. -/
theorem recorded_initPort {s s' : σ × List PortCall} {ok : Bool}
    (h : port.recorded.initPort s = (ok, s')) : s'.2 = s.2 ++ [.init ok] := by
  simp only [Port.recorded, Prod.mk.injEq] at h
  rw [← h.2, h.1]

/-- A write is recorded with its byte and whether it was taken. -/
theorem recorded_tryWriteByte {s s' : σ × List PortCall} {value : UInt8} {accepted : Bool}
    (h : port.recorded.tryWriteByte value s = (accepted, s')) :
    s'.2 = s.2 ++ [.write value accepted] := by
  simp only [Port.recorded, Prod.mk.injEq] at h
  rw [← h.2, h.1]

/-- A read is recorded with the byte, if there was one. -/
theorem recorded_tryReadByte {s s' : σ × List PortCall} {value : Option UInt8}
    (h : port.recorded.tryReadByte s = (value, s')) : s'.2 = s.2 ++ [.read value] := by
  simp only [Port.recorded, Prod.mk.injEq] at h
  rw [← h.2, h.1]

/-- Draining sends nothing. -/
theorem acceptedBytes_drainInput {s : σ × List PortCall} (h : acceptedBytes s.2 = []) :
    acceptedBytes (drainInput port.recorded s).2 = [] := by
  refine drainLoop_invariant (P := fun s : σ × List PortCall => acceptedBytes s.2 = []) ?_ _ h
  intro s value s' h hread
  rw [recorded_tryReadByte port hread, acceptedBytes_append, h]
  rfl

/-- The write loop gets the first bytes of the buffer accepted, as many as it counts, and once it
has got one the last call was a write. -/
theorem writeLoop_recorded (buffer : FrameBuffer) {frameLen : ℕ} (hlen : frameLen ≤ maxFrameSize)
    (polls : ℕ) {s : σ × List PortCall} (h : acceptedBytes s.2 = []) :
    let w := writeLoop port.recorded buffer frameLen polls 0 s
    w.1 ≤ frameLen ∧ acceptedBytes w.2.2 = buffer.toList.take w.1 ∧
      (w.1 ≠ 0 → readAfterWrites w.2.2 = []) := by
  refine writeLoop_invariant (P := fun k (s : σ × List PortCall) => k ≤ frameLen ∧
    acceptedBytes s.2 = buffer.toList.take k ∧ (k ≠ 0 → readAfterWrites s.2 = [])) ?_ ?_ polls
    ⟨Nat.zero_le _, by simpa using h, by simp⟩
  · intro k s s' hk hP hwrite
    have hin : k < maxFrameSize := lt_of_lt_of_le hk hlen
    have hget : buffer[k]! = buffer.toList.get ⟨k, by simpa using hin⟩ := by
      simp [getElem!_pos, hin]
    rw [recorded_tryWriteByte port hwrite]
    refine ⟨hk, ?_, fun _ => readAfterWrites_write _ _ _⟩
    rw [acceptedBytes_append, hP.2.1, List.take_succ_eq_append_getElem (by simpa using hin), hget]
    rfl
  · intro k s s' _ hP hwrite
    rw [recorded_tryWriteByte port hwrite]
    refine ⟨hP.1, ?_, fun _ => readAfterWrites_write _ _ _⟩
    rw [acceptedBytes_append, hP.2.1]
    exact List.append_nil _

/-- The read loop sends nothing, and ends as the decoder does that is fed the bytes read since the
last write. -/
theorem readLoop_recorded (response : Payload) (polls : ℕ) {d : Decoder} (bytesRead : ℕ)
    {s : σ × List PortCall} {sent : List UInt8} (hsent : acceptedBytes s.2 = sent)
    (hread : readAfterWrites s.2 = []) :
    let r := readLoop port.recorded response polls d bytesRead s
    acceptedBytes r.2.2.2.2 = sent ∧
      ((r.1.1 = 0 ∧ r.1.2 ≠ .ok ∧ r.2.1 = response) ∨
        (r.1.2 = .ok ∧ d.feed (readAfterWrites r.2.2.2.2) = (r.2.2.1, .ok, []) ∧
          r.2.2.1.frame.kind = .response ∧ r.1.1 = r.2.2.1.frame.length ∧
          r.2.1 = copyResponse r.2.2.1.frame response)) := by
  have hsend : ∀ {s s' : σ × List PortCall} {value : Option UInt8}, acceptedBytes s.2 = sent →
      port.recorded.tryReadByte s = (value, s') → acceptedBytes s'.2 = sent := by
    intro s s' value h hread
    rw [recorded_tryReadByte port hread, acceptedBytes_append, h]
    exact List.append_nil _
  have hend := readLoop_ends
    (P := fun d' (s : σ × List PortCall) => acceptedBytes s.2 = sent ∧
      d.feed (readAfterWrites s.2) = (d', .needMore, []))
    (fun d' s s' hP hread => ⟨hsend hP.1 hread, by
      rw [recorded_tryReadByte port hread, readAfterWrites_read]
      simpa using hP.2⟩)
    (fun d' d'' s s' value hP hread hpush => ⟨hsend hP.1 hread, by
      rw [recorded_tryReadByte port hread, readAfterWrites_read, Decoder.feed_append hP.2]
      simp [Decoder.feed, hpush]⟩)
    response polls bytesRead (s := s) ⟨hsent, by rw [hread]; rfl⟩
  generalize readLoop port.recorded response polls d bytesRead s = r at hend
  cases hend with
  | expired hP hresult => exact ⟨hP.1, .inl ⟨rfl, hresult, rfl⟩⟩
  | rejected hP hread hresult => exact ⟨hsend hP.1 hread, .inl ⟨rfl, hresult, rfl⟩⟩
  | accepted hP hread hpush hkind =>
    refine ⟨hsend hP.1 hread, .inr ⟨rfl, ?_, hkind, rfl, rfl⟩⟩
    rw [recorded_tryReadByte port hread, readAfterWrites_read, Decoder.feed_append hP.2]
    simp [Decoder.feed, hpush]

/-- What has been sent when `exchangeFrame` returns, and how it returns. -/
theorem exchangeFrame_recorded {n : ℕ} (hn : n ≤ maxPayload) (buffer : Payload) (g : Globals)
    (s : σ) :
    let o := exchangeFrame port.recorded (n + 8) buffer g (s, [])
    (∃ k, acceptedBytes o.port.2 = (g.encodedRequest.toList.take (n + 8)).take k) ∧
      ((o.result ≠ .ok ∧ o.length = 0 ∧ o.response = some buffer) ∨
        (o.result = .ok ∧ acceptedBytes o.port.2 = g.encodedRequest.toList.take (n + 8) ∧
          ∃ d', g.responseDecoder.reset.feed (readAfterWrites o.port.2) = (d', .ok, []) ∧
            d'.frame.kind = .response ∧ o.length = d'.frame.length ∧
            o.response = some (copyResponse d'.frame buffer))) := by
  have hlen : n + 8 ≤ maxFrameSize := by
    simp only [maxFrameSize, frameHeaderSize, frameTrailerSize] at hn ⊢
    omega
  obtain ⟨s', hinit, heq⟩ | ⟨s', w, hinit, hw, h⟩ :=
    exchangeFrame_cases port.recorded (n + 8) buffer g (s, [])
  · rw [heq]
    refine ⟨⟨0, ?_⟩, .inl ⟨by simp, rfl, rfl⟩⟩
    rw [recorded_initPort port hinit]
    rfl
  -- neither `initPort` nor the drain writes, so the accepted bytes are those of the write loop
  have hstart : acceptedBytes s'.2 = [] := by
    rw [recorded_initPort port hinit]
    rfl
  have hwrite := writeLoop_recorded port g.encodedRequest hlen maxPortPolls
    (acceptedBytes_drainInput port hstart)
  rw [hw] at hwrite
  obtain ⟨hle, hsent, hlast⟩ := hwrite
  obtain ⟨-, heq⟩ | ⟨r, hall, hr, heq⟩ := h
  · rw [heq]
    refine ⟨⟨w.1, ?_⟩, .inl ⟨by simp, rfl, rfl⟩⟩
    rw [hsent, List.take_take, min_eq_left hle]
  · have hread := readLoop_recorded port buffer maxPortPolls (d := g.responseDecoder.reset) 0 hsent
      (hlast (by omega))
    rw [hr] at hread
    obtain ⟨hsent, h⟩ := hread
    rw [heq]
    refine ⟨⟨w.1, ?_⟩, ?_⟩
    · rw [hsent, List.take_take, min_eq_left hle]
    · obtain ⟨hzero, herr, hsame⟩ | ⟨hok, hfeed, hkind, hlength, hcopy⟩ := h
      · exact .inl ⟨herr, hzero, congrArg some hsame⟩
      · exact .inr ⟨hok, by rw [hsent, hall], _, hfeed, hkind, hlength, congrArg some hcopy⟩

/-- **What one exchange does, whatever the port does.** The accepted bytes are a first part of the
encoded request. `ResultOK` means that all of it was accepted and that the bytes read afterwards are
the encoding of one response, whose payload then stands at the start of the response buffer; any
other result comes with length zero and an untouched buffer. -/
theorem exchange_sends_request_and_returns_response (request : Option Payload) (requestLen : ℤ)
    (response : Option Payload) (g : Globals) (s : σ) (output : FrameBuffer) :
    let o := exchange port.recorded request requestLen response g (s, [])
    acceptedBytes o.port.2 <+: encodeBytes .request request requestLen g.encodedRequest ∧
    (o.result = .ok →
      acceptedBytes o.port.2 = encodeBytes .request request requestLen g.encodedRequest ∧
      o.length ≤ maxResponsePayload ∧
      ∃ buffer payload buffer' : Payload, response = some buffer ∧ o.response = some buffer' ∧
        readAfterWrites o.port.2 = encodeBytes .response (some payload) o.length output ∧
        buffer'.toList = payload.toList.take o.length ++ buffer.toList.drop o.length) ∧
    (o.result ≠ .ok → o.length = 0 ∧ o.response = response) := by
  obtain ⟨result, herr, heq⟩ | ⟨n, buffer, encoded, rfl, hn, rfl, hbytes, htake, heq⟩ :=
    exchange_cases port.recorded request requestLen response g (s, [])
  · rw [heq]
    exact ⟨List.nil_prefix, fun hok => absurd hok herr, fun _ => ⟨rfl, rfl⟩⟩
  obtain ⟨⟨k, hsent⟩, h⟩ := exchangeFrame_recorded port hn buffer
    { g with encodedRequest := encoded } s
  rw [heq, hbytes, ← htake]
  refine ⟨hsent ▸ List.take_prefix _ _, ?_, ?_⟩
  · intro hok
    obtain ⟨herr, -⟩ | ⟨-, hall, d', hfeed, hkind, hlength, hcopy⟩ := h
    · exact absurd hok herr
    obtain ⟨kind, p, -, hp, hread, rfl⟩ := (Decoder.feed_eq_ok_iff (Decoder.idle_reset _)).mp hfeed
    obtain rfl : kind = .response := hkind
    have hmax : p.length ≤ maxPayload := hp.trans (FrameKind.maxPayload_le _)
    have hpay := Decoder.accepted_take (d := g.responseDecoder.reset) hp
    replace hlength : _ = p.length := hlength
    refine ⟨hall, hlength ▸ hp, buffer,
      (g.responseDecoder.reset.accepted .response p).frame.payload, _, rfl, hcopy, ?_, ?_⟩
    · rw [hread, hlength, encodeBytes_eq_wire (by decide) _ (by simp) hp, payloadBytes,
        Option.getD_some, List.append_nil]
      exact congrArg _ hpay.symm
    · rw [hlength]
      exact toList_copyResponse _ hmax buffer
  · intro herr
    obtain ⟨-, hzero, hsame⟩ | ⟨hok, -⟩ := h
    · exact ⟨hzero, hsame⟩
    · exact absurd hok herr

end

end DavOS.Serial
