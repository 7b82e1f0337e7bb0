import DavOS.Bridge.Protocol

/-!
# Frames over a byte stream

Reference: `scripts/agent_bridge_transport.py`.

`recv` hands out the bytes of the stream in pieces of any size. A `network` says for each call on
the socket what becomes of it; that a transfer of `recv` moves at most `k + 1` bytes, for any `k`,
gives all ways to cut the stream into pieces that are not empty. An empty piece is the end of the
stream.
-/

namespace DavOS.Bridge

open DavOS.Serial

/-- What becomes of a call on the socket. -/
inductive Transfer
  /-- The deadline has passed before the call: `remaining_timeout` raises. -/
  | expired
  | timedOut
  /-- An `OSError`. -/
  | failed
  /-- `recv` gets at most `k + 1` bytes; `sendall` sends all. -/
  | moves (k : ℕ)

structure Stream where
  /-- The bytes that `recv` has not handed out. -/
  pending : List UInt8
  sent : List UInt8
  /-- The number of calls so far. -/
  calls : ℕ

def transportTimedOut : ProtocolError :=
  { message := "transport timed out", code := "transport_timeout" }

section

variable (network : ℕ → Transfer)

/-- `stream.recv(n)`, with the exceptions as `read_exact` turns them. -/
def Stream.recv (n : ℕ) (s : Stream) : Except ProtocolError (List UInt8) × Stream :=
  let s' := { s with calls := s.calls + 1 }
  match network s.calls with
  | .expired => (.error transportTimedOut, s')
  | .timedOut => (.error transportTimedOut, s')
  | .failed => (.error { message := "transport read failed", code := "transport_error" }, s')
  | .moves k =>
    let size := min n (k + 1)
    (.ok (s.pending.take size), { s' with pending := s.pending.drop size })

/-- The loop of `read_exact`; `data` is what it has read so far. -/
def readExact (size : ℕ) (data : List UInt8) (s : Stream) :
    Except ProtocolError (List UInt8) × Stream :=
  if data.length < size then
    match s.recv network (size - data.length) with
    | (.error e, s) => (.error e, s)
    | (.ok [], s) => (.error { message := "partial frame" }, s)
    | (.ok (b :: chunk), s) => readExact size (data ++ b :: chunk) s
  else (.ok data, s)
termination_by size - data.length
decreasing_by
  rw [List.length_append, List.length_cons]
  omega

namespace SerialTransport

def receive (s : Stream) : Except ProtocolError (List UInt8) × Stream :=
  match readExact network headerSize [] s with
  | (.error e, s) => (.error e, s)
  | (.ok header, s) =>
    match requestPayloadLength header with
    | .error e => (.error e, s)
    | .ok payloadLen =>
      match readExact network (payloadLen + 2) [] s with
      | (.error e, s) => (.error e, s)
      | (.ok body, s) => (decodeRequestBody header body, s)

def send (payload : List UInt8) (s : Stream) : Except ProtocolError Unit × Stream :=
  let s' := { s with calls := s.calls + 1 }
  match network s.calls with
  | .expired => (.error transportTimedOut, s')
  | transfer =>
    match encodeResponseFrame payload with
    | .error e => (.error e, s')
    | .ok frame =>
      match transfer with
      | .failed => (.error { message := "transport write failed", code := "transport_error" }, s')
      | .moves _ => (.ok (), { s' with sent := s.sent ++ frame })
      | _ => (.error transportTimedOut, s')

end SerialTransport

/-! ## Any network -/

/-- What `read_exact` can do: its result holds the bytes that are off the stream, and none of its
exceptions is recoverable. -/
inductive Reads (size : ℕ) (data : List UInt8) (s : Stream) :
    Except ProtocolError (List UInt8) × Stream → Prop
  | read {read : List UInt8} {s' : Stream} (hsize : size ≤ read.length)
      (hread : read ++ s'.pending = data ++ s.pending) : Reads size data s (.ok read, s')
  | error {e : ProtocolError} {s' : Stream} (hrecoverable : e.recoverable = false) :
      Reads size data s (.error e, s')

/-- No error of the connection is recoverable. -/
theorem recv_error {n : ℕ} {e : ProtocolError} {s s' : Stream}
    (h : s.recv network n = (.error e, s')) : e.recoverable = false := by
  rw [Stream.recv] at h
  cases hnet : network s.calls with
  | moves k =>
    rw [hnet] at h
    cases h
  | _ =>
    rw [hnet] at h
    cases h
    rfl

/-- What is received is off the stream. -/
theorem recv_ok {n : ℕ} {chunk : List UInt8} {s s' : Stream}
    (h : s.recv network n = (.ok chunk, s')) : chunk ++ s'.pending = s.pending := by
  rw [Stream.recv] at h
  cases hnet : network s.calls with
  | moves k =>
    rw [hnet] at h
    cases h
    exact List.take_append_drop _ _
  | _ =>
    rw [hnet] at h
    cases h

/-- All ends of `read_exact`. -/
theorem reads_readExact (size : ℕ) (data : List UInt8) (s : Stream) :
    Reads size data s (readExact network size data s) := by
  fun_induction readExact network size data s with
  | case1 data s hlt e s' hrecv => exact .error (recv_error network hrecv)
  | case2 data s hlt s' hrecv => exact .error rfl
  | case3 data s hlt b chunk s' hrecv ih =>
    have hchunk := recv_ok network hrecv
    generalize readExact network size (data ++ b :: chunk) s' = r at ih ⊢
    cases ih with
    | read hsize hread => exact .read hsize (by rw [hread, List.append_assoc, hchunk])
    | error hrecoverable => exact .error hrecoverable
  | case4 data s hge => exact .read (not_lt.mp hge) rfl

/-- A call of `receive` takes bytes off the stream, or what it raises is not recoverable. -/
theorem receive_shrinks (s : Stream) :
    (SerialTransport.receive network s).2.pending.length < s.pending.length ∨
      ∃ e, (SerialTransport.receive network s).1 = .error e ∧ e.recoverable = false := by
  rw [SerialTransport.receive]
  have hheader := reads_readExact network headerSize [] s
  generalize readExact network headerSize [] s = r at hheader ⊢
  cases hheader with
  | error hrecoverable => exact .inr ⟨_, rfl, hrecoverable⟩
  | @read header s₁ hsize hread =>
    have hlen := congrArg List.length hread
    rw [List.length_append, List.nil_append] at hlen
    rw [headerSize] at hsize
    dsimp only
    cases requestPayloadLength header with
    | error e => exact .inl (by dsimp only; omega)
    | ok n =>
      have hbody := reads_readExact network (n + 2) [] s₁
      dsimp only
      generalize readExact network (n + 2) [] s₁ = r at hbody ⊢
      cases hbody with
      | error hrecoverable => exact .inr ⟨_, rfl, hrecoverable⟩
      | @read body s₂ hsize₂ hread₂ =>
        have hlen₂ := congrArg List.length hread₂
        rw [List.length_append, List.nil_append] at hlen₂
        exact .inl (by dsimp only; omega)

/-- Sending does not touch what waits to be read. -/
theorem SerialTransport.send_pending (payload : List UInt8) (s : Stream) :
    (SerialTransport.send network payload s).2.pending = s.pending := by
  rw [SerialTransport.send]
  cases network s.calls with
  | expired => rfl
  | _ => cases encodeResponseFrame payload <;> rfl

end

/-! ## A network without timeouts and errors -/

/-- No call times out or fails. -/
def Reliable (network : ℕ → Transfer) : Prop := ∀ i, ∃ k, network i = .moves k

variable {network : ℕ → Transfer} {s : Stream} {rest : List UInt8}

/-- `recv` hands out a first part of the bytes it is asked for, if the stream has them. -/
theorem Reliable.recv (hnet : Reliable network) {more : List UInt8}
    (hpending : s.pending = more ++ rest) (hne : more ≠ []) :
    ∃ b chunk left, more = b :: chunk ++ left ∧ s.recv network more.length =
      (.ok (b :: chunk), { s with pending := left ++ rest, calls := s.calls + 1 }) := by
  obtain ⟨b, tail, rfl⟩ := List.exists_cons_of_ne_nil hne
  obtain ⟨k, hk⟩ := hnet s.calls
  have hsize : min (tail.length + 1) (k + 1) = min tail.length k + 1 := by omega
  have hle : min tail.length k ≤ tail.length := min_le_left _ _
  refine ⟨b, tail.take (min tail.length k), tail.drop (min tail.length k), ?_, ?_⟩
  · rw [List.cons_append, List.take_append_drop]
  · simp only [Stream.recv, hk, hpending, List.length_cons, hsize, List.cons_append,
      List.take_succ_cons, List.drop_succ_cons, List.take_append_of_le_length hle,
      List.drop_append_of_le_length hle]

/-- **The cuts do not matter**: `read_exact` returns the bytes it was called for, if the stream has
them. -/
theorem Reliable.readExact (hnet : Reliable network) {size : ℕ} {data more : List UInt8}
    (hpending : s.pending = more ++ rest) (hsize : data.length + more.length = size) :
    ∃ calls, readExact network size data s =
      (.ok (data ++ more), { s with pending := rest, calls := calls }) := by
  induction hn : more.length using Nat.strong_induction_on generalizing data more s with
  | _ n ih =>
    rw [Bridge.readExact]
    by_cases hne : more = []
    · subst hne
      rw [if_neg (by simpa using hsize.ge), List.append_nil]
      exact ⟨s.calls, by rw [← List.nil_append rest, ← hpending]⟩
    · obtain ⟨b, chunk, left, rfl, hrecv⟩ := hnet.recv hpending hne
      simp only [List.length_append, List.length_cons] at hsize hn hrecv
      have hask : size - data.length = chunk.length + 1 + left.length := by omega
      have hdata : (data ++ b :: chunk).length + left.length = size := by
        simp only [List.length_append, List.length_cons]
        omega
      have hpending' : { s with pending := left ++ rest, calls := s.calls + 1 }.pending =
          left ++ rest := rfl
      obtain ⟨calls, hrest⟩ := ih left.length (by omega) hpending' hdata rfl
      rw [if_pos (by omega), hask, hrecv]
      dsimp only
      rw [hrest, List.append_assoc]
      exact ⟨calls, rfl⟩

/-- At the end of the stream a frame is partial. -/
theorem Reliable.readExact_end (hnet : Reliable network) {size : ℕ} {data : List UInt8}
    (hpending : s.pending = []) (hsize : data.length < size) :
    Bridge.readExact network size data s =
      (.error { message := "partial frame" }, { s with calls := s.calls + 1 }) := by
  obtain ⟨k, hk⟩ := hnet s.calls
  rw [Bridge.readExact, if_pos hsize]
  simp only [Stream.recv, hk, hpending, List.take_nil, List.drop_nil]

/-! ## Request frames -/

/-- A frame with a good header and two bytes in the place of the checksum. -/
structure RequestFrame where
  payload : List UInt8
  length_le : payload.length ≤ maxRequestPayload
  high : UInt8
  low : UInt8

namespace RequestFrame

variable (f : RequestFrame)

def header : List UInt8 := magic ++ [version, request] ++ toBytes f.payload.length

def bytes : List UInt8 := f.header ++ (f.payload ++ [f.high, f.low])

/-- The checksum is right. -/
def Intact : Prop := [f.high, f.low] = toBytes (checksum (f.header.drop 2 ++ f.payload))

instance : Decidable f.Intact := inferInstanceAs (Decidable (_ = _))

/-- The header tells the length of the payload. -/
theorem requestPayloadLength_header : requestPayloadLength f.header = .ok f.payload.length :=
  requestPayloadLength_eq_ok_iff.mpr ⟨f.length_le, rfl⟩

/-- The body is accepted exactly if its checksum is right, and the error is recoverable. -/
theorem decodeRequestBody_body :
    decodeRequestBody f.header (f.payload ++ [f.high, f.low]) =
      if f.Intact then .ok f.payload
      else .error { message := "request checksum mismatch", recoverable := true } := by
  have hlen : (f.payload ++ [f.high, f.low]).length = f.payload.length + 2 := List.length_append
  simp only [decodeRequestBody, f.requestPayloadLength_header, bind, Except.bind, hlen, ne_eq,
    not_true_eq_false, if_false, Nat.add_sub_cancel, List.take_left, List.drop_left,
    intFromBytes_eq_iff (checksum_lt _), ite_not]
  rfl

end RequestFrame

/-- **Framing stays in step.** `receive` takes one frame off the stream, with a right checksum or a
wrong one. -/
theorem Reliable.receive (hnet : Reliable network) (f : RequestFrame)
    (hpending : s.pending = f.bytes ++ rest) :
    ∃ calls, SerialTransport.receive network s =
      (if f.Intact then .ok f.payload
        else .error { message := "request checksum mismatch", recoverable := true },
        { s with pending := rest, calls := calls }) := by
  rw [RequestFrame.bytes, List.append_assoc] at hpending
  have hsize : ([] : List UInt8).length + f.header.length = headerSize := rfl
  obtain ⟨calls, hheader⟩ := hnet.readExact hpending hsize
  have hpending' : { s with pending := f.payload ++ [f.high, f.low] ++ rest, calls }.pending =
      f.payload ++ [f.high, f.low] ++ rest := rfl
  have hsize' : ([] : List UInt8).length + (f.payload ++ [f.high, f.low]).length =
      f.payload.length + 2 := by
    simp
  obtain ⟨calls', hbody⟩ := hnet.readExact hpending' hsize'
  refine ⟨calls', ?_⟩
  simp only [SerialTransport.receive, hheader, List.nil_append, f.requestPayloadLength_header,
    hbody, f.decodeRequestBody_body]

/-- At the end of the stream there is no request. -/
theorem Reliable.receive_end (hnet : Reliable network) (hpending : s.pending = []) :
    SerialTransport.receive network s =
      (.error { message := "partial frame" }, { s with calls := s.calls + 1 }) := by
  rw [SerialTransport.receive, hnet.readExact_end hpending (by decide)]

/-- A response that is short enough is sent as a frame. -/
theorem Reliable.send (hnet : Reliable network) {payload : List UInt8}
    (hlen : payload.length ≤ maxResponsePayload) (s : Stream) :
    SerialTransport.send network payload s =
      (.ok (), { s with sent := s.sent ++ wire .response payload, calls := s.calls + 1 }) := by
  obtain ⟨k, hk⟩ := hnet s.calls
  rw [SerialTransport.send, hk, encodeResponseFrame_eq_wire hlen]

end DavOS.Bridge
