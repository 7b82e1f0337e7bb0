import DavOS.Bridge.Serve

/-!
# Sessions: which request a response belongs to

Frames carry no sequence number, so that all the guest can do about the answer to an exchange it
gave up is to drop it in `drainInput`. An answer that is still under way at that moment is taken for
the answer to the next request (`late_response_misattributed`). If nothing is under way when the
drain ends, the exchange owns the line until it ends, and gets the answer to its own request
(`settled_exchange_attributed`). After an exchange that ended in `ResultOK`, that is always so.
-/

namespace DavOS.Bridge

open DavOS.Serial

/-- The arguments of one call of `Exchange`. -/
structure Call where
  request : Option Payload
  requestLen : ℤ
  response : Option Payload

/-- The guest between two calls, and what it is connected to. -/
structure Session where
  globals : Globals
  world : World

namespace Session

variable (schedule : ℕ → Tick)

/-- The world in which the next exchange runs, under its own number. -/
def nextWorld (st : Session) : World := { st.world with exchange := st.world.exchange + 1 }

def exchange (st : Session) (c : Call) : Outcome World :=
  Serial.exchange (line schedule) c.request c.requestLen c.response st.globals st.nextWorld

/-- The sessions that some sequence of calls leads to, all of which satisfy `P`. Each comes with the
result of the last call, and `P` may speak of the session before a call, of the result of the call
before and of the call itself. -/
inductive Reached (P : Session → Option Result → Call → Prop) : Session → Option Result → Prop
  | start (g : Globals) : Reached P ⟨g, .start⟩ none
  | next {st : Session} {last : Option Result} (c : Call) : Reached P st last → P st last c →
      Reached P ⟨(st.exchange schedule c).globals, (st.exchange schedule c).port⟩
        (some (st.exchange schedule c).result)

/-- What the next exchange finds when `drainInput` returns. -/
def drained (st : Session) : World :=
  drainInput (line schedule) ((line schedule).initPort st.nextWorld).2

end Session

/-- Nothing is under way between guest and host. -/
def World.Quiet (w : World) : Prop := w.toHost = [] ∧ w.toGuest = []

instance (w : World) : Decidable w.Quiet := inferInstanceAs (Decidable (_ ∧ _))

/-- A call that succeeds right after one that failed has found the line quiet after its drain. -/
def Settled (schedule : ℕ → Tick) (st : Session) (last : Option Result) (c : Call) : Prop :=
  (st.exchange schedule c).result = .ok → (∃ r, last = some r ∧ r ≠ .ok) →
    (st.drained schedule).Quiet

/-- The exchange returned what the host answered to the frame of this very exchange. -/
def Attributed (st : Session) (c : Call) (o : Outcome World) : Prop :=
  ∃ served ∈ o.port.log, ∃ buffer : Payload,
    served.frame = stamp (st.world.exchange + 1)
      (encodeBytes .request c.request c.requestLen st.globals.encodedRequest) ∧
    o.response = some buffer ∧ buffer.toList.take o.length = served.answer

/-! ## A quiet line stays quiet -/

namespace World

/-- A host that has received nothing answers nothing. -/
theorem serve_nil {w : World} (h : w.toHost = [])
    (respond : Except ProtocolError (List UInt8) → List UInt8) : w.serve respond = w :=
  serve_partial (p := []) (k := 0) (by simp) (by simp) (by simp [h]) respond

/-- Whatever the host does, a quiet line stays quiet. -/
theorem Quiet.hostEvent {w : World} (h : w.Quiet) (e : HostEvent) : (w.hostEvent e).Quiet := by
  cases e with
  | stop => exact h
  | serve respond =>
    rw [World.hostEvent, serve_nil h.1]
    exact h

/-- What every event of the host preserves, and the clock does not matter to, the passing of one
tick preserves. -/
theorem advance_invariant {P : World → Prop} (hevent : ∀ w e, P w → P (w.hostEvent e))
    (hclock : ∀ w n, P w → P { w with clock := n }) {w : World} (h : P w) (tick : Tick) :
    P (w.advance tick) := by
  rw [advance]
  apply hclock
  induction tick.host generalizing w with
  | nil => exact h
  | cons e events ih => exact ih (hevent w e h)

/-- It stays quiet over a tick. -/
theorem Quiet.advance {w : World} (h : w.Quiet) (tick : Tick) : (w.advance tick).Quiet :=
  advance_invariant (fun _ e h => h.hostEvent e) (fun _ _ h => h) h tick

/-- It stays quiet while the port is set up. -/
theorem Quiet.initPort {w : World} (h : w.Quiet) (schedule : ℕ → Tick) :
    ((line schedule).initPort w).2.Quiet := by
  obtain ⟨hhost, hguest⟩ := h.advance (schedule w.clock)
  simp [Quiet, line, hhost, hguest]

/-- On a quiet line there is nothing to read. -/
theorem Quiet.tryReadByte {w : World} (h : w.Quiet) (schedule : ℕ → Tick) :
    ((line schedule).tryReadByte w).2.Quiet := by
  have hw := h.advance (schedule w.clock)
  simp only [line]
  split
  · rename_i heq
    rw [hw.2] at heq
    simp at heq
  · exact hw

end World

/-- So a drain finds nothing. -/
theorem quiet_drained (schedule : ℕ → Tick) {st : Session} (h : st.world.Quiet) :
    (st.drained schedule).Quiet := by
  refine drainLoop_invariant (P := World.Quiet) ?_ _ (World.Quiet.initPort (w := st.nextWorld) h _)
  intro w value w' hw hread
  have hw' := hw.tryReadByte schedule
  rwa [hread] at hw'

/-! ## The line during one exchange -/

/-- The line while exchange `i` with the request payload `p` has it to itself: `k` bytes of its
frame have been sent, and `read` has been read of what came back. -/
inductive Owned (i : ℕ) (p : List UInt8) (k : ℕ) (read : List UInt8) (w : World) : Prop
  | waiting (hnumber : w.exchange = i) (hguest : w.toGuest = []) (hread : read = [])
      (hhost : w.running → w.toHost = stamp i ((wire .request p).take k))
  | answered (hnumber : w.exchange = i) (hsent : (wire .request p).length ≤ k)
      (hhost : w.toHost = []) (answer : List UInt8) (hanswer : answer.length ≤ maxResponsePayload)
      (hlog : ⟨stamp i (wire .request p), answer⟩ ∈ w.log)
      (hbytes : read ++ w.toGuest = wire .response answer)

namespace Owned

variable {i : ℕ} {p : List UInt8} {k : ℕ} {read : List UInt8} {w : World}

/-- The host answers once, when the last byte of the frame has arrived. -/
theorem serve (hp : p.length ≤ maxRequestPayload) (h : Owned i p k read w)
    (respond : Except ProtocolError (List UInt8) → List UInt8) :
    Owned i p k read (w.serve respond) := by
  cases h with
  | answered hnumber hsent hhost answer hanswer hlog hbytes =>
    rw [World.serve_nil hhost]
    exact .answered hnumber hsent hhost answer hanswer hlog hbytes
  | waiting hnumber hguest hread hhost =>
    by_cases hrun : w.running
    swap
    · rw [World.serve, if_pos hrun]
      exact .waiting hnumber hguest hread hhost
    rcases lt_or_ge k (wire .request p).length with hk | hk
    · rw [World.serve_partial hp hk (by rw [hhost hrun, map_value_stamp])]
      exact .waiting hnumber hguest hread hhost
    rw [List.take_of_length_le hk] at hhost
    rw [World.serve_frame hrun hp (by rw [hhost hrun, map_value_stamp]), World.send]
    split
    · rename_i bytes hbytes
      have hanswer : (respond (.ok p)).length ≤ maxResponsePayload := by
        by_contra hlong
        rw [encodeResponseFrame, if_pos (not_le.mp hlong)] at hbytes
        simp at hbytes
      rw [encodeResponseFrame_eq_wire hanswer, Except.ok.injEq] at hbytes
      refine .answered hnumber hk rfl _ hanswer ?_ ?_
      · simp [hhost hrun]
      · simp [hguest, hread, hbytes]
    · exact .waiting hnumber hguest hread (by simp)

/-- Whatever the host does, the line stays with the exchange. -/
theorem hostEvent (hp : p.length ≤ maxRequestPayload) (h : Owned i p k read w) (e : HostEvent) :
    Owned i p k read (w.hostEvent e) := by
  cases e with
  | serve respond => exact h.serve hp respond
  | stop =>
    cases h with
    | waiting hnumber hguest hread _ =>
      exact .waiting hnumber hguest hread (by simp [World.hostEvent])
    | answered hnumber hsent hhost answer hanswer hlog hbytes =>
      exact .answered hnumber hsent hhost answer hanswer hlog hbytes

/-- So it does over a tick. -/
theorem advance (hp : p.length ≤ maxRequestPayload) (h : Owned i p k read w) (tick : Tick) :
    Owned i p k read (w.advance tick) := by
  refine World.advance_invariant (fun _ e h => h.hostEvent hp e) ?_ h tick
  intro w n h
  cases h with
  | waiting hnumber hguest hread hhost => exact .waiting hnumber hguest hread hhost
  | answered hnumber hsent hhost answer hanswer hlog hbytes =>
    exact .answered hnumber hsent hhost answer hanswer hlog hbytes

variable {schedule : ℕ → Tick} {w' : World}

/-- A byte that the port does not take is not counted. -/
theorem write_refused (hp : p.length ≤ maxRequestPayload) (h : Owned i p k read w) {value : UInt8}
    (heq : (line schedule).tryWriteByte value w = (false, w')) : Owned i p k read w' := by
  simp only [line] at heq
  split at heq
  · simp at heq
  · simp only [Prod.mk.injEq, true_and] at heq
    rw [← heq]
    exact h.advance hp _

/-- A byte that the port takes is the next one of the request. -/
theorem write_accepted (hp : p.length ≤ maxRequestPayload) (h : Owned i p k read w)
    (hk : k < (wire .request p).length)
    (heq : (line schedule).tryWriteByte (wire .request p)[k]! w = (true, w')) :
    Owned i p (k + 1) read w' := by
  simp only [line] at heq
  split at heq
  swap
  · simp at heq
  simp only [Prod.mk.injEq, true_and] at heq
  subst heq
  cases h.advance hp (schedule w.clock) with
  | answered _ hsent => exact absurd hk (not_lt.mpr hsent)
  | waiting hnumber hguest hread hhost =>
    refine .waiting hnumber hguest hread ?_
    intro hrun
    simp only [hhost hrun, hnumber]
    rw [List.take_succ_eq_append_getElem hk, getElem!_pos (wire .request p) k hk, stamp, stamp,
      List.map_append]
    rfl

/-- A poll that finds no byte adds nothing to what was read. -/
theorem read_none (hp : p.length ≤ maxRequestPayload) (h : Owned i p k read w)
    (heq : (line schedule).tryReadByte w = (none, w')) : Owned i p k read w' := by
  simp only [line] at heq
  split at heq
  · simp at heq
  · simp only [Prod.mk.injEq, true_and] at heq
    rw [← heq]
    exact h.advance hp _

/-- A byte that is read is the next one of the answer. -/
theorem read_some (hp : p.length ≤ maxRequestPayload) (h : Owned i p k read w) {value : UInt8}
    (heq : (line schedule).tryReadByte w = (some value, w')) :
    Owned i p k (read ++ [value]) w' := by
  simp only [line] at heq
  split at heq
  swap
  · simp at heq
  rename_i rest hrest
  simp only [Prod.mk.injEq, Option.some.injEq] at heq
  obtain ⟨rfl, rfl⟩ := heq
  cases h.advance hp (schedule w.clock) with
  | waiting _ hguest => simp [hguest] at hrest
  | answered hnumber hsent hhost answer hanswer hlog hbytes =>
    refine .answered hnumber hsent hhost answer hanswer hlog ?_
    rw [← hbytes, hrest, List.append_assoc, List.singleton_append]

/-- Once a whole frame has been read, it is the answer, and the line is quiet. -/
theorem of_frame_read (h : Owned i p k read w) {kind : FrameKind} (hkind : kind.valid)
    {q : List UInt8} (hq : q.length ≤ kind.maxPayload) (hread : read = wire kind q) :
    ⟨stamp i (wire .request p), q⟩ ∈ w.log ∧ w.Quiet := by
  cases h with
  | waiting _ _ hnil _ => simp [hnil, wire] at hread
  | answered _ _ hhost answer hanswer hlog hbytes =>
    rw [hread, ← List.append_nil (wire .response answer)] at hbytes
    obtain ⟨-, rfl, hguest⟩ := wire_append_inj hkind (by decide) hq hanswer hbytes
    exact ⟨hlog, hhost, hguest⟩

end Owned

/-! ## The number of the exchange -/

namespace World

/-- The host does not number the exchanges. -/
theorem hostEvent_exchange (w : World) (e : HostEvent) : (w.hostEvent e).exchange = w.exchange := by
  cases e with
  | stop => rfl
  | serve respond =>
    simp only [hostEvent, serve, send]
    repeat' split
    all_goals rfl

/-- Nor does a tick. -/
theorem advance_exchange (w : World) (tick : Tick) : (w.advance tick).exchange = w.exchange :=
  advance_invariant (P := fun w' => w'.exchange = w.exchange)
    (fun w' e h => (hostEvent_exchange w' e).trans h) (fun _ _ h => h) rfl tick

end World

/-- The drain belongs to the next exchange. -/
theorem drained_exchange (schedule : ℕ → Tick) (st : Session) :
    (st.drained schedule).exchange = st.world.exchange + 1 := by
  refine drainLoop_invariant (P := fun w : World => w.exchange = st.world.exchange + 1) ?_ _ ?_
  · intro w value w' hw hread
    simp only [line] at hread
    split at hread <;> simp only [Prod.mk.injEq] at hread <;> rw [← hread.2]
    · exact (World.advance_exchange _ _).trans hw
    · exact (World.advance_exchange _ _).trans hw
  · exact World.advance_exchange st.nextWorld _

/-! ## Runs on a line where only the guest acts -/

/-- A tick at which the host does nothing and the FIFOs hold nothing to clear. -/
def Tick.Still (tick : Tick) : Prop := tick.host = [] ∧ tick.cleared = 0 ∧ tick.unsent = 0

section

variable {schedule : ℕ → Tick}

/-- A still tick moves the clock only. -/
theorem advance_still {w : World} (h : (schedule w.clock).Still) :
    w.advance (schedule w.clock) = { w with clock := w.clock + 1 } := by
  rw [World.advance, h.1]
  rfl

/-- Setting up the port takes one tick, and succeeds if the port is ready. -/
theorem initPort_still {w : World} (h : (schedule w.clock).Still) :
    (line schedule).initPort w =
      ((schedule w.clock).ready, { w with clock := w.clock + 1 }) := by
  simp only [line, advance_still h, h.2.1, h.2.2, Nat.sub_zero, List.take_length, List.drop_zero]

/-- A poll finds nothing if nothing has arrived. -/
theorem tryReadByte_none {w : World} (h : (schedule w.clock).Still)
    (hnone : (schedule w.clock).ready = false ∨ w.toGuest = []) :
    (line schedule).tryReadByte w = (none, { w with clock := w.clock + 1 }) := by
  simp only [line, advance_still h]
  split
  · rename_i hready hguest
    rcases hnone with hnone | hnone
    · simp [hnone] at hready
    · simp [hnone] at hguest
  · rfl

/-- A ready port returns the oldest byte that is under way. -/
theorem tryReadByte_some {w : World} (h : (schedule w.clock).Still)
    (hready : (schedule w.clock).ready = true) {value : UInt8} {rest : List UInt8}
    (hguest : w.toGuest = value :: rest) :
    (line schedule).tryReadByte w =
      (some value, { w with clock := w.clock + 1, toGuest := rest }) := by
  simp only [line, advance_still h, hready, hguest]

/-- While the UART takes every byte, each poll sends one. -/
theorem writeLoop_ready {buffer : FrameBuffer} {frameLen : ℕ} (hlen : frameLen ≤ maxFrameSize)
    (m : ℕ) {polls written : ℕ} {w : World} (hm : written + m = frameLen) (hpolls : m ≤ polls)
    (hticks : ∀ t, w.clock ≤ t → t < w.clock + m →
      (schedule t).Still ∧ (schedule t).ready = true) :
    writeLoop (line schedule) buffer frameLen polls written w =
      (frameLen, { w with
        clock := w.clock + m
        toHost := w.toHost ++ stamp w.exchange ((buffer.toList.take frameLen).drop written) }) := by
  induction m generalizing polls written w with
  | zero =>
    obtain rfl : written = frameLen := hm
    have hstop : writeLoop (line schedule) buffer written polls written w = (written, w) := by
      cases polls with
      | zero => rfl
      | succ polls => rw [writeLoop, if_neg (lt_irrefl _)]
    rw [hstop, List.drop_eq_nil_of_le (by simp)]
    simp [stamp]
  | succ m ih =>
    obtain ⟨polls, rfl⟩ : ∃ n, polls = n + 1 := ⟨polls - 1, by omega⟩
    have hmore : written < frameLen := by omega
    have hin : written < (buffer.toList.take frameLen).length := by
      simp only [List.length_take, Vector.length_toList]
      omega
    obtain ⟨hstill, hready⟩ := hticks w.clock le_rfl (by omega)
    have hwrite : (line schedule).tryWriteByte buffer[written]! w =
        (true, { w with
          clock := w.clock + 1
          toHost := w.toHost ++ [⟨w.exchange, buffer[written]!⟩] }) := by
      simp only [line, advance_still hstill, hready, if_true]
    have hget : buffer[written]! = (buffer.toList.take frameLen)[written] := by
      rw [getElem!_of_take rfl hmore hlen, getElem!_pos (buffer.toList.take frameLen) written hin]
    rw [writeLoop, if_pos hmore, hwrite]
    simp only
    rw [ih (by omega) (by omega)]
    · rw [List.drop_eq_getElem_cons hin, hget]
      simp [stamp]
      omega
    · intro t hfrom hto
      exact hticks t (by simp only at hfrom; omega) (by simp only at hto; omega)

/-- Draining drops what has arrived, up to the number of its polls, and ends with the first poll
that finds nothing. -/
theorem drainLoop_arrived {n : ℕ} {w : World} (hguest : w.toGuest.length ≤ n)
    (hticks : ∀ t, w.clock ≤ t → t ≤ w.clock + w.toGuest.length →
      (schedule t).Still ∧ (schedule t).ready = true) :
    drainLoop (line schedule) n w =
      { w with clock := w.clock + min n (w.toGuest.length + 1), toGuest := [] } := by
  induction n generalizing w with
  | zero =>
    have hnil := List.length_eq_zero_iff.mp (Nat.le_zero.mp hguest)
    rw [drainLoop, Nat.zero_min, Nat.add_zero, ← hnil]
  | succ n ih =>
    obtain ⟨hstill, hready⟩ := hticks w.clock le_rfl (by omega)
    rw [drainLoop]
    rcases harrived : w.toGuest with _ | ⟨value, rest⟩
    · rw [tryReadByte_none hstill (.inr harrived)]
      simp [harrived]
    · rw [tryReadByte_some hstill hready harrived]
      rw [harrived, List.length_cons] at hguest hticks
      simp only
      rw [ih (Nat.le_of_succ_le_succ hguest)]
      · simp only [List.length_cons, World.mk.injEq, true_and, and_true]
        omega
      · intro t hfrom hto
        exact hticks t (by simp only at hfrom; omega) (by simp only at hto; omega)

/-- What the drain of an exchange finds, if all of it has arrived when the exchange begins. Two
frames of the largest size are not too much. -/
theorem drained_arrived {st : Session} (hguest : st.world.toGuest.length < maxFrameSize * 2)
    (hticks : ∀ t, st.world.clock ≤ t → t ≤ st.world.clock + st.world.toGuest.length + 1 →
      (schedule t).Still ∧ (schedule t).ready = true) :
    st.drained schedule =
      { st.nextWorld with
        clock := st.world.clock + st.world.toGuest.length + 2
        toGuest := [] } := by
  have hinit : (line schedule).initPort st.nextWorld =
      (_, { st.nextWorld with clock := st.nextWorld.clock + 1 }) :=
    initPort_still (hticks _ le_rfl (by omega)).1
  rw [Session.drained, hinit, drainInput]
  refine (drainLoop_arrived (w := { st.nextWorld with clock := st.nextWorld.clock + 1 })
    hguest.le ?_).trans ?_
  · intro t hfrom hto
    simp only [Session.nextWorld] at hfrom hto
    exact hticks t (by omega) (by omega)
  · simp only [Session.nextWorld, World.mk.injEq, true_and, and_true]
    omega

/-- Late answers that have arrived in full when an exchange begins, while the host waits for a new
request, do not reach it. -/
theorem quiet_drained_of_arrived {st : Session} (hhost : st.world.toHost = [])
    (hguest : st.world.toGuest.length < maxFrameSize * 2)
    (hticks : ∀ t, st.world.clock ≤ t → t ≤ st.world.clock + st.world.toGuest.length + 1 →
      (schedule t).Still ∧ (schedule t).ready = true) : (st.drained schedule).Quiet := by
  rw [drained_arrived hguest hticks]
  exact ⟨hhost, rfl⟩

/-- A read loop that never finds a byte ready times out. -/
theorem readLoop_silent (response : Payload) (d : Decoder) {polls : ℕ} {w : World}
    (hticks : ∀ t, w.clock ≤ t → t < w.clock + polls →
      (schedule t).Still ∧ (schedule t).ready = false) :
    readLoop (line schedule) response polls d 0 w =
      ((0, .readTimeout), response, d, { w with clock := w.clock + polls }) := by
  induction polls generalizing w with
  | zero => rfl
  | succ polls ih =>
    obtain ⟨hstill, hready⟩ := hticks w.clock le_rfl (by omega)
    rw [readLoop, tryReadByte_none hstill (.inl hready)]
    simp only
    rw [ih]
    · simp only [Nat.add_assoc, Nat.add_comm 1 polls]
    · intro t hfrom hto
      exact hticks t (by simp only at hfrom; omega) (by simp only at hto; omega)

/-- A read loop that finds the bytes of a response ready returns it. -/
theorem readLoop_ready (response : Payload) {bytes : List UInt8} {d d' : Decoder}
    (hfeed : d.feed bytes = (d', .ok, [])) (hkind : d'.frame.kind = .response) {polls : ℕ}
    (hpolls : bytes.length ≤ polls) (bytesRead : ℕ) {w : World} (hguest : w.toGuest = bytes)
    (hticks : ∀ t, w.clock ≤ t → t < w.clock + bytes.length →
      (schedule t).Still ∧ (schedule t).ready = true) :
    readLoop (line schedule) response polls d bytesRead w =
      ((d'.frame.length, .ok), copyResponse d'.frame response, d',
        { w with clock := w.clock + bytes.length, toGuest := [] }) := by
  induction bytes generalizing polls d bytesRead w with
  | nil => simp [Decoder.feed] at hfeed
  | cons value bytes ih =>
    rw [List.length_cons] at hpolls hticks
    obtain ⟨polls, rfl⟩ : ∃ n, polls = n + 1 := ⟨polls - 1, by omega⟩
    obtain ⟨hstill, hready⟩ := hticks w.clock le_rfl (by omega)
    rw [readLoop, tryReadByte_some hstill hready hguest]
    obtain ⟨v, bs, hcons, hpush⟩ := Decoder.feed_eq_ok_iff_push.mp hfeed
    obtain ⟨rfl, rfl⟩ := List.cons.inj hcons
    rcases hpush with ⟨d₁, hpush, hfeed⟩ | ⟨hpush, rfl⟩
    · simp only [hpush]
      rw [ih hfeed (by omega) _ rfl]
      · simp only [List.length_cons, Nat.add_assoc, Nat.add_comm 1 bytes.length]
      · intro t hfrom hto
        exact hticks t (by simp only at hfrom; omega) (by simp only at hto; omega)
    · simp only [hpush]
      rw [if_neg (not_not.mpr hkind)]
      rfl

/-- An exchange that has drained its input to `w₂`, and then finds a UART that takes every byte, has
sent its frame when it comes to the read loop. -/
theorem exchange_sent (request : Option Payload) {n : ℕ} (hnil : request = none → n = 0)
    (hn : n ≤ maxPayload) (buffer : Payload) (g : Globals) {w w₂ : World}
    (hinit : (schedule w.clock).Still ∧ (schedule w.clock).ready = true)
    (hdrained : drainInput (line schedule) { w with clock := w.clock + 1 } = w₂)
    (hticks : ∀ t, w₂.clock ≤ t → t < w₂.clock + (n + 8) →
      (schedule t).Still ∧ (schedule t).ready = true) :
    ∃ encoded : FrameBuffer,
      Serial.exchange (line schedule) request n (some buffer) g w =
        let r := readLoop (line schedule) buffer maxPortPolls g.responseDecoder.reset 0
          { w₂ with
            clock := w₂.clock + (n + 8)
            toHost := w₂.toHost ++ stamp w₂.exchange (wire .request (payloadBytes request n)) }
        ⟨r.1.1, r.1.2, some r.2.1, ⟨encoded, r.2.2.1⟩, r.2.2.2⟩ := by
  have hvalid : FrameKind.request.valid := by decide
  obtain ⟨encoded, henc, htake⟩ := encode_eq_ok hvalid request hnil hn g.encodedRequest
  have hlen : n + 8 ≤ maxFrameSize := by
    simp only [maxFrameSize, frameHeaderSize, frameTrailerSize] at hn ⊢
    omega
  have hpolls : n + 8 ≤ maxPortPolls := hlen.trans (by decide)
  have hopen : (line schedule).initPort w = (true, { w with clock := w.clock + 1 }) := by
    rw [initPort_still hinit.1, hinit.2]
  have hwritten : writeLoop (line schedule) encoded (n + 8) maxPortPolls 0 w₂ =
      (n + 8, { w₂ with
        clock := w₂.clock + (n + 8)
        toHost := w₂.toHost ++ stamp w₂.exchange (wire .request (payloadBytes request n)) }) := by
    rw [writeLoop_ready hlen (n + 8) (Nat.zero_add _) hpolls hticks, List.drop_zero, htake]
  refine ⟨encoded, ?_⟩
  have hex : Serial.exchange (line schedule) request n (some buffer) g w =
      exchangeFrame (line schedule) (n + 8) buffer { g with encodedRequest := encoded } w := by
    simp only [Serial.exchange, henc]
  simp only [hex, exchangeFrame, hopen, hdrained, hwritten, not_true_eq_false, ne_eq, if_false]

/-- An exchange that finds nothing to drain, and a UART that takes every byte. -/
theorem exchange_written (request : Option Payload) {n : ℕ} (hnil : request = none → n = 0)
    (hn : n ≤ maxPayload) (buffer : Payload) (g : Globals) {w : World}
    (hticks : ∀ t, w.clock ≤ t → t < w.clock + (n + 10) → (schedule t).Still ∧
      ((schedule t).ready = true ∨ t = w.clock + 1))
    (hdrain : (schedule (w.clock + 1)).ready = false ∨ w.toGuest = []) :
    ∃ encoded : FrameBuffer,
      Serial.exchange (line schedule) request n (some buffer) g w =
        let r := readLoop (line schedule) buffer maxPortPolls g.responseDecoder.reset 0
          { w with
            clock := w.clock + 2 + (n + 8)
            toHost := w.toHost ++ stamp w.exchange (wire .request (payloadBytes request n)) }
        ⟨r.1.1, r.1.2, some r.2.1, ⟨encoded, r.2.2.1⟩, r.2.2.2⟩ := by
  have hready : ∀ t, w.clock ≤ t → t < w.clock + (n + 10) → t ≠ w.clock + 1 →
      (schedule t).Still ∧ (schedule t).ready = true :=
    fun t hfrom hto hne => (hticks t hfrom hto).imp_right fun h => h.resolve_right hne
  -- the first tick goes to `initPort`, the second to the one poll of `drainInput`
  have hdrained : drainInput (line schedule) { w with clock := w.clock + 1 } =
      { w with clock := w.clock + 2 } := by
    show drainLoop _ (4111 + 1) _ = _
    rw [drainLoop, tryReadByte_none (hticks _ (Nat.le_succ _) (by omega)).1 hdrain]
  refine exchange_sent request hnil hn buffer g (hready _ le_rfl (by omega) (by omega)) hdrained ?_
  intro t hfrom hto
  simp only at hfrom hto
  exact hready t (by omega) (by omega) (by omega)

/-- A poll that finds nothing, while the host reads the request and answers it. -/
theorem tryReadByte_served {w : World} {respond : Except ProtocolError (List UInt8) → List UInt8}
    (htick : schedule w.clock = ⟨[.serve respond], false, 0, 0⟩) (hrun : w.running)
    {p : List UInt8} (hp : p.length ≤ maxRequestPayload)
    (hhost : w.toHost = stamp w.exchange (wire .request p))
    (hanswer : (respond (.ok p)).length ≤ maxResponsePayload) :
    (line schedule).tryReadByte w = (none, { w with
      clock := w.clock + 1
      toHost := []
      toGuest := w.toGuest ++ wire .response (respond (.ok p))
      log := w.log ++ [⟨stamp w.exchange (wire .request p), respond (.ok p)⟩] }) := by
  simp only [line, htick, World.advance, List.foldl_cons, List.foldl_nil, World.hostEvent]
  rw [World.serve_frame hrun hp (by rw [hhost, map_value_stamp]), World.send,
    encodeResponseFrame_eq_wire hanswer, hhost]

/-- A read loop that begins with the whole request sent, when the host answers at its first poll and
the answer is there from the second on, succeeds. -/
theorem readLoop_served (response : Payload) (d : Decoder) {w : World}
    {respond : Except ProtocolError (List UInt8) → List UInt8}
    (htick : schedule w.clock = ⟨[.serve respond], false, 0, 0⟩) (hrun : w.running)
    {p : List UInt8} (hp : p.length ≤ maxRequestPayload)
    (hhost : w.toHost = stamp w.exchange (wire .request p)) (hguest : w.toGuest = [])
    (hanswer : (respond (.ok p)).length ≤ maxResponsePayload)
    (hticks : ∀ t, w.clock < t → (schedule t).Still ∧ (schedule t).ready = true) :
    (readLoop (line schedule) response maxPortPolls d.reset 0 w).1.2 = .ok := by
  have hfeed := Decoder.feed_wire (Decoder.idle_reset d) (by decide : FrameKind.response.valid)
    hanswer []
  rw [List.append_nil] at hfeed
  have hpolls : (wire .response (respond (.ok p))).length ≤ 999999 := by
    have hmax : maxResponsePayload ≤ 999991 := by decide
    rw [length_wire]
    omega
  rw [show maxPortPolls = 999999 + 1 from rfl, readLoop,
    tryReadByte_served htick hrun hp hhost hanswer]
  simp only
  rw [readLoop_ready response hfeed rfl hpolls 0 (by rw [hguest, List.nil_append])]
  intro t hfrom _
  exact hticks t hfrom

end

/-! ## Attribution -/

section

variable (schedule : ℕ → Tick)

/-- The write loop sends the frame on a line that it has to itself. -/
theorem owned_writeLoop {i : ℕ} {p : List UInt8} (hp : p.length ≤ maxRequestPayload)
    {buffer : FrameBuffer} {frameLen : ℕ} (hlen : frameLen ≤ maxFrameSize)
    (htake : buffer.toList.take frameLen = wire .request p) {w : World} (hquiet : w.Quiet)
    (hnumber : w.exchange = i) (polls : ℕ) :
    Owned i p (writeLoop (line schedule) buffer frameLen polls 0 w).1 []
      (writeLoop (line schedule) buffer frameLen polls 0 w).2 := by
  have hwire : (wire .request p).length = frameLen := by
    rw [← htake]
    simpa using hlen
  refine writeLoop_invariant (P := fun k w => Owned i p k [] w) ?_ ?_ _ ?_
  · intro k w w' hk h hwrite
    rw [getElem!_of_take htake hk hlen] at hwrite
    exact h.write_accepted hp (hwire ▸ hk) hwrite
  · intro k w w' _ h hwrite
    exact h.write_refused hp hwrite
  · exact .waiting hnumber hquiet.2 rfl (fun _ => by rw [hquiet.1]; rfl)

/-- If the read loop then succeeds, it has copied the answer of the host to that frame, and the line
is quiet again. -/
theorem owned_readLoop {i : ℕ} {p : List UInt8} (hp : p.length ≤ maxRequestPayload) {k : ℕ}
    {w : World} (h : Owned i p k [] w) (buffer : Payload) (polls : ℕ) {d : Decoder} (hd : d.Idle)
    (bytesRead : ℕ)
    (hok : (readLoop (line schedule) buffer polls d bytesRead w).1.2 = .ok) :
    let r := readLoop (line schedule) buffer polls d bytesRead w
    ∃ q, ⟨stamp i (wire .request p), q⟩ ∈ r.2.2.2.log ∧ r.2.1.toList.take r.1.1 = q ∧
      r.2.2.2.Quiet := by
  have hpush : ∀ {read : List UInt8} {d₁ d₂ : Decoder} {value : UInt8} {result : Result},
      d.feed read = (d₁, .needMore, []) → d₁.push value = (d₂, result) →
        d.feed (read ++ [value]) = (d₂, result, []) := by
    intro read d₁ d₂ value result hfeed hpush
    rw [Decoder.feed_append hfeed, Decoder.feed, hpush]
    cases result <;> rfl
  -- the decoder has been fed exactly the bytes that were read of the answer to this exchange
  have hend : ReadEnd (line schedule)
      (fun d' w => ∃ read, Owned i p k read w ∧ d.feed read = (d', .needMore, [])) buffer
      (readLoop (line schedule) buffer polls d bytesRead w) := by
    refine readLoop_ends ?_ ?_ _ _ _ ⟨[], h, rfl⟩
    · intro d' w w' hP hread
      obtain ⟨read, h, hfeed⟩ := hP
      exact ⟨read, h.read_none hp hread, hfeed⟩
    · intro d' d'' w w' value hP hread hmore
      obtain ⟨read, h, hfeed⟩ := hP
      exact ⟨read ++ [value], h.read_some hp hread, hpush hfeed hmore⟩
  generalize readLoop (line schedule) buffer polls d bytesRead w = r at hend hok ⊢
  cases hend with
  | expired _ herr => exact absurd hok herr
  | rejected _ _ herr => exact absurd hok herr
  | accepted hP hread haccept _ =>
    obtain ⟨read, h, hfeed⟩ := hP
    obtain ⟨kind, q, hkind, hq, hbytes, rfl⟩ :=
      (Decoder.feed_eq_ok_iff hd).mp (hpush hfeed haccept)
    rw [List.append_nil] at hbytes
    obtain ⟨hlog, hquiet⟩ := (h.read_some hp hread).of_frame_read hkind hq hbytes
    have hmax : q.length ≤ maxPayload := hq.trans kind.maxPayload_le
    refine ⟨q, hlog, ?_, hquiet⟩
    dsimp only
    rw [toList_copyResponse _ hmax]
    exact (List.take_left' (by simp [Decoder.accepted, hmax])).trans (Decoder.accepted_take hq)

/-- An exchange that drains to a quiet line and returns `ResultOK` returns the answer to its own
frame, and leaves the line quiet. -/
theorem exchange_attributed {st : Session} {c : Call} (hquiet : (st.drained schedule).Quiet)
    (hok : (st.exchange schedule c).result = .ok) :
    Attributed st c (st.exchange schedule c) ∧ (st.exchange schedule c).port.Quiet := by
  obtain ⟨result, herr, heq⟩ | ⟨n, buffer, encoded, -, hn, -, hbytes, htake, heq⟩ :=
    exchange_cases (line schedule) c.request c.requestLen c.response st.globals st.nextWorld
  · exact absurd ((congrArg Outcome.result heq).symm.trans hok) herr
  rw [Attributed, hbytes]
  rw [Session.exchange, heq] at hok ⊢
  obtain ⟨s', -, hout⟩ | ⟨s', w, hinit, hw, h⟩ := exchangeFrame_cases (line schedule) (n + 8)
    buffer { st.globals with encodedRequest := encoded } st.nextWorld
  · rw [hout] at hok
    exact absurd hok (by simp)
  obtain ⟨-, hout⟩ | ⟨r, -, hr, hout⟩ := h
  · rw [hout] at hok
    exact absurd hok (by simp)
  have hp : (payloadBytes c.request n).length ≤ maxRequestPayload := by
    rw [length_payloadBytes _ hn]
    exact hn
  have hlen : n + 8 ≤ maxFrameSize := by
    simp only [maxFrameSize, frameHeaderSize, frameTrailerSize] at hn ⊢
    omega
  have hdrained : drainInput (line schedule) s' = st.drained schedule := by
    rw [Session.drained, hinit]
  have hwritten := owned_writeLoop schedule hp hlen htake hquiet (drained_exchange schedule st)
    maxPortPolls
  rw [← hdrained, hw] at hwritten
  rw [hout] at hok ⊢
  have hread := owned_readLoop schedule hp hwritten buffer maxPortPolls (Decoder.idle_reset _) 0
    (hr.symm ▸ hok)
  rw [hr] at hread
  obtain ⟨q, hlog, htake, hdone⟩ := hread
  exact ⟨⟨_, hlog, _, rfl, rfl, htake⟩, hdone⟩

/-- A call that succeeds has found the line quiet, after a success as well as after a failure. -/
theorem Settled.quiet {st : Session} {last : Option Result} {c : Call}
    (h : Settled schedule st last c) (hok : (st.exchange schedule c).result = .ok)
    (hworld : (∀ r, last = some r → r = .ok) → st.world.Quiet) : (st.drained schedule).Quiet := by
  by_cases hfailed : ∃ r, last = some r ∧ r ≠ .ok
  · exact h hok hfailed
  · refine quiet_drained schedule (hworld fun r hr => ?_)
    by_contra hne
    exact hfailed ⟨r, hr, hne⟩

/-- After a run of settled calls that ended in a success, or has not begun, the line is quiet. -/
theorem quiet_of_reached {st : Session} {last : Option Result}
    (hst : st.Reached schedule (Settled schedule) last) (hlast : ∀ r, last = some r → r = .ok) :
    st.world.Quiet := by
  induction hst with
  | start g => exact ⟨rfl, rfl⟩
  | @next st last c _ hsettled ih =>
    have hok := hlast _ rfl
    exact (exchange_attributed schedule (hsettled.quiet schedule hok ih) hok).2

/-- **Every response belongs to its request, if the line is quiet after a failure.** In a run in
which each call that succeeds right after a failed one found the line quiet after its drain, every
call that returns `ResultOK` returns the payload that the host produced for that very request. -/
theorem settled_exchange_attributed {st : Session} {last : Option Result}
    (hst : st.Reached schedule (Settled schedule) last) {c : Call}
    (hsettled : Settled schedule st last c) (hok : (st.exchange schedule c).result = .ok) :
    Attributed st c (st.exchange schedule c) := by
  have hquiet := hsettled.quiet schedule hok (quiet_of_reached schedule hst)
  exact (exchange_attributed schedule hquiet hok).1

/-- An empty request with a buffer for the response. -/
def emptyCall : Call := ⟨none, 0, some (Vector.replicate _ 0)⟩

/-- The line on which the answer `[1]` to the first exchange, which the host gives at the first poll
of the read loop, arrives after the exchange has given up and the second one has drained its
input. -/
def lateSchedule (t : ℕ) : Tick where
  host := if t = 10 then [.serve fun _ => [1]] else []
  ready := t < 10 ∨ 1000010 ≤ t ∧ t ≠ 1000011

/-- Between two exchanges, with the answer to the first one still under way. -/
def lateSession (g : Globals) : Session :=
  ⟨g, 1, 1000010, [], wire .response [1], true, [⟨stamp 1 (wire .request []), [1]⟩]⟩

/-- If nothing comes from the second poll of its read loop on, the first exchange times out, with
the answer of the host under way. -/
theorem first_exchange_expires (hserve : schedule 10 = ⟨[.serve fun _ => [1]], false, 0, 0⟩)
    (hbefore : ∀ t < 10, (schedule t).Still ∧ (schedule t).ready = true)
    (hsilent : ∀ t, 11 ≤ t → t < 1000010 → (schedule t).Still ∧ (schedule t).ready = false)
    (g : Globals) :
    ∃ g' : Globals, Session.exchange schedule ⟨g, .start⟩ emptyCall =
      ⟨0, .readTimeout, emptyCall.response, g', (lateSession g').world⟩ := by
  obtain ⟨encoded, h⟩ := exchange_written none (fun _ => rfl) (Nat.zero_le _)
    (Vector.replicate _ 0) g (w := ⟨1, 0, [], [], true, []⟩) (fun t _ ht => by
      obtain ⟨hstill, hready⟩ := hbefore t (by simpa using ht)
      exact ⟨hstill, .inl hready⟩) (.inr rfl)
  have hread : readLoop (line schedule) (Vector.replicate _ 0) maxPortPolls
      g.responseDecoder.reset 0 ⟨1, 10, stamp 1 (wire .request []), [], true, []⟩ =
      ((0, .readTimeout), Vector.replicate _ 0, g.responseDecoder.reset,
        (lateSession g).world) := by
    rw [show maxPortPolls = 999999 + 1 from rfl, readLoop,
      tryReadByte_served hserve rfl (Nat.zero_le _) rfl (by decide)]
    simp only
    rw [readLoop_silent]
    · rfl
    · intro t hfrom hto
      exact hsilent t hfrom hto
  refine ⟨⟨encoded, g.responseDecoder.reset⟩, h.trans ?_⟩
  exact congrArg (fun r => (⟨r.1.1, r.1.2, some r.2.1, ⟨encoded, r.2.2.1⟩, r.2.2.2⟩ :
    Outcome World)) hread

/-- On the late line the first exchange times out. -/
theorem late_first_exchange (g : Globals) :
    ∃ g' : Globals, Session.exchange lateSchedule ⟨g, .start⟩ emptyCall =
      ⟨0, .readTimeout, emptyCall.response, g', (lateSession g').world⟩ := by
  refine first_exchange_expires lateSchedule rfl ?_ ?_ g
  · intro t ht
    simp [lateSchedule, Tick.Still, ht, ht.ne]
  · intro t hfrom hto
    have hready : ¬ (t < 10 ∨ 1000010 ≤ t ∧ t ≠ 1000011) := by omega
    have hne : t ≠ 10 := by omega
    simp [lateSchedule, Tick.Still, hready, hne]

/-- The second exchange then finds nothing to drain, and takes that answer for its own. -/
theorem late_second_exchange (g : Globals) :
    (Session.exchange lateSchedule (lateSession g) emptyCall).result = .ok ∧
    (Session.exchange lateSchedule (lateSession g) emptyCall).port.log =
      (lateSession g).world.log := by
  have hticks : ∀ t, 1000010 ≤ t → (lateSchedule t).Still ∧
      ((lateSchedule t).ready = true ∨ t = 1000010 + 1) := by
    intro t ht
    have hne : t ≠ 10 := by omega
    by_cases hdrain : t = 1000011
    · exact ⟨by simp [lateSchedule, Tick.Still, hne], .inr hdrain⟩
    · simp [lateSchedule, Tick.Still, hne, ht, hdrain]
  obtain ⟨encoded, h⟩ :=
    exchange_written none (fun _ => rfl) (Nat.zero_le _) (Vector.replicate _ 0) g
    (w := (lateSession g).nextWorld) (fun t hfrom _ => hticks t hfrom) (.inl rfl)
  have hfeed := Decoder.feed_wire (Decoder.idle_reset g.responseDecoder)
    (by decide : FrameKind.response.valid) (p := [1]) (by decide) []
  rw [List.append_nil] at hfeed
  have hread := readLoop_ready (Vector.replicate _ 0) hfeed rfl
    (by simp [length_wire, maxPortPolls] : _ ≤ maxPortPolls) 0
    (w := ⟨2, 1000020, stamp 2 (wire .request []), wire .response [1], true,
      (lateSession g).world.log⟩) rfl (fun t hfrom _ => by
        have hafter : 1000020 ≤ t := hfrom
        obtain ⟨hstill, hready⟩ := hticks t (by omega)
        exact ⟨hstill, hready.resolve_right (by omega)⟩)
  simp only [Session.nextWorld, lateSession, List.nil_append, payloadBytes, List.take_zero,
    Nat.reduceAdd] at h hread
  rw [hread] at h
  have hex : Session.exchange lateSchedule (lateSession g) emptyCall = _ := h
  rw [hex]
  exact ⟨rfl, rfl⟩

/-- **A late response is taken for the answer to the next request.** -/
theorem late_response_misattributed :
    ¬ ∀ (schedule : ℕ → Tick) (st : Session) (last : Option Result) (c : Call),
      st.Reached schedule (fun _ _ _ => True) last → (st.exchange schedule c).result = .ok →
        Attributed st c (st.exchange schedule c) := by
  intro hall
  have hstart : Session.Reached lateSchedule (fun _ _ _ => True)
      ⟨⟨Vector.replicate _ 0, .zero⟩, .start⟩ none := .start _
  have hnext := hstart.next emptyCall trivial
  obtain ⟨g', hfirst⟩ := late_first_exchange ⟨Vector.replicate _ 0, .zero⟩
  rw [hfirst] at hnext
  obtain ⟨hok, hlog⟩ := late_second_exchange g'
  obtain ⟨served, hserved, buffer, hframe, -⟩ := hall _ (lateSession g') _ emptyCall hnext hok
  rw [hlog] at hserved
  obtain rfl := List.mem_singleton.mp hserved
  -- the two frames differ in the number of the exchange that sent them
  have hbytes : encodeBytes .request emptyCall.request emptyCall.requestLen
      (lateSession g').globals.encodedRequest = wire .request [] :=
    encodeBytes_eq_wire (n := 0) (by decide) none (fun _ => rfl) (Nat.zero_le _) _
  rw [hbytes] at hframe
  have hnumber := congrArg (fun frame => (frame.map SentByte.exchange).head?) hframe
  exact absurd hnumber (by simp [stamp, wire, lateSession])

/-! ### An exchange after a timeout -/

/-- The line on which the answer to the first exchange arrives before the second one begins. The
host answers `[2]` to the second request. -/
def recoveringSchedule (t : ℕ) : Tick where
  host := if t = 10 then [.serve fun _ => [1]]
    else if t = 1000031 then [.serve fun _ => [2]] else []
  ready := t < 10 ∨ 1000010 ≤ t ∧ t ≠ 1000031

/-- A request of two bytes, `ls`. -/
def listCall : Call :=
  ⟨some ((Vector.replicate _ 0).set! 0 0x6C |>.set! 1 0x73), 2, some (Vector.replicate _ 0)⟩

/-- After its first million ticks the schedule is still and the port ready, but for one tick. -/
theorem recoveringSchedule_ready {t : ℕ} (hfrom : 1000010 ≤ t) (hne : t ≠ 1000031) :
    (recoveringSchedule t).Still ∧ (recoveringSchedule t).ready = true := by
  have hten : t ≠ 10 := by omega
  simp [recoveringSchedule, Tick.Still, hfrom, hne, hten]

/-- The first exchange of the schedule times out. -/
theorem recovering_first_exchange (g : Globals) :
    ∃ g' : Globals, Session.exchange recoveringSchedule ⟨g, .start⟩ emptyCall =
      ⟨0, .readTimeout, emptyCall.response, g', (lateSession g').world⟩ := by
  refine first_exchange_expires recoveringSchedule rfl ?_ ?_ g
  · intro t ht
    have hsecond : t ≠ 1000031 := by omega
    simp [recoveringSchedule, Tick.Still, ht, ht.ne, hsecond]
  · intro t hfrom hto
    have hsilent : 10 ≤ t ∧ t < 1000010 := by omega
    have hne : t ≠ 10 ∧ t ≠ 1000031 := by omega
    simp [recoveringSchedule, Tick.Still, hsilent, hne]

/-- The late answer is there while the second exchange drains its input. -/
theorem recovering_arrived (g : Globals) :
    (lateSession g).world.toGuest.length < maxFrameSize * 2 ∧
      ∀ t, (lateSession g).world.clock ≤ t →
        t ≤ (lateSession g).world.clock + (lateSession g).world.toGuest.length + 1 →
        (recoveringSchedule t).Still ∧ (recoveringSchedule t).ready = true := by
  have hlength : (lateSession g).world.toGuest.length = 9 := length_wire ..
  rw [hlength]
  refine ⟨by decide, fun t hfrom hto => recoveringSchedule_ready hfrom ?_⟩
  simp only [lateSession] at hto
  omega

/-- The drain takes it away. -/
theorem recovering_drained (g : Globals) :
    (lateSession g).drained recoveringSchedule =
      ⟨2, 1000021, [], [], true, [⟨stamp 1 (wire .request []), [1]⟩]⟩ :=
  drained_arrived (recovering_arrived g).1 (recovering_arrived g).2

/-- The second exchange finds the answer to its own frame. -/
theorem recovering_second_exchange (g : Globals) :
    (Session.exchange recoveringSchedule (lateSession g) listCall).result = .ok := by
  have hfirst := recoveringSchedule_ready (t := 1000010) le_rfl (by decide)
  have hdrained := recovering_drained g
  rw [Session.drained, initPort_still (w := (lateSession g).nextWorld) hfirst.1] at hdrained
  obtain ⟨encoded, h⟩ := exchange_sent listCall.request (n := 2) (by simp [listCall]) (by decide)
    (Vector.replicate _ 0) g hfirst hdrained
    fun t hfrom hto => recoveringSchedule_ready (by simp only at hfrom; omega)
      (by simp only at hto; omega)
  have hok : (readLoop (line recoveringSchedule) (Vector.replicate _ 0) maxPortPolls
      g.responseDecoder.reset 0
      ⟨2, 1000031, stamp 2 (wire .request (payloadBytes listCall.request 2)), [], true,
        [⟨stamp 1 (wire .request []), [1]⟩]⟩).1.2 = .ok :=
    readLoop_served (Vector.replicate _ 0) g.responseDecoder rfl rfl
      (by rw [length_payloadBytes _ (by decide)]; decide) rfl rfl (by decide)
      fun t ht => recoveringSchedule_ready (by simp only at ht; omega) (by simp only at ht; omega)
  simp only [List.nil_append, Nat.reduceAdd, hok] at h
  have hex : Session.exchange recoveringSchedule (lateSession g) listCall = _ := h
  exact congrArg Outcome.result hex

/-- The guest before the first exchange. -/
def freshSession : Session := ⟨⟨Vector.replicate _ 0, .zero⟩, .start⟩

/-- The guest after the first exchange on this line. -/
def expiredSession : Session :=
  ⟨(freshSession.exchange recoveringSchedule emptyCall).globals,
    (freshSession.exchange recoveringSchedule emptyCall).port⟩

/-- A read timeout, with the answer still under way, and then an exchange that drops this answer in
its drain and returns its own. -/
theorem recovered_exchange_attributed :
    (freshSession.exchange recoveringSchedule emptyCall).result = .readTimeout ∧
      expiredSession.world.toGuest = wire .response [1] ∧
      (expiredSession.exchange recoveringSchedule listCall).result = .ok ∧
      Attributed expiredSession listCall
        (expiredSession.exchange recoveringSchedule listCall) := by
  obtain ⟨g, hfirst⟩ := recovering_first_exchange freshSession.globals
  have hexchange : freshSession.exchange recoveringSchedule emptyCall = _ := hfirst
  have hexpired : expiredSession = lateSession g := by rw [expiredSession, hexchange]; rfl
  have hok : (expiredSession.exchange recoveringSchedule listCall).result = .ok := by
    rw [hexpired]
    exact recovering_second_exchange g
  have hquiet : (expiredSession.drained recoveringSchedule).Quiet := by
    rw [hexpired]
    exact quiet_drained_of_arrived rfl (recovering_arrived g).1 (recovering_arrived g).2
  refine ⟨by rw [hexchange], by rw [hexpired]; rfl, hok, ?_⟩
  refine settled_exchange_attributed recoveringSchedule
    (.next emptyCall (.start _) fun _ hlast => ?_) (fun _ _ => hquiet) hok
  -- nothing has failed before the first exchange
  obtain ⟨r, hr, -⟩ := hlast
  cases hr

end

end DavOS.Bridge
