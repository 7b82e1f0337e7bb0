import DavOS.Bridge.Protocol
import DavOS.Serial.Transport

/-!
# The host loop and the line between guest and host

Reference: `serve` of `scripts/agent_bridge.py`, `SerialTransport` of
`scripts/agent_bridge_transport.py` and the UART access of `serial/io_gccgo.go`.

A `World` is what lies between two runs of guest code: the bytes under way in both directions and
the host. `line` makes it the port of `Serial.exchange`. A schedule says, for each call of a port
function, what the host does before it and whether the UART is ready, so that all interleavings and
all delays of guest and host are the values of one function.

Each byte under way to the host carries the number of the exchange that sent it. Neither side reads
that number: it is there to say which request a frame belongs to.
-/

namespace DavOS.Bridge

open DavOS.Serial

structure SentByte where
  exchange : ℕ
  value : UInt8
deriving DecidableEq, Repr

def stamp (exchange : ℕ) (bytes : List UInt8) : List SentByte := bytes.map (⟨exchange, ·⟩)

@[simp] theorem length_stamp (exchange : ℕ) (bytes : List UInt8) :
    (stamp exchange bytes).length = bytes.length := List.length_map _

@[simp] theorem map_value_stamp (exchange : ℕ) (bytes : List UInt8) :
    (stamp exchange bytes).map SentByte.value = bytes := by
  simp [stamp, Function.comp_def]

/-- A round of `serve` that sent a response: the request frame it read and the payload it sent. -/
structure Served where
  frame : List SentByte
  answer : List UInt8
deriving DecidableEq, Repr

structure World where
  /-- The number of the exchange under way. -/
  exchange : ℕ
  clock : ℕ
  toHost : List SentByte
  toGuest : List UInt8
  /-- `serve` has not returned or raised. -/
  running : Bool
  log : List Served

namespace World

/-- Before the first exchange. -/
def start : World := ⟨0, 0, [], [], true, []⟩

/-- `transport.send`; an exception of `encode_response_frame` leaves `serve`. -/
def send (frame : List SentByte) (answer : List UInt8) (w : World) : World :=
  match encodeResponseFrame answer with
  | .ok bytes => { w with toGuest := w.toGuest ++ bytes, log := w.log ++ [⟨frame, answer⟩] }
  | .error _ => { w with running := false }

/-- One round of `serve`, if the bytes it reads have all arrived; `read_exact` waits for them.
`respond` stands for `response_for_payload` and for the answer to a recoverable error, with whatever
the provider says at this moment. -/
def serve (respond : Except ProtocolError (List UInt8) → List UInt8) (w : World) : World :=
  if ¬ w.running then w
  else
    let bytes := w.toHost.map SentByte.value
    if bytes.length < headerSize then w
    else
      match requestPayloadLength (bytes.take headerSize) with
      | .error e =>
        let w' := { w with toHost := w.toHost.drop headerSize }
        if e.recoverable then w'.send (w.toHost.take headerSize) (respond (.error e))
        else { w' with running := false }
      | .ok n =>
        let size := headerSize + (n + 2)
        if bytes.length < size then w
        else
          let w' := { w with toHost := w.toHost.drop size }
          match decodeRequestBody (bytes.take headerSize)
              ((bytes.drop headerSize).take (n + 2)) with
          | .ok payload => w'.send (w.toHost.take size) (respond (.ok payload))
          | .error e =>
            if e.recoverable then w'.send (w.toHost.take size) (respond (.error e))
            else { w' with running := false }

end World

inductive HostEvent
  | serve (respond : Except ProtocolError (List UInt8) → List UInt8)
  /-- The end of `serve`: a timeout, a closed socket, or the flag `once`. -/
  | stop

/-- What surrounds one call of a port function. -/
structure Tick where
  host : List HostEvent
  /-- The status bit that the call tests. -/
  ready : Bool
  /-- Received bytes that `initPort` clears from the FIFO. -/
  cleared : ℕ := 0
  /-- Bytes that `initPort` clears from the FIFO before they are sent. -/
  unsent : ℕ := 0

namespace World

def hostEvent (w : World) : HostEvent → World
  | .serve respond => w.serve respond
  | .stop => { w with running := false }

def advance (tick : Tick) (w : World) : World :=
  let w' := tick.host.foldl hostEvent w
  { w' with clock := w'.clock + 1 }

end World

/-- The port as the guest sees it under a schedule. -/
def line (schedule : ℕ → Tick) : Port World where
  initPort w :=
    let tick := schedule w.clock
    let w := w.advance tick
    (tick.ready, { w with toHost := w.toHost.take (w.toHost.length - tick.unsent),
                          toGuest := w.toGuest.drop tick.cleared })
  tryWriteByte value w :=
    let tick := schedule w.clock
    let w := w.advance tick
    if tick.ready then (true, { w with toHost := w.toHost ++ [⟨w.exchange, value⟩] })
    else (false, w)
  tryReadByte w :=
    let tick := schedule w.clock
    let w := w.advance tick
    match tick.ready, w.toGuest with
    | true, value :: rest => (some value, { w with toGuest := rest })
    | _, _ => (none, w)

/-! ## One round of the host -/

namespace World

/-- With a part of a request frame the host waits for the rest. -/
theorem serve_partial {w : World} {p : List UInt8} (hp : p.length ≤ maxRequestPayload) {k : ℕ}
    (hk : k < (wire .request p).length)
    (hbytes : w.toHost.map SentByte.value = (wire .request p).take k)
    (respond : Except ProtocolError (List UInt8) → List UInt8) : w.serve respond = w := by
  rw [serve]
  split
  · rfl
  dsimp only
  rw [hbytes, List.length_take_of_le hk.le]
  split
  · rfl
  · rename_i hheader
    have htake : ((wire .request p).take k).take headerSize =
        magic ++ [version, request] ++ toBytes p.length := by
      rw [List.take_take, min_eq_left (not_lt.mp hheader), toBytes_eq]
      rfl
    rw [htake, requestPayloadLength_eq_ok_iff.mpr ⟨hp, rfl⟩]
    rw [length_wire] at hk
    exact if_pos (by rw [headerSize]; omega)

/-- A whole request frame is read and answered, unless the answer is too long to be sent. -/
theorem serve_frame {w : World} (hrun : w.running) {p : List UInt8}
    (hp : p.length ≤ maxRequestPayload) (hbytes : w.toHost.map SentByte.value = wire .request p)
    (respond : Except ProtocolError (List UInt8) → List UInt8) :
    w.serve respond = { w with toHost := [] }.send w.toHost (respond (.ok p)) := by
  obtain ⟨n, hheader, hbody, hrest⟩ := decodeRequest_iff.mpr
    (⟨hp, (List.append_nil _).symm⟩ : p.length ≤ maxRequestPayload ∧ wire .request p = _ ++ [])
  have hsize : (wire .request p).length ≤ headerSize + (n + 2) :=
    List.drop_eq_nil_iff.mp hrest.symm
  have hn : n = p.length := ((decodeRequestBody_eq_ok_iff hheader).mp hbody).1.symm
  have hhost : w.toHost.length = headerSize + (n + 2) := by
    rw [← List.length_map SentByte.value, hbytes, length_wire, hn, headerSize]
    omega
  rw [serve, if_neg (not_not.mpr hrun)]
  dsimp only
  rw [hbytes, if_neg (by rw [length_wire, headerSize]; omega)]
  simp only [hheader, hbody]
  rw [if_neg (by rw [length_wire, headerSize]; omega), ← hhost, List.drop_length, List.take_length]

end World

end DavOS.Bridge
