import Mathlib.Data.Nat.Notation
import Mathlib.Data.Int.Notation
import Mathlib.Logic.Function.Iterate

/-!
# DV/1 frames

Reference: `serial/frame.go`.

`encode` fills a caller's buffer with one frame and `Decoder.push` is the byte-wise state machine
of the receiving side. A Go array of fixed size is a `Vector`, a pointer that may be `nil` an
`Option`, and `FrameKind` stays a byte, because both sides meet values outside its two constants
(`Reset` stores a zero, a received kind is an arbitrary byte).
-/

namespace DavOS.Serial

def frameVersion : UInt8 := 1

abbrev maxRequestPayload : ℕ := 2048
abbrev maxResponsePayload : ℕ := 1024
abbrev maxPayload : ℕ := maxRequestPayload

abbrev frameHeaderSize : ℕ := 6
abbrev frameTrailerSize : ℕ := 2
abbrev maxFrameSize : ℕ := frameHeaderSize + maxPayload + frameTrailerSize

/-- `'D'` -/
def frameMagicFirst : UInt8 := 0x44
/-- `'V'` -/
def frameMagicSecond : UInt8 := 0x56

abbrev Payload := Vector UInt8 maxPayload
abbrev FrameBuffer := Vector UInt8 maxFrameSize

structure FrameKind where
  code : UInt8
deriving DecidableEq, Repr

namespace FrameKind

def request : FrameKind := ⟨1⟩
def response : FrameKind := ⟨2⟩

def valid (kind : FrameKind) : Bool :=
  kind = request || kind = response

def maxPayload (kind : FrameKind) : ℕ :=
  if kind = response then maxResponsePayload else maxRequestPayload

end FrameKind

inductive Result
  | ok
  | needMore
  | invalidPayload
  | portUnavailable
  | writeTimeout
  | readTimeout
  | partialFrame
  | malformedFrame
  | oversizedFrame
  | unexpectedFrame
deriving DecidableEq, Repr

structure Frame where
  kind : FrameKind
  payload : Payload
  length : ℕ
deriving DecidableEq

/-! ## The checksum -/

/-- The body of the bit loop of `updateChecksum`. -/
def shiftChecksum (checksum : UInt16) : UInt16 :=
  if checksum &&& 0x8000 ≠ 0 then checksum <<< 1 ^^^ 0x1021 else checksum <<< 1

def updateChecksum (checksum : UInt16) (value : UInt8) : UInt16 :=
  shiftChecksum^[8] (checksum ^^^ value.toUInt16 <<< 8)

/-! ## Encoding -/

/-- The six stores of the header. -/
def putHeader (kind : FrameKind) (payloadLen : ℕ) (output : FrameBuffer) : FrameBuffer :=
  (((((output.set! 0 frameMagicFirst).set! 1 frameMagicSecond).set! 2 frameVersion).set! 3
    kind.code).set! 4 (UInt8.ofNat (payloadLen >>> 8))).set! 5 (UInt8.ofNat payloadLen)

/-- The checksum loop over `output[2..frameHeaderSize)`. -/
def headerChecksum (output : FrameBuffer) : UInt16 :=
  (List.range' 2 4).foldl (fun checksum i => updateChecksum checksum output[i]!) 0xFFFF

/-- The loop that copies the payload and adds it to the checksum. -/
def copyPayload (payload : Payload) (payloadLen : ℕ) (output : FrameBuffer) (checksum : UInt16) :
    FrameBuffer × UInt16 :=
  (List.range payloadLen).foldl
    (fun s i => (s.1.set! (frameHeaderSize + i) payload[i]!, updateChecksum s.2 payload[i]!))
    (output, checksum)

/-- `Encode`: the length and the result that are returned, and the output buffer afterwards. -/
def encode (kind : FrameKind) (payload : Option Payload) (payloadLen : ℤ)
    (output : Option FrameBuffer) : (ℕ × Result) × Option FrameBuffer :=
  match output with
  | none => ((0, .invalidPayload), none)
  | some buffer =>
    if payloadLen < 0 ∨ payload = none ∧ payloadLen ≠ 0 then
      ((0, .invalidPayload), some buffer)
    else if ¬ kind.valid then
      ((0, .malformedFrame), some buffer)
    else if payloadLen > maxPayload ∨ payloadLen > kind.maxPayload then
      ((0, .oversizedFrame), some buffer)
    else
      let n := payloadLen.toNat
      let header := putHeader kind n buffer
      -- a `nil` payload comes with length zero, so that the loop never reads it
      let (body, checksum) := copyPayload (payload.getD (Vector.replicate _ 0)) n header
        (headerChecksum header)
      let checksumOffset := frameHeaderSize + n
      ((checksumOffset + frameTrailerSize, .ok),
        some ((body.set! checksumOffset (checksum >>> 8).toUInt8).set! (checksumOffset + 1)
          checksum.toUInt8))

/-- The bytes `Encode` produces: the written part of its output buffer, empty on an error. -/
def encodeBytes (kind : FrameKind) (payload : Option Payload) (payloadLen : ℤ)
    (output : FrameBuffer) : List UInt8 :=
  match encode kind payload payloadLen (some output) with
  | ((frameLen, _), some buffer) => buffer.toList.take frameLen
  | _ => []

/-! ## Decoding -/

inductive DecodeState
  | magicFirst
  | magicSecond
  | version
  | kind
  | lengthHigh
  | lengthLow
  | payload
  | checksumHigh
  | checksumLow
deriving DecidableEq, Repr

/-- The state is only ever assigned one of the nine constants, which leaves the `default` arm of
the source's `switch` without a value to match. -/
structure Decoder where
  frame : Frame
  state : DecodeState
  checksum : UInt16
  receivedCRC : UInt16
  payloadRead : ℕ
deriving DecidableEq

namespace Decoder

/-- The zero value of the type, as `responseDecoder` is declared. -/
def zero : Decoder where
  frame := ⟨⟨0⟩, Vector.replicate _ 0, 0⟩
  state := .magicFirst
  checksum := 0
  receivedCRC := 0
  payloadRead := 0

/-- `Reset` leaves the payload bytes of the previous frame in place. -/
def reset (d : Decoder) : Decoder where
  frame := ⟨⟨0⟩, d.frame.payload, 0⟩
  state := .magicFirst
  checksum := 0xFFFF
  receivedCRC := 0
  payloadRead := 0

def push (d : Decoder) (value : UInt8) : Decoder × Result :=
  match d.state with
  | .magicFirst =>
    if value ≠ frameMagicFirst then (d.reset, .malformedFrame)
    else ({ d with state := .magicSecond }, .needMore)
  | .magicSecond =>
    if value ≠ frameMagicSecond then (d.reset, .malformedFrame)
    else ({ d with state := .version }, .needMore)
  | .version =>
    if value ≠ frameVersion then (d.reset, .malformedFrame)
    else ({ d with checksum := updateChecksum d.checksum value, state := .kind }, .needMore)
  | .kind =>
    let d := { d with frame.kind := ⟨value⟩ }
    if ¬ d.frame.kind.valid then (d.reset, .malformedFrame)
    else ({ d with checksum := updateChecksum d.checksum value, state := .lengthHigh }, .needMore)
  | .lengthHigh =>
    ({ d with frame.length := value.toNat <<< 8, checksum := updateChecksum d.checksum value,
              state := .lengthLow }, .needMore)
  | .lengthLow =>
    let d := { d with frame.length := d.frame.length ||| value.toNat,
                      checksum := updateChecksum d.checksum value }
    if d.frame.length > d.frame.kind.maxPayload then (d.reset, .oversizedFrame)
    else if d.frame.length = 0 then ({ d with state := .checksumHigh }, .needMore)
    else ({ d with state := .payload }, .needMore)
  | .payload =>
    let d := { d with frame.payload := d.frame.payload.set! d.payloadRead value,
                      payloadRead := d.payloadRead + 1,
                      checksum := updateChecksum d.checksum value }
    if d.payloadRead = d.frame.length then ({ d with state := .checksumHigh }, .needMore)
    else (d, .needMore)
  | .checksumHigh =>
    ({ d with receivedCRC := value.toUInt16 <<< 8, state := .checksumLow }, .needMore)
  | .checksumLow =>
    let d := { d with receivedCRC := d.receivedCRC ||| value.toUInt16 }
    if d.receivedCRC ≠ d.checksum then (d.reset, .malformedFrame)
    else (d, .ok)

/-- Pushing bytes one by one up to the first result other than `ResultNeedMore`: the decoder, the
last result and the bytes that were not pushed. -/
def feed (d : Decoder) : List UInt8 → Decoder × Result × List UInt8
  | [] => (d, .needMore, [])
  | value :: rest =>
    match d.push value with
    | (d', .needMore) => feed d' rest
    | (d', result) => (d', result, rest)

/-- The decoders that some history of `Push` and `Reset` leaves. -/
inductive Reachable : Decoder → Prop
  | zero : Reachable zero
  | reset {d : Decoder} : Reachable d → Reachable d.reset
  | push {d : Decoder} (value : UInt8) : Reachable d → Reachable (d.push value).1

end Decoder

end DavOS.Serial
