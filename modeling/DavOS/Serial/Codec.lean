import DavOS.Lib.CopyLoop
import DavOS.Serial.Frame
import Mathlib.Tactic.Linarith

/-!
# The DV/1 codec

`wire kind payload` is the frame as a byte string, in the terms of the wire format: magic, header,
payload, checksum of everything after the magic. `encode` writes exactly this string
(`encodeBytes_eq_wire`), and a decoder that was reset accepts exactly these strings
(`feed_eq_ok_iff`), whatever it held before.

The decoder is taken apart from its last state to its first. Each `feed_*` lemma says which byte
strings lead from one state to `ResultOK`, and what the decoder then holds; the lemma of a state
only uses the one of the state after it.
-/

namespace DavOS.Serial

open CopyLoop (take_set!_succ)

/-- The checksum of a byte string, from the initial value that both sides use. -/
def checksumOf (bytes : List UInt8) : UInt16 := bytes.foldl updateChecksum 0xFFFF

/-- A checksum in network byte order. -/
def checksumBytes (checksum : UInt16) : List UInt8 := [(checksum >>> 8).toUInt8, checksum.toUInt8]

/-- The part of a frame that the checksum covers. -/
def covered (kind : FrameKind) (payload : List UInt8) : List UInt8 :=
  frameVersion :: kind.code :: UInt8.ofNat (payload.length >>> 8) :: UInt8.ofNat payload.length ::
    payload

/-- One frame on the wire. -/
def wire (kind : FrameKind) (payload : List UInt8) : List UInt8 :=
  frameMagicFirst :: frameMagicSecond ::
    (covered kind payload ++ checksumBytes (checksumOf (covered kind payload)))

@[simp] theorem length_checksumBytes (checksum : UInt16) :
    (checksumBytes checksum).length = 2 := rfl

@[simp] theorem length_covered (kind : FrameKind) (payload : List UInt8) :
    (covered kind payload).length = payload.length + 4 := rfl

@[simp] theorem length_wire (kind : FrameKind) (payload : List UInt8) :
    (wire kind payload).length = payload.length + 8 := by
  simp [wire]

/-- No kind of frame has a larger payload than a request. -/
theorem FrameKind.maxPayload_le (kind : FrameKind) : kind.maxPayload ≤ maxRequestPayload := by
  unfold FrameKind.maxPayload
  split <;> decide

/-! ## Encoding -/

/-- The header has its six bytes, whatever the buffer held. -/
private theorem putHeader_take (kind : FrameKind) (n : ℕ) (buffer : FrameBuffer) :
    (putHeader kind n buffer).toList.take frameHeaderSize =
      [frameMagicFirst, frameMagicSecond, frameVersion, kind.code, UInt8.ofNat (n >>> 8),
        UInt8.ofNat n] := by
  unfold putHeader
  rw [take_set!_succ _ (by decide), take_set!_succ _ (by decide), take_set!_succ _ (by decide),
    take_set!_succ _ (by decide), take_set!_succ _ (by decide), take_set!_succ _ (by decide)]
  rfl

/-- A byte of the header, read back from the buffer. -/
theorem getElem!_of_take {buffer : FrameBuffer} {l : List UInt8} {n i : ℕ}
    (h : buffer.toList.take n = l) (hi : i < n) (hn : n ≤ maxFrameSize) :
    buffer[i]! = l[i]! := by
  subst h
  have hin : i < maxFrameSize := by omega
  simp [getElem!_pos, hin, hi]

/-- The checksum covers the header from the version on. -/
private theorem headerChecksum_putHeader (kind : FrameKind) (n : ℕ) (buffer : FrameBuffer) :
    headerChecksum (putHeader kind n buffer) =
      checksumOf [frameVersion, kind.code, UInt8.ofNat (n >>> 8), UInt8.ofNat n] := by
  have h := putHeader_take kind n buffer
  have hread := fun i (hi : i < frameHeaderSize) => getElem!_of_take h hi (by decide)
  simp only [headerChecksum, List.range', List.foldl_cons, List.foldl_nil, hread 2 (by decide),
    hread 3 (by decide), hread 4 (by decide), hread 5 (by decide)]
  rfl

/-- The copy loop extends the written part by the payload, and the checksum with it. -/
private theorem copyPayload_spec (payload : Payload) {n : ℕ} (hn : n ≤ maxPayload)
    (buffer : FrameBuffer) (checksum : UInt16) :
    (copyPayload payload n buffer checksum).1.toList.take (frameHeaderSize + n) =
        buffer.toList.take frameHeaderSize ++ payload.toList.take n ∧
      (copyPayload payload n buffer checksum).2 =
        (payload.toList.take n).foldl updateChecksum checksum := by
  induction n with
  | zero => simp [copyPayload]
  | succ n ih =>
    obtain ⟨hbuf, hsum⟩ := ih (by omega)
    have hn' : n < maxPayload := by omega
    have htake : payload.toList.take (n + 1) = payload.toList.take n ++ [payload[n]!] := by
      rw [List.take_succ_eq_append_getElem (by simpa using hn')]
      simp [getElem!_pos, hn']
    have hstep : copyPayload payload (n + 1) buffer checksum =
        ((copyPayload payload n buffer checksum).1.set! (frameHeaderSize + n) payload[n]!,
          updateChecksum (copyPayload payload n buffer checksum).2 payload[n]!) := by
      simp only [copyPayload, List.range_succ, List.foldl_append, List.foldl_cons, List.foldl_nil]
    rw [hstep, htake, ← Nat.add_assoc,
      take_set!_succ _ (by simp only [maxPayload, maxFrameSize, frameHeaderSize] at *; omega), hbuf,
      hsum, List.foldl_append]
    exact ⟨by simp, rfl⟩

/-- The payload bytes that `Encode` reads. -/
def payloadBytes (payload : Option Payload) (n : ℕ) : List UInt8 :=
  (payload.getD (Vector.replicate _ 0)).toList.take n

/-- The payload has the length that is passed. -/
theorem length_payloadBytes (payload : Option Payload) {n : ℕ} (hn : n ≤ maxPayload) :
    (payloadBytes payload n).length = n := by
  simp [payloadBytes, min_eq_left hn]

/-- **What `Encode` writes.** With a valid kind and a length in bounds it succeeds, and the written
part of the buffer is the frame on the wire. -/
theorem encode_eq_ok {kind : FrameKind} (hkind : kind.valid) (payload : Option Payload) {n : ℕ}
    (hnil : payload = none → n = 0) (hn : n ≤ kind.maxPayload) (output : FrameBuffer) :
    ∃ buffer : FrameBuffer,
      encode kind payload n (some output) = ((n + 8, .ok), some buffer) ∧
        buffer.toList.take (n + 8) = wire kind (payloadBytes payload n) := by
  have hmax : n ≤ maxPayload := hn.trans kind.maxPayload_le
  have hsmall : ¬ ((n : ℤ) < 0 ∨ payload = none ∧ (n : ℤ) ≠ 0) := by
    rintro (h | ⟨h, h0⟩)
    · omega
    · exact h0 (by rw [hnil h]; rfl)
  have hlarge : ¬ ((n : ℤ) > (maxPayload : ℕ) ∨ (n : ℤ) > (kind.maxPayload : ℕ)) := by omega
  obtain ⟨hbuf, hsum⟩ := copyPayload_spec (payload.getD (Vector.replicate _ 0)) hmax
    (putHeader kind n output) (headerChecksum (putHeader kind n output))
  unfold encode
  simp only [hsmall, if_false, hkind, not_true, hlarge, Int.toNat_natCast]
  have hlen : n + 8 = frameHeaderSize + n + 1 + 1 := by
    simp only [frameHeaderSize]
    omega
  have hroom : frameHeaderSize + n + 1 < maxFrameSize := by
    simp only [maxFrameSize, maxPayload, maxRequestPayload, frameHeaderSize, frameTrailerSize] at *
    omega
  refine ⟨_, Prod.ext (Prod.ext hlen.symm rfl) rfl, ?_⟩
  rw [hlen, take_set!_succ _ hroom, take_set!_succ _ (by omega), hbuf, hsum, putHeader_take,
    headerChecksum_putHeader]
  simp [wire, covered, checksumBytes, checksumOf, payloadBytes, min_eq_left hmax]

/-- What the encoder writes is the frame on the wire. -/
theorem encodeBytes_eq_wire {kind : FrameKind} (hkind : kind.valid) (payload : Option Payload)
    {n : ℕ} (hnil : payload = none → n = 0) (hn : n ≤ kind.maxPayload) (output : FrameBuffer) :
    encodeBytes kind payload n output = wire kind (payloadBytes payload n) := by
  obtain ⟨buffer, henc, htake⟩ := encode_eq_ok hkind payload hnil hn output
  rw [encodeBytes, henc]
  exact htake

/-! ## Decoding -/

/-- Two bytes are the big-endian digits of a number below `2 ^ 16`. -/
private theorem shiftLeft_or_eq_iff {hi lo : UInt8} {n : ℕ} (hn : n < 65536) :
    hi.toNat <<< 8 ||| lo.toNat = n ↔ hi = UInt8.ofNat (n >>> 8) ∧ lo = UInt8.ofNat n := by
  have hlo := lo.toNat_lt
  have hhi := hi.toNat_lt
  rw [← Nat.shiftLeft_add_eq_or_of_lt hlo, Nat.shiftLeft_eq, Nat.shiftRight_eq_div_pow,
    ← UInt8.toNat_inj, ← UInt8.toNat_inj, UInt8.toNat_ofNat', UInt8.toNat_ofNat']
  omega

/-- The decoder compares both bytes of the checksum. -/
private theorem shiftLeft_or_eq_checksum_iff {hi lo : UInt8} {c : UInt16} :
    hi.toUInt16 <<< 8 ||| lo.toUInt16 = c ↔ hi = (c >>> 8).toUInt8 ∧ lo = c.toUInt8 := by
  have hc := c.toNat_lt
  have hhi := hi.toNat_lt
  have hleft : (hi.toUInt16 <<< 8 ||| lo.toUInt16).toNat = hi.toNat <<< 8 ||| lo.toNat := by
    rw [UInt16.toNat_or, UInt16.toNat_shiftLeft, UInt8.toNat_toUInt16, UInt8.toNat_toUInt16]
    rw [Nat.mod_eq_of_lt]
    · rfl
    · have h8 : UInt16.toNat 8 % 16 = 8 := rfl
      rw [h8, Nat.shiftLeft_eq]
      omega
  rw [← UInt16.toNat_inj, hleft, shiftLeft_or_eq_iff hc, ← UInt8.toNat_inj, ← UInt8.toNat_inj,
    ← UInt8.toNat_inj, ← UInt8.toNat_inj]
  simp [UInt8.toNat_ofNat']

namespace Decoder

/-- The payload after the bytes `p` were stored from index `i` on. -/
def storeFrom (payload : Payload) (i : ℕ) : List UInt8 → Payload
  | [] => payload
  | value :: p => storeFrom (payload.set! i value) (i + 1) p

/-- A decoder whose fields are those that `Reset` leaves. -/
def Idle (d : Decoder) : Prop := d.reset = d

/-- What a decoder holds that accepted the frame `wire kind p`. -/
def accepted (d : Decoder) (kind : FrameKind) (p : List UInt8) : Decoder where
  frame := ⟨kind, storeFrom d.frame.payload 0 p, p.length⟩
  state := .checksumLow
  checksum := checksumOf (covered kind p)
  receivedCRC := checksumOf (covered kind p)
  payloadRead := p.length

/-- A decoder accepts by its last byte, or accepts after one more `ResultNeedMore`. -/
theorem feed_eq_ok_iff_push {d d' : Decoder} {bytes rest : List UInt8} :
    d.feed bytes = (d', .ok, rest) ↔ ∃ value bs, bytes = value :: bs ∧
      ((∃ d₁, d.push value = (d₁, .needMore) ∧ d₁.feed bs = (d', .ok, rest)) ∨
        d.push value = (d', .ok) ∧ bs = rest) := by
  cases bytes with
  | nil => simp [feed]
  | cons value bs =>
    rcases hpush : d.push value with ⟨d₁, result⟩
    cases result <;> simp [feed, hpush]

/-- A decoder in this state accepts exactly the low byte of the checksum. -/
theorem feed_checksumLow {frame : Frame} {checksum crc : UInt16} {n : ℕ} {d' : Decoder}
    {bytes rest : List UInt8} :
    feed ⟨frame, .checksumLow, checksum, crc, n⟩ bytes = (d', .ok, rest) ↔
      ∃ low : UInt8, bytes = low :: rest ∧ crc ||| low.toUInt16 = checksum ∧
        d' = ⟨frame, .checksumLow, checksum, checksum, n⟩ := by
  rw [feed_eq_ok_iff_push]
  constructor
  · rintro ⟨low, bs, rfl, hpush⟩
    by_cases hcrc : crc ||| low.toUInt16 = checksum
    · simp only [push, hcrc, ne_eq, not_true, if_false, Prod.mk.injEq, reduceCtorEq, and_false,
        false_and, exists_false, and_true, false_or] at hpush
      exact ⟨low, by rw [hpush.2], hcrc, hpush.1.symm⟩
    · simp [push, hcrc] at hpush
  · rintro ⟨low, rfl, hcrc, rfl⟩
    exact ⟨low, rest, rfl, Or.inr ⟨by simp [push, hcrc], rfl⟩⟩

/-- One byte earlier, it accepts exactly the two bytes of the checksum. -/
theorem feed_checksumHigh {frame : Frame} {checksum crc : UInt16} {n : ℕ} {d' : Decoder}
    {bytes rest : List UInt8} :
    feed ⟨frame, .checksumHigh, checksum, crc, n⟩ bytes = (d', .ok, rest) ↔
      bytes = checksumBytes checksum ++ rest ∧
        d' = ⟨frame, .checksumLow, checksum, checksum, n⟩ := by
  rw [feed_eq_ok_iff_push]
  simp only [push, Prod.mk.injEq, reduceCtorEq, and_false, false_and, or_false, and_true,
    exists_eq_left']
  constructor
  · rintro ⟨high, bs, rfl, hfeed⟩
    obtain ⟨low, rfl, hcrc, rfl⟩ := feed_checksumLow.mp hfeed
    obtain ⟨rfl, rfl⟩ := shiftLeft_or_eq_checksum_iff.mp hcrc
    exact ⟨rfl, rfl⟩
  · rintro ⟨rfl, rfl⟩
    exact ⟨_, _, rfl, feed_checksumLow.mpr
      ⟨_, rfl, shiftLeft_or_eq_checksum_iff.mpr ⟨rfl, rfl⟩, rfl⟩⟩

/-- The payload state takes the missing bytes of the payload and then the checksum of all of it. -/
theorem feed_payload {kind : FrameKind} {payload : Payload} {checksum crc : UInt16}
    {length n : ℕ} (hn : n < length) {d' : Decoder} {bytes rest : List UInt8} :
    feed ⟨⟨kind, payload, length⟩, .payload, checksum, crc, n⟩ bytes = (d', .ok, rest) ↔
      ∃ p : List UInt8, n + p.length = length ∧
        bytes = p ++ (checksumBytes (p.foldl updateChecksum checksum) ++ rest) ∧
          d' = ⟨⟨kind, storeFrom payload n p, length⟩, .checksumLow,
            p.foldl updateChecksum checksum, p.foldl updateChecksum checksum, length⟩ := by
  -- on the number of payload bytes still missing
  obtain ⟨k, rfl⟩ : ∃ k, length = n + (k + 1) := ⟨length - n - 1, by omega⟩
  induction k generalizing payload checksum n bytes with
  | zero =>
    rw [feed_eq_ok_iff_push]
    simp only [push, zero_add, if_true, Prod.mk.injEq, reduceCtorEq, and_false, false_and,
      or_false, and_true, exists_eq_left']
    constructor
    · rintro ⟨value, bs, rfl, hfeed⟩
      obtain ⟨rfl, rfl⟩ := feed_checksumHigh.mp hfeed
      exact ⟨[value], rfl, rfl, rfl⟩
    · rintro ⟨p, hp, rfl, rfl⟩
      obtain ⟨value, rfl⟩ := List.length_eq_one_iff.mp (by omega : p.length = 1)
      exact ⟨value, _, rfl, feed_checksumHigh.mpr ⟨rfl, rfl⟩⟩
  | succ k ih =>
    rw [feed_eq_ok_iff_push]
    have hne : ¬ n + 1 = n + (k + 1 + 1) := by omega
    have hlen : n + (k + 1 + 1) = n + 1 + (k + 1) := by omega
    simp only [push, hne, if_false, Prod.mk.injEq, reduceCtorEq, and_false, false_and, or_false,
      and_true, exists_eq_left']
    rw [hlen]
    constructor
    · rintro ⟨value, bs, rfl, hfeed⟩
      obtain ⟨p, hp, rfl, rfl⟩ := (ih (by omega)).mp hfeed
      refine ⟨value :: p, ?_, rfl, rfl⟩
      rw [List.length_cons]
      omega
    · rintro ⟨p, hp, rfl, rfl⟩
      match p, hp with
      | [], hp =>
        rw [List.length_nil] at hp
        omega
      | value :: p, hp =>
        rw [List.length_cons] at hp
        exact ⟨value, _, rfl, (ih (by omega)).mpr ⟨p, by omega, rfl, rfl⟩⟩

/-- At the length it accepts one that is allowed, as many bytes of payload, and their checksum. -/
theorem feed_lengthLow {kind : FrameKind} {payload : Payload} {checksum crc : UInt16}
    {high : UInt8} {d' : Decoder} {bytes rest : List UInt8} :
    feed ⟨⟨kind, payload, high.toNat <<< 8⟩, .lengthLow, checksum, crc, 0⟩ bytes =
        (d', .ok, rest) ↔
      ∃ (low : UInt8) (p : List UInt8), p.length ≤ kind.maxPayload ∧
        high.toNat <<< 8 ||| low.toNat = p.length ∧
        bytes = low :: (p ++ (checksumBytes
          (p.foldl updateChecksum (updateChecksum checksum low)) ++ rest)) ∧
        d' = ⟨⟨kind, storeFrom payload 0 p, p.length⟩, .checksumLow,
          p.foldl updateChecksum (updateChecksum checksum low),
          p.foldl updateChecksum (updateChecksum checksum low), p.length⟩ := by
  rw [feed_eq_ok_iff_push]
  constructor
  · rintro ⟨low, bs, rfl, hpush⟩
    by_cases hmax : high.toNat <<< 8 ||| low.toNat > kind.maxPayload
    · simp [push, hmax] at hpush
    by_cases hzero : high.toNat <<< 8 ||| low.toNat = 0
    · -- the shortcut past the payload
      simp only [push, hzero, gt_iff_lt, Nat.not_lt_zero, if_false, if_true, Prod.mk.injEq,
        reduceCtorEq, and_false, false_and, or_false, and_true, exists_eq_left'] at hpush
      obtain ⟨rfl, rfl⟩ := feed_checksumHigh.mp hpush
      exact ⟨low, [], Nat.zero_le _, hzero, rfl, rfl⟩
    · simp only [push, hmax, hzero, if_false, Prod.mk.injEq, reduceCtorEq, and_false, false_and,
        or_false, and_true, exists_eq_left'] at hpush
      obtain ⟨p, hp, rfl, rfl⟩ := (feed_payload (Nat.pos_of_ne_zero hzero)).mp hpush
      rw [Nat.zero_add] at hp
      exact ⟨low, p, by omega, hp.symm, rfl, by rw [hp]⟩
  · rintro ⟨low, p, hmax, hlen, rfl, rfl⟩
    refine ⟨low, _, rfl, Or.inl ?_⟩
    simp only [push, hlen, not_lt.mpr hmax, if_false]
    by_cases hzero : p.length = 0
    · obtain rfl := List.length_eq_zero_iff.mp hzero
      exact ⟨_, rfl, feed_checksumHigh.mpr ⟨rfl, rfl⟩⟩
    · rw [if_neg hzero]
      exact ⟨_, rfl, (feed_payload (Nat.pos_of_ne_zero hzero)).mpr
        ⟨p, Nat.zero_add _, rfl, rfl⟩⟩

/-- From the length on, the bytes are the length of some payload that the kind admits, the payload
itself and the checksum. -/
theorem feed_lengthHigh {kind : FrameKind} {payload : Payload} {checksum crc : UInt16}
    {length : ℕ} {d' : Decoder} {bytes rest : List UInt8} :
    feed ⟨⟨kind, payload, length⟩, .lengthHigh, checksum, crc, 0⟩ bytes = (d', .ok, rest) ↔
      ∃ p : List UInt8, p.length ≤ kind.maxPayload ∧
        let tail := UInt8.ofNat (p.length >>> 8) :: UInt8.ofNat p.length :: p
        bytes = tail ++ (checksumBytes (tail.foldl updateChecksum checksum) ++ rest) ∧
          d' = ⟨⟨kind, storeFrom payload 0 p, p.length⟩, .checksumLow,
            tail.foldl updateChecksum checksum, tail.foldl updateChecksum checksum,
            p.length⟩ := by
  rw [feed_eq_ok_iff_push]
  simp only [push, Prod.mk.injEq, reduceCtorEq, and_false, false_and, or_false, and_true,
    exists_eq_left']
  have hsmall : ∀ p : List UInt8, p.length ≤ kind.maxPayload → p.length < 65536 := by
    intro p hp
    exact lt_of_le_of_lt (hp.trans kind.maxPayload_le) (by decide)
  constructor
  · rintro ⟨high, bs, rfl, hfeed⟩
    obtain ⟨low, p, hmax, hlen, rfl, rfl⟩ := feed_lengthLow.mp hfeed
    obtain ⟨rfl, rfl⟩ := (shiftLeft_or_eq_iff (hsmall p hmax)).mp hlen
    exact ⟨p, hmax, rfl, rfl⟩
  · rintro ⟨p, hmax, rfl, rfl⟩
    exact ⟨_, _, rfl, feed_lengthLow.mpr
      ⟨_, p, hmax, (shiftLeft_or_eq_iff (hsmall p hmax)).mpr ⟨rfl, rfl⟩, rfl, rfl⟩⟩

/-- A state that refuses every byte but one. -/
theorem feed_expect {d d₁ d' : Decoder} {expected : UInt8}
    (hok : d.push expected = (d₁, .needMore))
    (hbad : ∀ value ≠ expected, (d.push value).2 = .malformedFrame) {bytes rest : List UInt8} :
    d.feed bytes = (d', .ok, rest) ↔
      ∃ bs, bytes = expected :: bs ∧ d₁.feed bs = (d', .ok, rest) := by
  rw [feed_eq_ok_iff_push]
  constructor
  · rintro ⟨value, bs, rfl, hpush⟩
    by_cases hvalue : value = expected
    · subst hvalue
      simp only [hok, Prod.mk.injEq, reduceCtorEq, and_false, false_and, or_false, and_true,
        exists_eq_left'] at hpush
      exact ⟨bs, rfl, hpush⟩
    · have hres := hbad value hvalue
      rcases hpush with ⟨_, hpush, -⟩ | ⟨hpush, -⟩ <;> simp [hpush] at hres
  · rintro ⟨bs, rfl, hfeed⟩
    exact ⟨expected, bs, rfl, Or.inl ⟨d₁, hok, hfeed⟩⟩

/-- The first byte is the first magic one. -/
theorem feed_magicFirst {frame : Frame} {checksum crc : UInt16} {n : ℕ} {d' : Decoder}
    {bytes rest : List UInt8} :
    feed ⟨frame, .magicFirst, checksum, crc, n⟩ bytes = (d', .ok, rest) ↔
      ∃ bs, bytes = frameMagicFirst :: bs ∧
        feed ⟨frame, .magicSecond, checksum, crc, n⟩ bs = (d', .ok, rest) :=
  feed_expect rfl fun value hvalue => by simp [push, hvalue]

/-- The second byte is the second magic one. -/
theorem feed_magicSecond {frame : Frame} {checksum crc : UInt16} {n : ℕ} {d' : Decoder}
    {bytes rest : List UInt8} :
    feed ⟨frame, .magicSecond, checksum, crc, n⟩ bytes = (d', .ok, rest) ↔
      ∃ bs, bytes = frameMagicSecond :: bs ∧
        feed ⟨frame, .version, checksum, crc, n⟩ bs = (d', .ok, rest) :=
  feed_expect rfl fun value hvalue => by simp [push, hvalue]

/-- The third byte is the version. -/
theorem feed_version {frame : Frame} {checksum crc : UInt16} {n : ℕ} {d' : Decoder}
    {bytes rest : List UInt8} :
    feed ⟨frame, .version, checksum, crc, n⟩ bytes = (d', .ok, rest) ↔
      ∃ bs, bytes = frameVersion :: bs ∧
        feed ⟨frame, .kind, updateChecksum checksum frameVersion, crc, n⟩ bs = (d', .ok, rest) :=
  feed_expect rfl fun value hvalue => by simp [push, hvalue]

/-- The fourth byte is the code of a kind. -/
theorem feed_kind {kind₀ : FrameKind} {payload : Payload} {checksum crc : UInt16} {length : ℕ}
    {d' : Decoder} {bytes rest : List UInt8} :
    feed ⟨⟨kind₀, payload, length⟩, .kind, checksum, crc, 0⟩ bytes = (d', .ok, rest) ↔
      ∃ (kind : FrameKind) (bs : List UInt8), kind.valid ∧ bytes = kind.code :: bs ∧
        feed ⟨⟨kind, payload, length⟩, .lengthHigh, updateChecksum checksum kind.code, crc, 0⟩ bs =
          (d', .ok, rest) := by
  rw [feed_eq_ok_iff_push]
  constructor
  · rintro ⟨value, bs, rfl, hpush⟩
    by_cases hkind : (FrameKind.mk value).valid
    · simp only [push, hkind, not_true, if_false, Prod.mk.injEq, reduceCtorEq, and_false,
        false_and, or_false, and_true, exists_eq_left'] at hpush
      exact ⟨⟨value⟩, bs, hkind, rfl, hpush⟩
    · simp [push, hkind] at hpush
  · rintro ⟨kind, bs, hkind, rfl, hfeed⟩
    exact ⟨kind.code, bs, rfl, Or.inl ⟨_, by simp [push, hkind], hfeed⟩⟩

/-- **The decoder accepts exactly the frames on the wire.** A decoder that was reset ends in
`ResultOK` on a byte string exactly when this starts with the frame of a valid kind and a payload
within the limit of the kind; it has then read that frame and nothing more. -/
theorem feed_eq_ok_iff {d d' : Decoder} (hd : d.Idle) {bytes rest : List UInt8} :
    d.feed bytes = (d', .ok, rest) ↔ ∃ (kind : FrameKind) (p : List UInt8),
      kind.valid ∧ p.length ≤ kind.maxPayload ∧ bytes = wire kind p ++ rest ∧
        d' = d.accepted kind p := by
  rw [← hd]
  simp only [reset, feed_magicFirst, feed_magicSecond, feed_version, feed_kind, feed_lengthHigh]
  constructor
  · rintro ⟨_, rfl, _, rfl, _, rfl, kind, _, hkind, rfl, p, hp, rfl, rfl⟩
    exact ⟨kind, p, hkind, hp, by simp [wire, covered, checksumOf],
      by simp [accepted, covered, checksumOf]⟩
  · rintro ⟨kind, p, hkind, hp, rfl, rfl⟩
    exact ⟨_, rfl, _, rfl, _, rfl, kind, _, hkind, rfl, p, hp,
      by simp [covered, checksumOf], by simp [accepted, covered, checksumOf]⟩

/-! ## Histories -/

@[simp] theorem idle_reset (d : Decoder) : d.reset.Idle := rfl

/-- A `Push` that returns neither `ResultOK` nor `ResultNeedMore` has reset the decoder. -/
theorem push_cases (d : Decoder) (value : UInt8) :
    (d.push value).2 = .ok ∨ (d.push value).2 = .needMore ∨ (d.push value).1.Idle := by
  rcases d with ⟨frame, state, checksum, crc, n⟩
  cases state <;> simp only [push] <;> (repeat' split) <;> simp

/-- The decoders an exchange may start from: some history of `Push` and `Reset`, and then a `Reset`
or a `Push` that returned an error. -/
inductive Cleared : Decoder → Prop
  | reset {d : Decoder} : Reachable d → Cleared d.reset
  | error {d : Decoder} (value : UInt8) : Reachable d → (d.push value).2 ≠ .ok →
      (d.push value).2 ≠ .needMore → Cleared (d.push value).1

/-- A cleared decoder is idle. -/
theorem Cleared.idle {d : Decoder} (hd : d.Cleared) : d.Idle := by
  cases hd with
  | reset _ => exact idle_reset _
  | error value _ hok hmore => exact ((push_cases _ value).resolve_left hok).resolve_left hmore

/-- An idle decoder accepts the wire form of a frame and leaves what follows. -/
theorem feed_wire {d : Decoder} (hd : d.Idle) {kind : FrameKind} (hkind : kind.valid)
    {p : List UInt8} (hp : p.length ≤ kind.maxPayload) (rest : List UInt8) :
    d.feed (wire kind p ++ rest) = (d.accepted kind p, .ok, rest) :=
  (feed_eq_ok_iff hd).mpr ⟨kind, p, hkind, hp, rfl, rfl⟩

/-- Bytes that left the decoder waiting can be fed first. -/
theorem feed_append {d d' : Decoder} {bytes more : List UInt8}
    (h : d.feed bytes = (d', .needMore, [])) : d.feed (bytes ++ more) = d'.feed more := by
  induction bytes generalizing d with
  | nil =>
    simp only [feed, Prod.mk.injEq, and_true] at h
    rw [h, List.nil_append]
  | cons value bytes ih =>
    rw [List.cons_append]
    simp only [feed] at h ⊢
    split at h
    · exact ih h
    · rename_i hmore _
      simp only [Prod.mk.injEq] at h
      exact absurd h.2.1 hmore

/-- A decoder that stops at the last byte has answered `ResultNeedMore` to all bytes before. -/
theorem feed_take_eq_needMore {d d' : Decoder} {bytes : List UInt8} {result : Result}
    (h : d.feed bytes = (d', result, [])) {k : ℕ} (hk : k < bytes.length) :
    (d.feed (bytes.take k)).2.1 = .needMore := by
  induction bytes generalizing d k with
  | nil => simp at hk
  | cons value bytes ih =>
    match k with
    | 0 => rfl
    | k + 1 =>
      rw [List.length_cons, Nat.succ_lt_succ_iff] at hk
      rcases hpush : d.push value with ⟨d₁, r⟩
      cases r with
      | needMore =>
        simp only [feed, hpush, List.take_succ_cons] at h ⊢
        exact ih h hk
      | _ =>
        -- any other result leaves the bytes after `value` unread
        simp only [feed, hpush, Prod.mk.injEq] at h
        simp [h.2.2] at hk

/-- Storing keeps the bytes before, and puts the stored ones behind them. -/
theorem storeFrom_take (payload : Payload) (i : ℕ) (p : List UInt8)
    (h : i + p.length ≤ maxPayload) :
    (storeFrom payload i p).toList.take (i + p.length) = payload.toList.take i ++ p := by
  induction p generalizing payload i with
  | nil => simp [storeFrom]
  | cons value p ih =>
    rw [List.length_cons] at h ⊢
    rw [storeFrom, show i + (p.length + 1) = i + 1 + p.length by omega, ih _ _ (by omega),
      take_set!_succ _ (by omega), List.append_assoc, List.singleton_append]

/-- The payload of an accepted frame. -/
theorem accepted_take {d : Decoder} {kind : FrameKind} {p : List UInt8}
    (hp : p.length ≤ kind.maxPayload) :
    (d.accepted kind p).frame.payload.toList.take p.length = p := by
  have h := storeFrom_take d.frame.payload 0 p
    (by rw [Nat.zero_add]; exact hp.trans kind.maxPayload_le)
  rwa [Nat.zero_add, List.take_zero, List.nil_append] at h

end Decoder

/-- A stream of bytes starts with at most one frame. -/
theorem wire_append_inj {kind kind' : FrameKind} {p p' rest rest' : List UInt8}
    (hkind : kind.valid) (hkind' : kind'.valid) (hp : p.length ≤ kind.maxPayload)
    (hp' : p'.length ≤ kind'.maxPayload) (h : wire kind p ++ rest = wire kind' p' ++ rest') :
    kind = kind' ∧ p = p' ∧ rest = rest' := by
  have hidle := Decoder.idle_reset .zero
  have hfeed := Decoder.feed_wire hidle hkind hp rest
  rw [h, Decoder.feed_wire hidle hkind' hp' rest'] at hfeed
  simp only [Prod.mk.injEq, true_and] at hfeed
  obtain ⟨haccepted, hrest⟩ := hfeed
  have hframe := congrArg Decoder.frame haccepted
  refine ⟨(congrArg Frame.kind hframe).symm, ?_, hrest.symm⟩
  have hlen : p'.length = p.length := congrArg Frame.length hframe
  have htake := Decoder.accepted_take (d := Decoder.zero.reset) hp
  rw [← haccepted, ← hlen, Decoder.accepted_take hp'] at htake
  exact htake.symm

/-- **The decoder accepts exactly the image of `Encode`.** From every cleared decoder, the bytes of
an encoded frame are answered by `ResultNeedMore` up to the last one and by `ResultOK` there, with
the frame that was encoded; and a byte string that ends in `ResultOK` at its last byte is the
encoding of the frame that the decoder then holds. -/
theorem decoder_accepts_exactly_encode {d : Decoder} (hd : d.Cleared) (output : FrameBuffer) :
    (∀ (kind : FrameKind) (payload : Payload) (n : ℕ), kind.valid → n ≤ kind.maxPayload →
      let bytes := encodeBytes kind (some payload) n output
      (encode kind (some payload) n (some output)).1 = (n + 8, .ok) ∧ bytes.length = n + 8 ∧
      (∀ k < bytes.length, (d.feed (bytes.take k)).2.1 = .needMore) ∧
      ∃ d' : Decoder, d.feed bytes = (d', .ok, []) ∧ d'.frame.kind = kind ∧ d'.frame.length = n ∧
        d'.frame.payload.toList.take n = payload.toList.take n) ∧
    (∀ (bytes : List UInt8) (d' : Decoder), d.feed bytes = (d', .ok, []) →
      (encode d'.frame.kind (some d'.frame.payload) d'.frame.length (some output)).1 =
          (bytes.length, .ok) ∧
        encodeBytes d'.frame.kind (some d'.frame.payload) d'.frame.length output = bytes) := by
  constructor
  · intro kind payload n hkind hn
    obtain ⟨buffer, henc, -⟩ := encode_eq_ok hkind (some payload) (by simp) hn output
    have hbytes := encodeBytes_eq_wire hkind (some payload) (by simp) hn output
    have hlen := length_payloadBytes (some payload) (hn.trans kind.maxPayload_le)
    have hfeed : d.feed (encodeBytes kind (some payload) n output) =
        (d.accepted kind (payloadBytes (some payload) n), .ok, []) :=
      (Decoder.feed_eq_ok_iff hd.idle).mpr
        ⟨kind, _, hkind, hlen.le.trans hn, by rw [hbytes, List.append_nil], rfl⟩
    refine ⟨by rw [henc], by rw [hbytes, length_wire, hlen],
      fun k hk => Decoder.feed_take_eq_needMore hfeed hk, _, hfeed, rfl, hlen, ?_⟩
    have h := Decoder.accepted_take (d := d) (hlen.le.trans hn)
    rwa [hlen] at h
  · intro bytes d' h
    obtain ⟨kind, p, hkind, hp, rfl, rfl⟩ := (Decoder.feed_eq_ok_iff hd.idle).mp h
    rw [List.append_nil, length_wire]
    obtain ⟨buffer, henc, -⟩ := encode_eq_ok hkind (some (d.accepted kind p).frame.payload)
      (by simp) hp output
    refine ⟨congrArg Prod.fst henc, ?_⟩
    refine (encodeBytes_eq_wire hkind _ (by simp) hp output).trans ?_
    exact congrArg (wire kind) (Decoder.accepted_take hp)

/-- A decoder that failed on its first byte receives a request with four times the byte `p`. -/
theorem decoder_accepts_ping :
    ∃ d' : Decoder, (Decoder.zero.push 0).1.feed
        (encodeBytes .request (some (Vector.replicate _ 0x70)) 4 (Vector.replicate _ 0)) =
      (d', .ok, []) ∧ d'.frame.length = 4 := by
  have hd : (Decoder.zero.push 0).1.Cleared := .error 0 .zero (by decide) (by decide)
  obtain ⟨-, -, -, d', hfeed, -, hlen, -⟩ := (decoder_accepts_exactly_encode hd
    (Vector.replicate _ 0)).1 .request (Vector.replicate _ 0x70) 4 (by decide) (by decide)
  exact ⟨d', hfeed, hlen⟩

end DavOS.Serial
