import DavOS.Serial.Checksum

/-!
# The host side of DV/1

Reference: `scripts/agent_bridge_protocol.py`.

`bytes` objects are lists, an exception is the error of an `Except`. `crcHqx` is
`binascii.crc_hqx`, the CRC of the standard library: polynomial `0x1021`, most significant bit
first, from the given initial value.

Both directions are compared with the guest through `Serial.wire`: `encode_response_frame` returns
the frame of the response kind, and the two-stage parser of requests accepts the frames of the
request kind and nothing else.
-/

namespace DavOS.Bridge

open DavOS.Serial

structure ProtocolError where
  message : String
  code : String := "protocol_error"
  recoverable : Bool := false
deriving DecidableEq, Repr

/-- `b"DV"` -/
def magic : List UInt8 := [0x44, 0x56]
def version : UInt8 := 1
def request : UInt8 := 1
def response : UInt8 := 2
abbrev headerSize : ℕ := 6
abbrev maxRequestPayload : ℕ := 2048
abbrev maxResponsePayload : ℕ := 1024

/-- `int.from_bytes(data, "big")` -/
def intFromBytes (data : List UInt8) : ℕ := data.foldl (fun n b => n * 256 + b.toNat) 0

/-- `n.to_bytes(2, "big")` -/
def toBytes (n : ℕ) : List UInt8 := [UInt8.ofNat (n / 256), UInt8.ofNat n]

/-- `binascii.crc_hqx(data, value)` -/
def crcHqx (data : List UInt8) (value : ℕ) : ℕ :=
  (Lfsr.feed 0x1021#16 (BitVec.ofNat 16 value) (bits data)).toNat

def checksum (data : List UInt8) : ℕ := crcHqx data 0xFFFF

def requestPayloadLength (header : List UInt8) : Except ProtocolError ℕ :=
  if header.length ≠ headerSize then
    .error { message := "partial frame" }
  else if header.take 2 ≠ magic ∨ header.getD 2 0 ≠ version ∨ header.getD 3 0 ≠ request then
    .error { message := "malformed request header" }
  else
    let payloadLen := intFromBytes ((header.take 6).drop 4)
    if payloadLen > maxRequestPayload then
      .error { message := "request payload is too large" }
    else
      .ok payloadLen

def decodeRequestBody (header body : List UInt8) : Except ProtocolError (List UInt8) := do
  let payloadLen ← requestPayloadLength header
  if body.length ≠ payloadLen + 2 then
    .error { message := "partial frame" }
  else
    -- `body[:-2]` and `body[-2:]`
    let payload := body.take (body.length - 2)
    let receivedChecksum := intFromBytes (body.drop (body.length - 2))
    if receivedChecksum ≠ checksum (header.drop 2 ++ payload) then
      .error { message := "request checksum mismatch", recoverable := true }
    else
      .ok payload

def encodeResponseFrame (payload : List UInt8) : Except ProtocolError (List UInt8) :=
  if payload.length > maxResponsePayload then
    .error { message := "response payload is too large" }
  else
    let header := magic ++ [version, response] ++ toBytes payload.length
    .ok (header ++ payload ++ toBytes (checksum (header.drop 2 ++ payload)))

/-! ## The checksum -/

/-- The library CRC and the bit loop of the guest compute the same checksum. -/
theorem checksum_eq (data : List UInt8) : checksum data = (checksumOf data).toNat := by
  rw [← UInt16.toNat_toBitVec, toBitVec_checksumOf]
  rfl

/-- A checksum has 16 bits. -/
theorem checksum_lt (data : List UInt8) : checksum data < 65536 := by
  rw [checksum_eq]
  exact UInt16.toNat_lt _

/-- The host's checksum is the guest's. -/
theorem toBytes_checksum (data : List UInt8) :
    toBytes (checksum data) = checksumBytes (checksumOf data) := by
  have hhigh : UInt8.ofNat ((checksumOf data).toNat / 256) = (checksumOf data >>> 8).toUInt8 := by
    rw [← UInt8.toNat_inj, UInt8.toNat_ofNat', UInt16.toNat_toUInt8, UInt16.toNat_shiftRight,
      Nat.shiftRight_eq_div_pow]
    rfl
  have hlow : UInt8.ofNat (checksumOf data).toNat = (checksumOf data).toUInt8 := by
    rw [← UInt8.toNat_inj, UInt8.toNat_ofNat', UInt16.toNat_toUInt8]
  rw [toBytes, checksum_eq, checksumBytes, hhigh, hlow]

/-- Two bytes are read as the number they were written from. -/
theorem intFromBytes_eq_iff {high low : UInt8} {n : ℕ} (hn : n < 65536) :
    intFromBytes [high, low] = n ↔ [high, low] = toBytes n := by
  have hhigh := high.toNat_lt
  have hlow := low.toNat_lt
  simp only [intFromBytes, List.foldl_cons, List.foldl_nil, toBytes, List.cons.injEq, and_true,
    ← UInt8.toNat_inj, UInt8.toNat_ofNat']
  omega

/-- A number of two bytes is read back. -/
theorem intFromBytes_toBytes {n : ℕ} (hn : n < 65536) : intFromBytes (toBytes n) = n :=
  (intFromBytes_eq_iff hn).mpr rfl

/-- The high byte comes first. -/
theorem toBytes_eq (n : ℕ) : toBytes n = [UInt8.ofNat (n >>> 8), UInt8.ofNat n] := by
  rw [toBytes, Nat.shiftRight_eq_div_pow]

/-! ## Frames -/

/-- The host's encoder writes the frame that the guest's decoder expects. -/
theorem encodeResponseFrame_eq_wire {p : List UInt8} (hp : p.length ≤ maxResponsePayload) :
    encodeResponseFrame p = .ok (wire .response p) := by
  rw [encodeResponseFrame, if_neg (not_lt.mpr hp)]
  simp only [toBytes_checksum]
  rw [toBytes_eq]
  rfl

/-- The header parser accepts the six bytes of one header for each admissible length. -/
theorem requestPayloadLength_eq_ok_iff {header : List UInt8} {n : ℕ} :
    requestPayloadLength header = .ok n ↔
      n ≤ maxRequestPayload ∧ header = magic ++ [version, request] ++ toBytes n := by
  constructor
  · intro h
    rw [requestPayloadLength] at h
    by_cases hsize : header.length = headerSize
    swap
    · rw [if_pos hsize] at h
      exact absurd h (by simp)
    obtain ⟨b₀, b₁, b₂, b₃, b₄, b₅, rfl⟩ :
        ∃ b₀ b₁ b₂ b₃ b₄ b₅, header = [b₀, b₁, b₂, b₃, b₄, b₅] := by
      match header, hsize with
      | [b₀, b₁, b₂, b₃, b₄, b₅], _ => exact ⟨b₀, b₁, b₂, b₃, b₄, b₅, rfl⟩
    rw [if_neg (by simp)] at h
    dsimp only at h
    split_ifs at h with hmagic hmax
    rw [Except.ok.injEq] at h
    simp only [List.take, List.getD_cons_succ, List.getD_cons_zero, magic, ne_eq, not_or, not_not,
      List.cons.injEq, and_true] at hmagic
    obtain ⟨⟨rfl, rfl⟩, rfl, rfl⟩ := hmagic
    simp only [List.take, List.drop] at h hmax
    rw [h] at hmax
    refine ⟨not_lt.mp hmax, ?_⟩
    rw [← (intFromBytes_eq_iff (lt_of_le_of_lt (not_lt.mp hmax) (by decide))).mp h]
    rfl
  · intro h
    obtain ⟨hn, rfl⟩ := h
    have hint := intFromBytes_toBytes (lt_of_le_of_lt hn (by decide))
    have hdrop : ((magic ++ [version, request] ++ toBytes n).take 6).drop 4 = toBytes n := rfl
    rw [requestPayloadLength, if_neg (by simp [magic, toBytes]),
      if_neg (by simp [magic, toBytes])]
    simp only [hdrop, hint]
    rw [if_neg (not_lt.mpr hn)]

/-- With a good header the body parser accepts a payload of the announced length, followed by the
checksum of header and payload. -/
theorem decodeRequestBody_eq_ok_iff {header body p : List UInt8} {n : ℕ}
    (h : requestPayloadLength header = .ok n) :
    decodeRequestBody header body = .ok p ↔
      p.length = n ∧ body = p ++ toBytes (checksum (header.drop 2 ++ p)) := by
  have hdecode : decodeRequestBody header body =
      if body.length ≠ n + 2 then .error { message := "partial frame" }
      else if intFromBytes (body.drop (body.length - 2)) ≠
          checksum (header.drop 2 ++ body.take (body.length - 2)) then
        .error { message := "request checksum mismatch", recoverable := true }
      else .ok (body.take (body.length - 2)) := by
    rw [decodeRequestBody, h]
    rfl
  rw [hdecode]
  constructor
  · intro hok
    split_ifs at hok with hlen hcrc
    simp only [not_not] at hlen hcrc
    simp only [Except.ok.injEq] at hok
    have hdrop : (body.drop (body.length - 2)).length = 2 := by
      rw [List.length_drop]
      omega
    obtain ⟨high, low, htail⟩ := List.length_eq_two.mp hdrop
    rw [htail, hok, intFromBytes_eq_iff (checksum_lt _), ← htail] at hcrc
    refine ⟨?_, ?_⟩
    · rw [← hok, List.length_take]
      omega
    · rw [← hcrc, ← hok, List.take_append_drop]
  · intro hok
    obtain ⟨hlen, rfl⟩ := hok
    have hlen' : (p ++ toBytes (checksum (header.drop 2 ++ p))).length = n + 2 := by
      rw [List.length_append, hlen]
      rfl
    have hcrc := intFromBytes_toBytes (checksum_lt (header.drop 2 ++ p))
    rw [if_neg (not_not.mpr hlen'), hlen', Nat.add_sub_cancel, ← hlen, List.take_left,
      List.drop_left, if_neg (not_not.mpr hcrc)]

/-- The two stages together read the frames of the request kind, and leave what follows them. -/
theorem decodeRequest_iff {s p rest : List UInt8} :
    (∃ n, requestPayloadLength (s.take 6) = .ok n ∧
        decodeRequestBody (s.take 6) ((s.drop 6).take (n + 2)) = .ok p ∧
          rest = s.drop (6 + (n + 2))) ↔
      p.length ≤ maxRequestPayload ∧ s = wire .request p ++ rest := by
  have hwire : ∀ p : List UInt8, wire .request p = magic ++ [version, request] ++
      toBytes p.length ++ (p ++ toBytes (checksum
        ((magic ++ [version, request] ++ toBytes p.length).drop 2 ++ p))) := by
    intro p
    rw [toBytes_checksum, toBytes_eq]
    rfl
  constructor
  · intro h
    obtain ⟨n, hheader, hbody, rfl⟩ := h
    obtain ⟨rfl, hbody⟩ := (decodeRequestBody_eq_ok_iff hheader).mp hbody
    obtain ⟨hn, hheader⟩ := requestPayloadLength_eq_ok_iff.mp hheader
    refine ⟨hn, ?_⟩
    rw [hheader] at hbody
    rw [hwire, ← hbody, ← hheader, ← List.drop_drop, List.append_assoc, List.take_append_drop,
      List.take_append_drop]
  · intro h
    obtain ⟨hp, rfl⟩ := h
    have hheader : (wire .request p ++ rest).take 6 =
        magic ++ [version, request] ++ toBytes p.length := by
      rw [toBytes_eq]
      rfl
    have hlen : requestPayloadLength (magic ++ [version, request] ++ toBytes p.length) =
        .ok p.length := requestPayloadLength_eq_ok_iff.mpr ⟨hp, rfl⟩
    have htotal : 6 + (p.length + 2) = (wire .request p).length := by
      rw [length_wire]
      omega
    refine ⟨p.length, by rw [hheader, hlen], ?_, ?_⟩
    · rw [hheader, decodeRequestBody_eq_ok_iff hlen]
      refine ⟨rfl, ?_⟩
      rw [hwire, List.append_assoc, List.drop_left' (by rfl), List.take_left' (by simp; rfl)]
    · rw [htotal, List.drop_left]

/-- **Guest and host speak the same wire format.** A response of at most 1024 bytes is encoded by
the host as by the guest, and on every byte string the host's parser of requests succeeds exactly
when a reset decoder of the guest accepts, with the same payload and the same bytes left over. -/
theorem host_and_guest_agree (d : Decoder) (output : FrameBuffer) :
    (∀ (payload : Payload) (n : ℕ), n ≤ maxResponsePayload →
      encodeResponseFrame (payload.toList.take n) =
        .ok (encodeBytes .response (some payload) n output)) ∧
    (∀ s p rest : List UInt8,
      (∃ n, requestPayloadLength (s.take 6) = .ok n ∧
          decodeRequestBody (s.take 6) ((s.drop 6).take (n + 2)) = .ok p ∧
            rest = s.drop (6 + (n + 2))) ↔
        ∃ d' : Decoder, d.reset.feed s = (d', .ok, rest) ∧ d'.frame.kind = .request ∧
          d'.frame.payload.toList.take d'.frame.length = p) := by
  constructor
  · intro payload n hn
    have hbytes : encodeBytes .response (some payload) n output =
        wire .response (payloadBytes (some payload) n) :=
      encodeBytes_eq_wire (by decide) _ (by simp) hn output
    rw [hbytes]
    refine encodeResponseFrame_eq_wire (p := payload.toList.take n) ?_
    rw [List.length_take]
    omega
  · intro s p rest
    rw [decodeRequest_iff]
    constructor
    · intro h
      obtain ⟨hp, rfl⟩ := h
      refine ⟨_, (Decoder.feed_eq_ok_iff (Decoder.idle_reset d)).mpr
        ⟨.request, p, by decide, hp, rfl, rfl⟩, rfl, ?_⟩
      exact Decoder.accepted_take (show p.length ≤ FrameKind.request.maxPayload from hp)
    · intro h
      obtain ⟨d', hfeed, hkind, hpay⟩ := h
      obtain ⟨kind, p', -, hp', rfl, rfl⟩ :=
        (Decoder.feed_eq_ok_iff (Decoder.idle_reset d)).mp hfeed
      obtain rfl : kind = .request := hkind
      obtain rfl : p' = p := (Decoder.accepted_take hp').symm.trans hpay
      exact ⟨hp', rfl⟩

/-- A response with four times the byte `p`. -/
theorem host_and_guest_agree_on_four_bytes :
    encodeResponseFrame ((Vector.replicate maxPayload 0x70).toList.take 4) =
      .ok (encodeBytes .response (some (Vector.replicate _ 0x70)) (4 : ℕ) (Vector.replicate _ 0)) :=
  (host_and_guest_agree Decoder.zero _).1 _ 4 (by decide)

end DavOS.Bridge
