import DavOS.Serial.Checksum
import Mathlib.Data.Finset.Card
import Mathlib.Algebra.Ring.Parity
import Mathlib.Tactic.NormNum.Prime

/-!
# Corrupted frames

`flipBits` inverts a set of bits of a byte string, numbered in the order of transmission. If it
leaves the length bytes alone, a decoder that still accepts has read a frame of the same length, and
then the register has to come to zero both for the sent and for the received bits. By linearity the
flips alone, fed to a register that starts at zero, come to zero as well, which the three classes of
`Lfsr` exclude: an odd number of flips, two flips closer than the period of the register, and flips
within sixteen places.
-/

namespace DavOS.Serial

open Lfsr

/-! ## The period of the register -/

/-- `Lfsr.step polynomial` on natural numbers, for evaluation. -/
def stepNat (r : ℕ) : ℕ := if r < 32768 then 2 * r else (2 * r) ^^^ 0x11021

/-- `n` steps; the comparison in `stepNat` evaluates each register before the next. -/
def iterateNat : ℕ → ℕ → ℕ
  | 0, r => r
  | n + 1, r => iterateNat n (stepNat r)

/-- `stepNat` computes a step of the register. -/
private theorem toNat_step (r : BitVec 16) : (step polynomial r).toNat = stepNat r.toNat := by
  have hr := r.isLt
  have hmsb : r.msb = decide (32768 ≤ r.toNat) := BitVec.msb_eq_decide r
  rw [step, stepNat, hmsb]
  by_cases h : r.toNat < 32768
  · rw [decide_eq_false (by omega), if_neg Bool.false_ne_true, if_pos h, BitVec.toNat_shiftLeft,
      Nat.shiftLeft_eq, Nat.mod_eq_of_lt (by omega), Nat.mul_comm]
  · rw [decide_eq_true (by omega), if_pos rfl, if_neg h, BitVec.toNat_xor, BitVec.toNat_shiftLeft,
      Nat.shiftLeft_eq]
    -- the leading one of `0x11021` takes away the bit that leaves at the top
    have hbits : 2 * r.toNat = 1 <<< 16 ||| r.toNat * 2 ^ 1 % 2 ^ 16 := by
      rw [← Nat.shiftLeft_add_eq_or_of_lt (by omega), Nat.shiftLeft_eq]
      omega
    have hone : 1 <<< 16 ||| r.toNat * 2 ^ 1 % 2 ^ 16 =
        (1 <<< 16) ^^^ (r.toNat * 2 ^ 1 % 2 ^ 16) := by
      refine Nat.eq_of_testBit_eq fun i => ?_
      rw [Nat.testBit_or, Nat.testBit_xor, Nat.testBit_mod_two_pow, Nat.testBit_shiftLeft]
      by_cases hi : i < 16
      · simp [hi, show ¬ 16 ≤ i by omega]
      · simp [hi]
    rw [hbits, hone, Nat.xor_comm (1 <<< 16), Nat.xor_assoc]
    rfl

/-- `iterateNat` computes any number of them. -/
private theorem toNat_iterate_step (n : ℕ) (r : BitVec 16) :
    ((step polynomial)^[n] r).toNat = iterateNat n r.toNat := by
  induction n generalizing r with
  | zero => rfl
  | succ n ih => rw [Function.iterate_succ_apply, ih, toNat_step, iterateNat]

/-- Whether the register returns to its top bit is decided on numbers. -/
private theorem iterate_step_top_iff (n : ℕ) :
    (step polynomial)^[n] (BitVec.twoPow 16 (16 - 1)) = BitVec.twoPow 16 (16 - 1) ↔
      iterateNat n 32768 = 32768 := by
  rw [← BitVec.toNat_inj, toNat_iterate_step]
  rfl

set_option maxRecDepth 100000 in
/-- **The period of the register** is `32767 = 7 * 31 * 151`, the order of `x` modulo the
polynomial. -/
theorem iterate_step_top_ne {d : ℕ} (hpos : 0 < d) (hd : d < 32767) :
    (step polynomial)^[d] (BitVec.twoPow 16 (16 - 1)) ≠ BitVec.twoPow 16 (16 - 1) := by
  have hperiod : iterateNat 32767 32768 = 32768 := by decide +kernel
  refine iterate_ne_of_lt ((iterate_step_top_iff 32767).mpr hperiod) ?_ hpos hd
  intro q hq
  obtain ⟨hprime, hdvd⟩ := (Nat.mem_primeFactorsList (by omega)).mp hq
  have hfactors : q = 7 ∨ q = 31 ∨ q = 151 := by
    have h : q ∣ 7 * (31 * 151) := hdvd
    rcases hprime.dvd_mul.mp h with h | h
    · exact Or.inl ((Nat.prime_dvd_prime_iff_eq hprime (by norm_num)).mp h)
    · rcases hprime.dvd_mul.mp h with h | h
      · exact Or.inr (Or.inl ((Nat.prime_dvd_prime_iff_eq hprime (by norm_num)).mp h))
      · exact Or.inr (Or.inr ((Nat.prime_dvd_prime_iff_eq hprime (by norm_num)).mp h))
  rw [Ne, iterate_step_top_iff]
  rcases hfactors with rfl | rfl | rfl <;> decide +kernel

/-! ## Flipping bits -/

/-- The byte whose bits are numbered from `base` on, with the bits in `flips` inverted. -/
def flipByte (flips : Finset ℕ) (base : ℕ) (value : UInt8) : UInt8 :=
  (List.range 8).foldl
    (fun v k => if base + k ∈ flips then v ^^^ 0x80 >>> UInt8.ofNat k else v) value

/-- A byte string with the bits in `flips` inverted, numbered in the order of transmission. -/
def flipBits (flips : Finset ℕ) (bytes : List UInt8) : List UInt8 :=
  bytes.mapIdx fun i value => flipByte flips (8 * i) value

/-- Which of the `m` bits from number `start` on are inverted. -/
def flipped (flips : Finset ℕ) (start m : ℕ) : List Bool :=
  (List.range' start m).map (· ∈ flips)

@[simp] theorem length_flipBits (flips : Finset ℕ) (bytes : List UInt8) :
    (flipBits flips bytes).length = bytes.length := by
  simp [flipBits]

@[simp] theorem length_flipped (flips : Finset ℕ) (start m : ℕ) :
    (flipped flips start m).length = m := by
  simp [flipped]

/-- Bit `q` of a byte string is a bit of its byte number `q / 8`. -/
theorem getElem_bits (bytes : List UInt8) (q : ℕ) (h : q < (bits bytes).length) :
    (bits bytes)[q] = (bytes.getD (q / 8) 0).toBitVec.getMsbD (q % 8) := by
  induction bytes generalizing q with
  | nil => simp at h
  | cons value bytes ih =>
    simp only [bits_cons, List.getElem_append, length_msbBits]
    split
    · rename_i hq
      simp [Nat.div_eq_of_lt hq, Nat.mod_eq_of_lt hq]
    · rename_i hq
      obtain ⟨k, rfl⟩ : ∃ k, q = k + 8 := ⟨q - 8, by omega⟩
      simp [ih]

/-- The loop of `flipByte` inverts exactly the bits it was asked to. -/
theorem getMsbD_flipByte (flips : Finset ℕ) (base : ℕ) (value : UInt8) {k : ℕ} (hk : k < 8) :
    (flipByte flips base value).toBitVec.getMsbD k =
      (value.toBitVec.getMsbD k ^^ decide (base + k ∈ flips)) := by
  have hmask : ∀ j < 8, ∀ k < 8,
      (0x80 >>> UInt8.ofNat j : UInt8).toBitVec.getMsbD k = decide (k = j) := by decide
  have hloop : ∀ n ≤ 8, ((List.range n).foldl
      (fun v k => if base + k ∈ flips then v ^^^ 0x80 >>> UInt8.ofNat k else v)
        value).toBitVec.getMsbD k =
      (value.toBitVec.getMsbD k ^^ (decide (k < n) && decide (base + k ∈ flips))) := by
    intro n
    induction n with
    | zero => simp
    | succ n ih =>
      intro hn
      rw [List.range_succ, List.foldl_append, List.foldl_cons, List.foldl_nil]
      have hk' : k < n + 1 ↔ k < n ∨ k = n := by omega
      split
      · rename_i hflip
        rw [UInt8.toBitVec_xor, BitVec.getMsbD_xor, ih (by omega), hmask n (by omega) k hk]
        by_cases hkn : k = n
        · subst hkn
          simp [hflip]
        · simp [hk', hkn]
      · rename_i hflip
        rw [ih (by omega)]
        by_cases hkn : k = n
        · subst hkn
          simp [hflip]
        · simp [hk', hkn]
  rw [flipByte, hloop 8 le_rfl, decide_eq_true hk, Bool.true_and]

/-- Flipping bits adds the flips to the transmitted bits. -/
theorem bits_flipBits (flips : Finset ℕ) (bytes : List UInt8) :
    bits (flipBits flips bytes) =
      List.zipWith xor (bits bytes) (flipped flips 0 (8 * bytes.length)) := by
  refine List.ext_getElem (by simp) fun q h₁ h₂ => ?_
  rw [length_bits, length_flipBits] at h₁
  have hq : q / 8 < bytes.length := by omega
  have hbyte : (flipBits flips bytes).getD (q / 8) 0 =
      flipByte flips (8 * (q / 8)) (bytes.getD (q / 8) 0) := by
    simp [flipBits, List.getD_eq_getElem?_getD, hq]
  rw [getElem_bits, hbyte, getMsbD_flipByte _ _ _ (Nat.mod_lt _ (by omega)), List.getElem_zipWith,
    getElem_bits, Nat.div_add_mod]
  simp [flipped]

/-! ## The three classes of flips -/

/-- The flips of a range are those of its two pieces. -/
theorem flipped_append (flips : Finset ℕ) (start m n : ℕ) :
    flipped flips start (m + n) = flipped flips start m ++ flipped flips (start + m) n := by
  rw [flipped, ← List.range'_append_1, List.map_append]
  rfl

/-- A range that no flip is in has no bit inverted. -/
theorem flipped_eq_replicate {flips : Finset ℕ} {start m : ℕ}
    (h : ∀ q ∈ flips, q < start ∨ start + m ≤ q) :
    flipped flips start m = List.replicate m false := by
  refine List.eq_replicate_iff.mpr ⟨length_flipped _ _ _, fun b hb => ?_⟩
  obtain ⟨q, hq, rfl⟩ := List.mem_map.mp hb
  rw [List.mem_range'_1] at hq
  simp only [decide_eq_false_iff_not]
  intro hmem
  have := h q hmem
  omega

/-- A bit in the set is inverted. -/
theorem flipped_one {flips : Finset ℕ} {start : ℕ} (h : start ∈ flips) :
    flipped flips start 1 = [true] := by
  simp [flipped, h]

/-- The flips in a range that holds all of them have the parity of their number. -/
theorem parityBits_flipped {flips : Finset ℕ} {start m : ℕ}
    (h : ∀ q ∈ flips, start ≤ q ∧ q < start + m) :
    parityBits (flipped flips start m) = flips.card := by
  have hfilter : (Finset.Ico start (start + m)).filter (· ∈ flips) = flips := by
    ext q
    rw [Finset.mem_filter, Finset.mem_Ico]
    exact ⟨fun hq => hq.2, fun hq => ⟨h q hq, hq⟩⟩
  have hsum : parityBits (flipped flips start m) =
      ∑ q ∈ Finset.Ico start (start + m), if q ∈ flips then (1 : ZMod 2) else 0 := by
    rw [parityBits, flipped, List.map_map, ← List.toFinset_range'_1,
      List.sum_toFinset _ List.nodup_range']
    simp [Function.comp_def]
  rw [hsum, Finset.sum_boole, hfilter]

/-- An odd number of flips does not cancel, by parity. -/
theorem feed_flipped_ne_zero_of_odd {flips : Finset ℕ} {start m : ℕ}
    (hin : ∀ q ∈ flips, start ≤ q ∧ q < start + m) (hodd : Odd flips.card) :
    feed polynomial 0#16 (flipped flips start m) ≠ 0#16 := by
  refine feed_zero_ne_zero_of_odd (by decide) ?_
  rw [parityBits_flipped hin]
  exact ZMod.natCast_eq_one_iff_odd.mpr hodd

/-- Two flips do not cancel if they are closer than the period. -/
theorem feed_flipped_ne_zero_of_pair {i j start m : ℕ} (hi : start ≤ i) (hij : i < j)
    (hj : j < start + m) (hm : m ≤ 32767) :
    feed polynomial 0#16 (flipped {i, j} start m) ≠ 0#16 := by
  -- the two flips and the three gaps around them
  have hsplit : m = (i - start) + (1 + ((j - i - 1) + (1 + (start + m - j - 1)))) := by omega
  have hstart : start + (i - start) = i := by omega
  have hnext : i + 1 + (j - i - 1) = j := by omega
  have hfirst : flipped {i, j} start (i - start) = List.replicate (i - start) false :=
    flipped_eq_replicate (by simp; omega)
  have hbetween : flipped {i, j} (i + 1) (j - i - 1) = List.replicate (j - i - 1) false :=
    flipped_eq_replicate (by simp; omega)
  have hlast : flipped {i, j} (j + 1) (start + m - j - 1) =
      List.replicate (start + m - j - 1) false :=
    flipped_eq_replicate (by simp; omega)
  rw [hsplit, flipped_append, flipped_append, flipped_append, flipped_append, hstart, hnext, hfirst,
    hbetween, hlast, flipped_one (by simp), flipped_one (by simp)]
  exact feed_zero_ne_zero_of_pair (by decide) (by decide) _ _ _
    (iterate_step_top_ne (by omega) (by omega))

/-- Flips within sixteen places do not cancel, since they fit into the register. -/
theorem feed_flipped_ne_zero_of_burst {flips : Finset ℕ} {start m a : ℕ} (hne : flips.Nonempty)
    (hin : ∀ q ∈ flips, start ≤ q ∧ q < start + m) (hm : 16 ≤ m)
    (hburst : ∀ q ∈ flips, a ≤ q ∧ q < a + 16) :
    feed polynomial 0#16 (flipped flips start m) ≠ 0#16 := by
  -- a window of sixteen places that lies inside the range
  obtain ⟨b, hb, hb', hwin⟩ : ∃ b, start ≤ b ∧ b + 16 ≤ start + m ∧
      ∀ q ∈ flips, b ≤ q ∧ q < b + 16 := by
    refine ⟨max start (min a (start + m - 16)), by omega, by omega, fun q hq => ?_⟩
    have h₁ := hin q hq
    have h₂ := hburst q hq
    omega
  have hsplit : m = (b - start) + (16 + (start + m - b - 16)) := by omega
  have hstart : start + (b - start) = b := by omega
  have hfirst : flipped flips start (b - start) = List.replicate (b - start) false :=
    flipped_eq_replicate fun q hq => by have := hwin q hq; omega
  have hlast : flipped flips (b + 16) (start + m - b - 16) =
      List.replicate (start + m - b - 16) false :=
    flipped_eq_replicate fun q hq => by have := hwin q hq; omega
  rw [hsplit, flipped_append, flipped_append, hstart, hfirst, hlast]
  refine feed_zero_ne_zero_of_burst (by decide) _ _ (by simp) ?_
  intro hzero
  obtain ⟨q, hq⟩ := hne
  obtain ⟨h₁, h₂⟩ := hwin q hq
  have hbit := congrArg (fun v => v.getMsbD (q - b)) hzero
  simp only [getMsbD_word, BitVec.getMsbD_zero] at hbit
  have hplace : q - b < 16 := by omega
  simp [flipped, hplace, show b + (q - b) = q by omega, hq] at hbit

/-- Every difference of one of the three classes, in a stretch no longer than the covered part of a
frame, is seen by the register. -/
theorem feed_flipped_ne_zero {flips : Finset ℕ} {start m : ℕ} (hne : flips.Nonempty)
    (hin : ∀ q ∈ flips, start ≤ q ∧ q < start + m) (hm : 16 ≤ m) (hm' : m ≤ 32767)
    (hclass : Odd flips.card ∨ flips.card = 2 ∨ ∃ a, ∀ q ∈ flips, a ≤ q ∧ q < a + 16) :
    feed polynomial 0#16 (flipped flips start m) ≠ 0#16 := by
  rcases hclass with hodd | htwo | ⟨a, hburst⟩
  · exact feed_flipped_ne_zero_of_odd hin hodd
  · obtain ⟨i, j, hij, rfl⟩ := Finset.card_eq_two.mp htwo
    have hi := hin i (by simp)
    have hj := hin j (by simp)
    rcases Nat.lt_or_gt_of_ne hij with h | h
    · exact feed_flipped_ne_zero_of_pair hi.1 h hj.2 hm'
    · rw [Finset.pair_comm]
      exact feed_flipped_ne_zero_of_pair hj.1 h hi.2 hm'
  · exact feed_flipped_ne_zero_of_burst hne hin hm hburst

/-! ## Corrupted frames are refused -/

/-- A byte none of whose bits is flipped is received as it was sent, and conversely. -/
theorem flipBits_getD_eq_iff (flips : Finset ℕ) (bytes : List UInt8) {i : ℕ}
    (hi : i < bytes.length) :
    (flipBits flips bytes).getD i 0 = bytes.getD i 0 ↔ ∀ q ∈ flips, q / 8 ≠ i := by
  have hbyte : (flipBits flips bytes).getD i 0 = flipByte flips (8 * i) (bytes.getD i 0) := by
    simp [flipBits, List.getD_eq_getElem?_getD, hi]
  rw [hbyte]
  constructor
  · intro h q hq hqi
    have hbit := getMsbD_flipByte flips (8 * i) (bytes.getD i 0) (Nat.mod_lt q (by omega : 0 < 8))
    rw [h, show 8 * i + q % 8 = q by omega, decide_eq_true hq] at hbit
    simp at hbit
  · intro h
    refine UInt8.toBitVec_inj.mp (BitVec.eq_of_getMsbD_eq fun k hk => ?_)
    rw [getMsbD_flipByte _ _ _ hk, decide_eq_false, Bool.xor_false]
    intro hmem
    exact h _ hmem (by omega)

/-- Dropping bytes drops eight times as many bits. -/
theorem bits_drop (bytes : List UInt8) (i : ℕ) :
    bits (bytes.drop i) = (bits bytes).drop (8 * i) := by
  induction i generalizing bytes with
  | zero => rfl
  | succ i ih =>
    match bytes with
    | [] => simp
    | value :: bytes =>
      rw [List.drop_succ_cons, ih, bits_cons, Nat.mul_succ, Nat.add_comm (8 * i),
        ← List.drop_drop, List.drop_left' (length_msbBits _)]

/-- Dropping bits moves the start of the range. -/
theorem flipped_drop (flips : Finset ℕ) (start m k : ℕ) :
    (flipped flips start (k + m)).drop k = flipped flips (start + k) m := by
  rw [flipped_append, List.drop_left' (length_flipped _ _ _)]

/-- A frame that is accepted with its length bytes intact has the length of the frame that was
sent. -/
theorem length_eq_of_flipBits_wire {flips : Finset ℕ} {kind kind' : FrameKind}
    {p p' rest : List UInt8} (hp : p.length < 65536) (hp' : p'.length < 65536)
    (hlen : ∀ q ∈ flips, q / 8 ≠ 4 ∧ q / 8 ≠ 5)
    (h : flipBits flips (wire kind p) = wire kind' p' ++ rest) : p'.length = p.length := by
  have h₄ := (flipBits_getD_eq_iff flips (wire kind p) (i := 4) (by simp)).mpr
    fun q hq => (hlen q hq).1
  have h₅ := (flipBits_getD_eq_iff flips (wire kind p) (i := 5) (by simp)).mpr
    fun q hq => (hlen q hq).2
  rw [h] at h₄ h₅
  have hhigh : UInt8.ofNat (p'.length >>> 8) = UInt8.ofNat (p.length >>> 8) := h₄
  have hlow : UInt8.ofNat p'.length = UInt8.ofNat p.length := h₅
  rw [← UInt8.toNat_inj, UInt8.toNat_ofNat', UInt8.toNat_ofNat', Nat.shiftRight_eq_div_pow,
    Nat.shiftRight_eq_div_pow] at hhigh
  rw [← UInt8.toNat_inj, UInt8.toNat_ofNat', UInt8.toNat_ofNat'] at hlow
  omega

/-- **Corruption is detected.** Take any frame that `Encode` produces and any non-empty set of
flipped bits that leaves the two length bytes alone. If the flips are odd in number, or two, or lie
within sixteen consecutive bits, a reset decoder that is fed the received bytes does not end in
`ResultOK`. -/
theorem corrupted_frame_not_ok {kind : FrameKind} (hkind : kind.valid) (payload : Payload) {n : ℕ}
    (hn : n ≤ kind.maxPayload) (output : FrameBuffer) {flips : Finset ℕ} (hne : flips.Nonempty)
    (hin : ∀ q ∈ flips, q < 8 * (encodeBytes kind (some payload) n output).length)
    (hlen : ∀ q ∈ flips, q / 8 ≠ 4 ∧ q / 8 ≠ 5)
    (hclass : Odd flips.card ∨ flips.card = 2 ∨ ∃ a, ∀ q ∈ flips, a ≤ q ∧ q < a + 16)
    (d : Decoder) :
    (d.reset.feed (flipBits flips (encodeBytes kind (some payload) n output))).2.1 ≠ .ok := by
  have hmax : n ≤ maxRequestPayload := hn.trans kind.maxPayload_le
  rw [encodeBytes_eq_wire hkind _ (by simp) hn] at hin ⊢
  set p := payloadBytes (some payload) n with hp
  have hplen : p.length = n := length_payloadBytes _ hmax
  rcases hfeed : d.reset.feed (flipBits flips (wire kind p)) with ⟨d', result, rest⟩
  intro hok
  obtain rfl : result = .ok := hok
  obtain ⟨kind', p', -, hp', hbytes, -⟩ := (Decoder.feed_eq_ok_iff (Decoder.idle_reset d)).mp hfeed
  have hmax' : p'.length ≤ maxRequestPayload := hp'.trans kind'.maxPayload_le
  simp only [maxRequestPayload] at hmax hmax'
  have heq : p'.length = p.length :=
    length_eq_of_flipBits_wire (by omega) (by omega) hlen hbytes
  have hrest : rest = [] := by
    have hlens := congrArg List.length hbytes
    rw [length_flipBits, List.length_append, length_wire, length_wire] at hlens
    exact List.length_eq_zero_iff.mp (by omega)
  rw [hrest, List.append_nil] at hbytes
  -- the magic bytes are compared one by one
  have hmagic : ∀ q ∈ flips, 16 ≤ q := by
    have h₀ := (flipBits_getD_eq_iff flips (wire kind p) (i := 0) (by simp)).mp
      (by rw [hbytes]; rfl)
    have h₁ := (flipBits_getD_eq_iff flips (wire kind p) (i := 1) (by simp)).mp
      (by rw [hbytes]; rfl)
    intro q hq
    have := h₀ q hq
    have := h₁ q hq
    omega
  -- the register is at zero after the sent bits and after the received ones, hence after the flips
  have hzero : feed polynomial 0#16 (flipped flips 16 (8 * n + 48)) = 0#16 := by
    have hlens : (bits ((wire kind p).drop 2)).length =
        (flipped flips 16 (8 * n + 48)).length := by
      rw [length_bits, List.length_drop, length_wire, length_flipped, hplen]
      omega
    have hxor := feed_xor polynomial 0xFFFF#16 0#16 hlens
    rw [feed_bits_wire, BitVec.xor_zero, BitVec.zero_xor] at hxor
    rw [← hxor, ← feed_bits_wire kind' p', ← hbytes, bits_drop, bits_drop, bits_flipBits,
      List.drop_zipWith, length_wire, hplen, show 8 * (n + 8) = 8 * 2 + (8 * n + 48) by omega,
      flipped_drop]
  refine feed_flipped_ne_zero hne (fun q hq => ⟨hmagic q hq, ?_⟩) (by omega) (by omega) hclass hzero
  have hq' := hin q hq
  rw [length_wire, hplen] at hq'
  omega

/-- The two kind bits of an empty request are flipped, which makes it the header of a response. -/
theorem corrupted_empty_request_not_ok :
    (Decoder.zero.reset.feed (flipBits {30, 31}
      (encodeBytes .request (some (Vector.replicate _ 0)) (0 : ℕ) (Vector.replicate _ 0)))).2.1 ≠
        .ok := by
  refine corrupted_frame_not_ok (by decide) _ (by decide) _ (Finset.insert_nonempty _ _) ?_
    (by decide) (Or.inr (Or.inl (by decide))) _
  rw [encodeBytes_eq_wire (by decide) _ (fun _ => rfl) (by decide), length_wire]
  intro q hq
  simp only [Finset.mem_insert, Finset.mem_singleton] at hq
  omega

end DavOS.Serial
