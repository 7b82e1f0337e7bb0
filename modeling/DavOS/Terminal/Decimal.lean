import DavOS.Lib.CopyLoop
import DavOS.Lib.Numeral
import DavOS.Terminal.Format
import DavOS.Terminal.Screen

/-!
# Integers in decimal

Reference: `FormatInt` in `terminal/format.go`, and `PrintInt` in `terminal/terminal.go` and in
`terminal/terminal_stub.go`.

The kernel's `PrintInt` emits the buffer that `FormatInt` has filled from its end. The host stub has
a loop of its own, which fills a buffer from its start and emits it backwards, and negates the
smallest integer with a wrap-around where `FormatInt` avoids it. Both are followed to one text,
`decimal v`: the sign and the digits of the magnitude. Which runes a `PrintInt` emits does not
depend on what `PutRune` does with them, so both are written over an arbitrary `putRune`.
-/

namespace DavOS.Terminal

/-! ## The two functions -/

section PrintInt

variable {σ : Type} (putRune : Int32 → σ → σ)

/-- The loop of both functions that emits a text. -/
def emit (text : List UInt8) (s : σ) : σ := text.foldl (fun s b => putRune (ofByte b) s) s

/-- `PrintInt` of `terminal/terminal.go`; `none` where `FormatInt` panics. -/
def printInt (v : Int64) (s : σ) : Option σ :=
  (formatInt v).map fun buf => emit putRune buf.text s

namespace Stub

/-- The first loop of the stub: the digits, from the last one on. A store outside the buffer would
be a panic, here `none`. -/
def storeDigits (val : UInt64) (buf : Vector UInt8 20) (i : ℕ) : Option (Vector UInt8 20 × ℕ) :=
  if h : val > 0 then
    if i < 20 then storeDigits (val / 10) (buf.set! i (0x30 + (val % 10).toUInt8)) (i + 1) else none
  else some (buf, i)
termination_by val.toNat
decreasing_by
  have hpos : 0 < val.toNat := UInt64.lt_iff_toNat_lt.mp h
  rw [UInt64.toNat_div]
  exact Nat.div_lt_self hpos (by decide)

/-- The second loop of the stub. -/
def emitBackwards (buf : Vector UInt8 20) : ℕ → σ → σ
  | 0, s => s
  | i + 1, s => emitBackwards buf i (putRune (ofByte buf[i]!) s)

/-- `PrintInt` of `terminal/terminal_stub.go`. -/
def printInt (v : Int64) (s : σ) : Option σ :=
  let s := if v < 0 then putRune 0x2D s else s
  let v := if v < 0 then -v else v
  if v = 0 then some (putRune 0x30 s)
  else (storeDigits v.toUInt64 (Vector.replicate 20 0) 0).map fun r =>
    emitBackwards putRune r.1 r.2 s

end Stub

end PrintInt

/-! ## Numerals in bytes -/

def digitByte (d : ℕ) : UInt8 := 0x30 + UInt8.ofNat d

/-- The sign and the digits of an integer. -/
def decimal (v : ℤ) : List UInt8 :=
  (if v < 0 then [0x2D] else []) ++ (Numeral.digits 10 v.natAbs).map digitByte

/-- The text is the canonical decimal numeral of `v`: a leading `-` exactly for a negative number,
then decimal digits, of which the first is a zero only if it is the only one. -/
def IsNumeral (text : List UInt8) (v : ℤ) : Prop :=
  ∃ digits : List UInt8,
    text = (if v < 0 then 0x2D :: digits else digits) ∧ digits ≠ [] ∧
    (∀ b ∈ digits, 0x30 ≤ b ∧ b ≤ 0x39) ∧ (digits.head? = some 0x30 → digits = [0x30]) ∧
    Numeral.value 10 (digits.map fun b => (b - 0x30).toNat) = v.natAbs

/-- The digit of a byte is read back. -/
theorem toNat_digitByte_sub {d : ℕ} (h : d < 10) : (digitByte d - 0x30).toNat = d := by
  rw [digitByte, UInt8.add_comm, UInt8.add_sub_cancel, UInt8.toNat_ofNat']
  omega

/-- The digits are bytes from `0x30` to `0x39`. -/
theorem digitByte_range {d : ℕ} (h : d < 10) : 0x30 ≤ digitByte d ∧ digitByte d ≤ 0x39 := by
  interval_cases d <;> decide

/-- `decimal v` is a numeral for `v`. -/
theorem isNumeral_decimal (v : ℤ) : IsNumeral (decimal v) v := by
  have hcanonical := Numeral.canonical_digits (by decide : 1 < 10) v.natAbs
  refine ⟨(Numeral.digits 10 v.natAbs).map digitByte, ?_, ?_, ?_, ?_, ?_⟩
  · rw [decimal]
    split <;> rfl
  · simpa using hcanonical.ne_nil
  · intro b hb
    obtain ⟨d, hd, rfl⟩ := List.mem_map.mp hb
    exact digitByte_range (hcanonical.lt_base d hd)
  · intro hhead
    rw [List.head?_map, Option.map_eq_some_iff] at hhead
    obtain ⟨d, hd, hzero⟩ := hhead
    have hlt := hcanonical.lt_base d (List.mem_of_mem_head? hd)
    have hd0 : d = 0 := by
      rw [← toNat_digitByte_sub hlt, hzero]
      decide
    rw [hcanonical.head (hd0 ▸ hd)]
    rfl
  · rw [List.map_map, List.map_congr_left (g := id), List.map_id, Numeral.value_digits]
    exact fun d hd => toNat_digitByte_sub (hcanonical.lt_base d hd)

/-- A text is the numeral of one number only. -/
theorem IsNumeral.unique {text : List UInt8} {v w : ℤ} (hv : IsNumeral text v)
    (hw : IsNumeral text w) : v = w := by
  obtain ⟨ds, htext, hne, hrange, -, hvalue⟩ := hv
  obtain ⟨ds', htext', hne', hrange', -, hvalue'⟩ := hw
  -- a digit is no sign, so both read the sign alike
  have hsign : ∀ {ds : List UInt8}, (∀ b ∈ ds, 0x30 ≤ b ∧ b ≤ 0x39) →
      ∀ rest, ds ≠ 0x2D :: rest := by
    rintro ds hds rest rfl
    exact absurd (hds 0x2D List.mem_cons_self).1 (by decide)
  rw [htext] at htext'
  by_cases hneg : v < 0 <;> by_cases hneg' : w < 0
  · rw [if_pos hneg, if_pos hneg', List.cons.injEq] at htext'
    rw [htext'.2, hvalue'] at hvalue
    omega
  · rw [if_pos hneg, if_neg hneg'] at htext'
    exact absurd htext'.symm (hsign hrange' ds)
  · rw [if_neg hneg, if_pos hneg'] at htext'
    exact absurd htext' (hsign hrange ds')
  · rw [if_neg hneg, if_neg hneg'] at htext'
    rw [htext', hvalue'] at hvalue
    omega

/-! ## Magnitudes -/

/-- A signed word is its bits, less `2 ^ 64` if the top bit is set. -/
theorem toInt_eq_cond (v : Int64) :
    v.toInt = if 2 * v.toUInt64.toNat < 2 ^ 64 then (v.toUInt64.toNat : ℤ)
      else v.toUInt64.toNat - 2 ^ 64 :=
  BitVec.toInt_eq_toNat_cond v.toBitVec

/-- The sign test of the source is that of the value. -/
theorem lt_zero_iff (v : Int64) : v < 0 ↔ v.toInt < 0 := Int64.lt_iff_toInt_lt

/-- A word that is not negative is its own absolute value. -/
theorem toNat_toUInt64_of_nonneg {v : Int64} (h : ¬ v < 0) : v.toUInt64.toNat = v.toInt.natAbs := by
  have hcond := toInt_eq_cond v
  have hlt := v.toUInt64.toNat_lt
  rw [lt_zero_iff] at h
  split at hcond <;> omega

/-- Also for the smallest integer, which is its own negative. -/
theorem toNat_toUInt64_neg {v : Int64} (h : v < 0) : (-v).toUInt64.toNat = v.toInt.natAbs := by
  have hcond := toInt_eq_cond v
  have hlt := v.toUInt64.toNat_lt
  rw [lt_zero_iff] at h
  rw [Int64.toUInt64_neg, UInt64.toNat_neg, UInt64.size]
  split at hcond <;> omega

/-- The magnitude that `FormatInt` computes is the one that the stub gets by a wrap-around. -/
theorem magnitude_eq (v : Int64) : (-(v + 1)).toUInt64 + 1 = (-v).toUInt64 := by
  rw [Int64.neg_add, Int64.toUInt64_sub]
  exact UInt64.sub_add_cancel _ _

/-- The absolute value of a word has at most 19 digits. -/
theorem natAbs_toInt_lt (v : Int64) : v.toInt.natAbs < 10 ^ 19 := by
  have hlt := v.toInt_lt
  have hle := v.le_toInt
  omega

/-- What the stores of both loops leave of the last digit. -/
theorem lastDigit_eq (u : UInt64) : 0x30 + (u % 10).toUInt8 = digitByte (u.toNat % 10) := by
  rw [digitByte, ← UInt8.toNat_inj, UInt8.toNat_add, UInt8.toNat_add, UInt64.toNat_toUInt8,
    UInt64.toNat_mod, UInt8.toNat_ofNat']
  rfl

/-- The digits of a positive number, with the last one apart. -/
theorem digits_eq {u : UInt64} (h : u > 0) :
    (Nat.digits 10 u.toNat).map digitByte =
      (0x30 + (u % 10).toUInt8) :: (Nat.digits 10 (u / 10).toNat).map digitByte := by
  have hpos : 0 < u.toNat := UInt64.lt_iff_toNat_lt.mp h
  rw [Nat.digits_def' (by decide) hpos, List.map_cons, lastDigit_eq, UInt64.toNat_div]
  rfl

/-! ## `FormatInt` -/

namespace IntBuffer

/-- A byte is put in front of the text as long as there is room. -/
theorem push_spec {s : IntBuffer} (b : UInt8) (hpos : 0 < s.start) (hle : s.start ≤ 20) :
    ∃ s', s.push b = some s' ∧ s'.start + 1 = s.start ∧ s'.text = b :: s.text := by
  obtain ⟨buf, start⟩ := s
  obtain ⟨k, rfl⟩ : ∃ k, start = k + 1 := ⟨start - 1, (Nat.sub_add_cancel hpos).symm⟩
  refine ⟨⟨buf.set! k b, k⟩, rfl, rfl, ?_⟩
  have hk : k < (buf.toList.set k b).length := by
    rw [List.length_set, Vector.length_toList]
    exact hle
  rw [text, text, Vector.toList_set!, List.drop_eq_getElem_cons hk, List.getElem_set_self,
    List.drop_set_of_lt (Nat.lt_succ_self k)]

end IntBuffer

/-- The loop puts the digits in front of the text, and needs as many places. -/
theorem pushDigits_spec (u : UInt64) (s : IntBuffer) (hle : s.start ≤ 20)
    (hlen : (Nat.digits 10 u.toNat).length ≤ s.start) :
    ∃ s', pushDigits u s = some s' ∧ s'.start + (Nat.digits 10 u.toNat).length = s.start ∧
      s'.text = ((Nat.digits 10 u.toNat).map digitByte).reverse ++ s.text := by
  induction hn : u.toNat using Nat.strong_induction_on generalizing u s with
  | _ n ih =>
    subst hn
    rw [pushDigits]
    by_cases hpos : u > 0
    · rw [dif_pos hpos]
      have hdigits := digits_eq hpos
      have hlength :
          (Nat.digits 10 u.toNat).length = (Nat.digits 10 (u / 10).toNat).length + 1 := by
        simpa using congrArg List.length hdigits
      obtain ⟨s₁, hpush, hstart, htext⟩ :=
        s.push_spec (0x30 + (u % 10).toUInt8) (by omega) hle
      have hdiv : (u / 10).toNat < u.toNat := by
        have hpos : 0 < u.toNat := UInt64.lt_iff_toNat_lt.mp hpos
        rw [UInt64.toNat_div]
        exact Nat.div_lt_self hpos (by decide)
      obtain ⟨s', hloop, hstart', htext'⟩ := ih _ hdiv (u / 10) s₁ (by omega) (by omega) rfl
      refine ⟨s', ?_, by omega, ?_⟩
      · rw [hpush]
        exact hloop
      · rw [htext', htext, hdigits, List.reverse_cons, List.append_assoc, List.singleton_append]
    · rw [dif_neg hpos]
      have hzero : u.toNat = 0 := by
        have := mt UInt64.lt_iff_toNat_lt.mpr hpos
        simpa using this
      refine ⟨s, rfl, ?_, ?_⟩ <;> simp [hzero]

/-- A number below `10 ^ 19` has at most 19 digits. -/
theorem length_digits_le {n : ℕ} (h : n < 10 ^ 19) : (Nat.digits 10 n).length ≤ 19 :=
  (Nat.digits_length_le_iff (by decide) n).mpr h

/-- A negative number is a minus sign and the digits of its absolute value. -/
theorem decimal_of_neg {v : ℤ} (h : v < 0) :
    decimal v = 0x2D :: ((Nat.digits 10 v.natAbs).map digitByte).reverse := by
  rw [decimal, if_pos h, Numeral.digits, if_neg (by omega), List.map_reverse]
  rfl

/-- A positive number is its digits. -/
theorem decimal_of_pos {v : ℤ} (h : 0 < v) :
    decimal v = ((Nat.digits 10 v.natAbs).map digitByte).reverse := by
  rw [decimal, if_neg (by omega), Numeral.digits, if_neg (by omega), List.map_reverse,
    List.nil_append]

/-- The loop on the buffer that `FormatInt` starts with. -/
theorem pushDigits_start {u : UInt64} {n : ℕ} (hu : u.toNat = n) (hn : n < 10 ^ 19) :
    ∃ s, pushDigits u ⟨Vector.replicate 20 0, 20⟩ = some s ∧
      s.start + (Nat.digits 10 n).length = 20 ∧ (Nat.digits 10 n).length ≤ 19 ∧
      s.text = ((Nat.digits 10 n).map digitByte).reverse := by
  subst hu
  have hlen := length_digits_le hn
  obtain ⟨s, hdigits, hstart, htext⟩ :=
    pushDigits_spec u ⟨Vector.replicate 20 0, 20⟩ le_rfl (hlen.trans (by decide))
  refine ⟨s, hdigits, hstart, hlen, ?_⟩
  have hempty : IntBuffer.text ⟨Vector.replicate 20 0, 20⟩ = [] := rfl
  rw [htext, hempty, List.append_nil]

/-- **`FormatInt` writes the decimal numeral**, and its 20 bytes are enough. -/
theorem formatInt_spec (v : Int64) :
    ∃ s, formatInt v = some s ∧ s.start < 20 ∧ s.text = decimal v.toInt := by
  rw [formatInt]
  by_cases hzero : v = 0
  · subst hzero
    exact ⟨_, rfl, by decide, by decide⟩
  rw [if_neg hzero]
  have hne : v.toInt ≠ 0 := fun h => hzero (Int64.toInt_inj.mp h)
  by_cases hneg : v < 0
  · -- 19 digits and the sign fill the buffer
    have hu : (-(v + 1)).toUInt64 + 1 = (-v).toUInt64 := magnitude_eq v
    obtain ⟨s, hdigits, hstart, hlen, htext⟩ :=
      pushDigits_start (toNat_toUInt64_neg hneg) (natAbs_toInt_lt v)
    obtain ⟨s', hsign, hstart', htext'⟩ := s.push_spec 0x2D (by omega) (by omega)
    refine ⟨s', ?_, by omega, ?_⟩
    · simp only [hneg, if_true, hu, hdigits]
      exact hsign
    · rw [htext', htext, decimal_of_neg ((lt_zero_iff v).mp hneg)]
  · have hpos : 0 < v.toInt := by
      have := mt (lt_zero_iff v).mpr hneg
      omega
    obtain ⟨s, hdigits, hstart, -, htext⟩ :=
      pushDigits_start (toNat_toUInt64_of_nonneg hneg) (natAbs_toInt_lt v)
    have hsome : 0 < (Nat.digits 10 v.toInt.natAbs).length := by
      rw [List.length_pos_iff, Nat.digits_ne_nil_iff_ne_zero]
      omega
    refine ⟨s, ?_, by omega, ?_⟩
    · simp only [hneg, if_false, hdigits]
      rfl
    · rw [htext, decimal_of_pos hpos]

/-! ## The stub -/

section Stub

variable {σ : Type} (putRune : Int32 → σ → σ)

namespace Stub

/-- The first loop appends the digits, the last one first. -/
theorem storeDigits_spec (u : UInt64) (buf : Vector UInt8 20) (i : ℕ)
    (hlen : i + (Nat.digits 10 u.toNat).length ≤ 20) :
    ∃ buf', storeDigits u buf i = some (buf', i + (Nat.digits 10 u.toNat).length) ∧
      buf'.toList.take (i + (Nat.digits 10 u.toNat).length) =
        buf.toList.take i ++ (Nat.digits 10 u.toNat).map digitByte := by
  induction hn : u.toNat using Nat.strong_induction_on generalizing u buf i with
  | _ n ih =>
    subst hn
    rw [storeDigits]
    by_cases hpos : u > 0
    · rw [dif_pos hpos]
      have hdigits := digits_eq hpos
      have hlength :
          (Nat.digits 10 u.toNat).length = (Nat.digits 10 (u / 10).toNat).length + 1 := by
        simpa using congrArg List.length hdigits
      have hdiv : (u / 10).toNat < u.toNat := by
        have hpos : 0 < u.toNat := UInt64.lt_iff_toNat_lt.mp hpos
        rw [UInt64.toNat_div]
        exact Nat.div_lt_self hpos (by decide)
      obtain ⟨buf', hloop, htake⟩ :=
        ih _ hdiv (u / 10) (buf.set! i (0x30 + (u % 10).toUInt8)) (i + 1) (by omega) rfl
      rw [if_pos (by omega), hlength]
      rw [Nat.add_assoc, Nat.add_comm 1] at hloop htake
      refine ⟨buf', hloop, ?_⟩
      rw [htake, CopyLoop.take_set!_succ buf (by omega), hdigits, List.append_assoc,
        List.singleton_append]
    · rw [dif_neg hpos]
      have hzero : u.toNat = 0 := by
        have := mt UInt64.lt_iff_toNat_lt.mpr hpos
        simpa using this
      refine ⟨buf, ?_, ?_⟩ <;> simp [hzero]

/-- The loop that prints a buffer from its end prints it reversed. -/
theorem emitBackwards_eq (buf : Vector UInt8 20) {i : ℕ} (hi : i ≤ 20) (s : σ) :
    emitBackwards putRune buf i s = emit putRune (buf.toList.take i).reverse s := by
  induction i generalizing s with
  | zero => rfl
  | succ i ih =>
    rw [emitBackwards, ih (by omega), List.take_succ_eq_append_getElem (by simpa using hi),
      List.reverse_append, List.reverse_singleton, Vector.getElem_toList,
      getElem!_pos buf i (by omega)]
    rfl

/-- **The stub emits the decimal numeral.** -/
theorem printInt_spec (v : Int64) (s : σ) :
    printInt putRune v s = some (emit putRune (decimal v.toInt) s) := by
  rw [printInt]
  by_cases hzero : v = 0
  · subst hzero
    rfl
  have hne : v.toInt ≠ 0 := fun h => hzero (Int64.toInt_inj.mp h)
  have hlen := length_digits_le (natAbs_toInt_lt v)
  by_cases hneg : v < 0
  · have hnat := toNat_toUInt64_neg hneg
    obtain ⟨buf, hloop, htake⟩ :=
      storeDigits_spec (-v).toUInt64 (Vector.replicate 20 0) 0 (by rw [hnat]; omega)
    have hne' : ¬ -v = 0 := by
      intro h
      rw [← Int64.neg_neg (a := v), h] at hzero
      exact hzero rfl
    simp only [hneg, if_true, if_neg hne', hloop, Option.map_some]
    rw [emitBackwards_eq putRune buf (by rw [hnat]; omega), htake, hnat,
      decimal_of_neg ((lt_zero_iff v).mp hneg), List.take_zero, List.nil_append]
    rfl
  · have hnat := toNat_toUInt64_of_nonneg hneg
    have hpos : 0 < v.toInt := by
      have := mt (lt_zero_iff v).mpr hneg
      omega
    obtain ⟨buf, hloop, htake⟩ :=
      storeDigits_spec v.toUInt64 (Vector.replicate 20 0) 0 (by rw [hnat]; omega)
    simp only [hneg, if_false, if_neg hzero, hloop, Option.map_some]
    rw [emitBackwards_eq putRune buf (by rw [hnat]; omega), htake, hnat, decimal_of_pos hpos,
      List.take_zero, List.nil_append]

end Stub

/-- `printInt` prints the decimal number and never leaves its buffer. -/
theorem printInt_eq (v : Int64) (s : σ) :
    printInt putRune v s = some (emit putRune (decimal v.toInt) s) := by
  obtain ⟨buf, hformat, -, htext⟩ := formatInt_spec v
  rw [printInt, hformat, Option.map_some, htext]

end Stub

/-- **Integers are printed exactly.** `FormatInt` stays within its buffer and leaves the canonical
numeral of every integer there, different integers get different texts, and both `PrintInt`s emit
that text. -/
theorem formatInt_exact (v : Int64) :
    ∃ s, formatInt v = some s ∧ s.start < 20 ∧ IsNumeral s.text v.toInt ∧
      (∀ w s', formatInt w = some s' → s'.text = s.text → w = v) ∧
      ∀ (σ : Type) (putRune : Int32 → σ → σ) (t : σ),
        printInt putRune v t = some (emit putRune s.text t) ∧
        Stub.printInt putRune v t = printInt putRune v t := by
  obtain ⟨s, hformat, hstart, htext⟩ := formatInt_spec v
  refine ⟨s, hformat, hstart, htext ▸ isNumeral_decimal v.toInt, ?_, ?_⟩
  · intro w s' hw heq
    obtain ⟨s'', hformat', -, htext'⟩ := formatInt_spec w
    obtain rfl : s' = s'' := Option.some.inj (hw.symm.trans hformat')
    have hnum : IsNumeral s.text w.toInt := heq ▸ htext' ▸ isNumeral_decimal w.toInt
    exact Int64.toInt_inj.mp (hnum.unique (htext ▸ isNumeral_decimal v.toInt))
  · intro σ putRune t
    rw [printInt_eq, Stub.printInt_spec, htext]
    exact ⟨rfl, rfl⟩

end DavOS.Terminal
