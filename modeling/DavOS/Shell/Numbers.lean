import DavOS.Lib.Numeral
import DavOS.Shell.Line
import Mathlib.Data.List.Forall2

/-!
# Numbers on the command line

Reference: `parseDec` and `parseHex64` of `shell/shell.go`.

The result is the pair that the source returns. An index outside `lineBuf` would be a panic, here
`none`.

Both functions read digit after digit into a machine word and check nothing but the digits: the
number they return is the value of the numeral modulo `2 ^ 64` (`parseDec_cases`,
`parseHex64_cases`).
-/

namespace DavOS.Shell

/-! ## Numerals -/

/-- The byte is a digit of value `d`; the digits above nine are letters of either case. -/
def IsDigit (b : UInt8) (d : ℕ) : Prop :=
  d < 10 ∧ b.toNat = 0x30 + d ∨
    10 ≤ d ∧ d < 16 ∧ (b.toNat = 0x61 + (d - 10) ∨ b.toNat = 0x41 + (d - 10))

instance (b : UInt8) (d : ℕ) : Decidable (IsDigit b d) := inferInstanceAs (Decidable (_ ∨ _))

/-- The text is a list of digits, each below the base. -/
def DigitText (base : ℕ) (text : List UInt8) (ds : List ℕ) : Prop :=
  List.Forall₂ (fun b d => IsDigit b d ∧ d < base) text ds

instance (base : ℕ) (text : List UInt8) (ds : List ℕ) : Decidable (DigitText base text ds) :=
  inferInstanceAs (Decidable (List.Forall₂ _ _ _))

/-- The text is a non-empty string of digits in the base, of value `n`. -/
def Denotes (base : ℕ) (text : List UInt8) (n : ℕ) : Prop :=
  text ≠ [] ∧ ∃ ds, DigitText base text ds ∧ Numeral.value base ds = n

/-- The text is a decimal numeral of value `n`. -/
def DecNumeral (text : List UInt8) (n : ℕ) : Prop := Denotes 10 text n

/-- The text is a hexadecimal numeral of value `n`, with or without the prefix `0x` or `0X`. -/
def HexNumeral (text : List UInt8) (n : ℕ) : Prop :=
  Denotes 16 text n ∨
    ∃ x rest, text = 0x30 :: x :: rest ∧ (x = 0x78 ∨ x = 0x58) ∧ Denotes 16 rest n

/-! ## The parsers -/

/-- The test and the digit of `parseDec`. -/
def decDigit (c : UInt8) : Option UInt8 := if c < 0x30 ∨ c > 0x39 then none else some (c - 0x30)

/-- The `switch` of `parseHex64`. -/
def hexDigitValue (c : UInt8) : Option UInt8 :=
  if c ≥ 0x30 ∧ c ≤ 0x39 then some (c - 0x30)
  else if c ≥ 0x61 ∧ c ≤ 0x66 then some (c - 0x61 + 10)
  else if c ≥ 0x41 ∧ c ≤ 0x46 then some (c - 0x41 + 10)
  else none

namespace Line

variable (line : Line)

/-- The loop of both parsers, with `k` positions left from position `i` on. `some none` is its early
return. -/
def readDigits {α : Type} (digit : UInt8 → Option UInt8) (step : α → UInt8 → α) :
    ℕ → ℕ → α → Option (Option α)
  | 0, _, acc => some (some acc)
  | k + 1, i, acc => do
    let c ← line.buf[i]?
    match digit c with
    | none => some none
    | some d => readDigits digit step k (i + 1) (step acc d)

/-- `n*10 + int(d)` -/
def decStep (n : Int64) (d : UInt8) : Int64 := n * 10 + Int64.ofNat d.toNat

/-- `(v << 4) | uint64(d)` -/
def hexStep (v : UInt64) (d : UInt8) : UInt64 := (v <<< 4) ||| d.toUInt64

/-- What both parsers return for the result of the loop. -/
def answer {α : Type} (zero : α) : Option α → α × Bool
  | none => (zero, false)
  | some n => (n, true)

def parseDec (start stop : ℕ) : Option (Int64 × Bool) :=
  if start ≥ stop then some (0, false)
  else (line.readDigits decDigit decStep (stop - start) start 0).map (answer 0)

/-- Whether `parseHex64` skips a prefix. -/
def hasPrefix (start stop : ℕ) : Option Bool :=
  if stop - start ≥ 2 then do
    let c ← line.buf[start]?
    if c = 0x30 then do
      let x ← line.buf[start + 1]?
      some (x = 0x78 ∨ x = 0x58 : Bool)
    else some false
  else some false

def parseHex64 (start stop : ℕ) : Option (UInt64 × Bool) :=
  if start ≥ stop then some (0, false)
  else do
    let skip ← line.hasPrefix start stop
    let start := if skip then start + 2 else start
    if start ≥ stop then some (0, false)
    else (line.readDigits hexDigitValue hexStep (stop - start) start 0).map (answer 0)

end Line

/-! ## Digits -/

/-- A byte is at most one digit. -/
theorem IsDigit.unique {b : UInt8} {d d' : ℕ} (h : IsDigit b d) (h' : IsDigit b d') : d = d' := by
  unfold IsDigit at h h'
  omega

/-- So a text is at most one sequence of digits. -/
theorem DigitText.unique {base : ℕ} {text : List UInt8} {ds ds' : List ℕ}
    (h : DigitText base text ds) (h' : DigitText base text ds') : ds = ds' := by
  induction h generalizing ds' with
  | nil =>
    cases h'
    rfl
  | cons hd _ ih =>
    cases h' with
    | cons hd' htext' => rw [hd.1.unique hd'.1, ih htext']

/-- So it denotes at most one number. -/
theorem Denotes.unique {base : ℕ} {text : List UInt8} {n n' : ℕ} (h : Denotes base text n)
    (h' : Denotes base text n') : n = n' := by
  obtain ⟨-, ds, hds, rfl⟩ := h
  obtain ⟨-, ds', hds', rfl⟩ := h'
  rw [hds.unique hds']

/-- A letter `x` is no digit, so a text with the prefix is no string of digits. -/
theorem not_denotes_letter {x : UInt8} {rest : List UInt8} {n : ℕ} (hx : x = 0x78 ∨ x = 0x58) :
    ¬ Denotes 16 (0x30 :: x :: rest) n := by
  rintro ⟨-, ds, hds, -⟩
  cases hds with
  | cons _ hds =>
    cases hds with
    | cons hd _ =>
      obtain ⟨hdigit, -⟩ := hd
      unfold IsDigit at hdigit
      rcases hx with rfl | rfl <;> simp at hdigit <;> omega

/-- With and without the mark `0x` a hexadecimal numeral has one value. -/
theorem HexNumeral.unique {text : List UInt8} {n n' : ℕ} (h : HexNumeral text n)
    (h' : HexNumeral text n') : n = n' := by
  rcases h with h | ⟨x, rest, rfl, hx, h⟩ <;> rcases h' with h' | ⟨x', rest', heq, hx', h'⟩
  · exact h.unique h'
  · subst heq
    exact absurd h (not_denotes_letter hx')
  · exact absurd h' (not_denotes_letter hx)
  · obtain ⟨-, -, rfl⟩ : (0x30 : UInt8) = 0x30 ∧ x = x' ∧ rest = rest' := by simpa using heq
    exact h.unique h'

/-- A function that finds the digits below the base. -/
structure Reads (base : ℕ) (digit : UInt8 → Option UInt8) : Prop where
  some : ∀ {c d}, digit c = some d → IsDigit c d.toNat ∧ d.toNat < base
  none : ∀ {c}, digit c = none → ∀ d < base, ¬ IsDigit c d

/-- A byte in a range of digits, and its distance from the first one. -/
theorem toNat_sub_eq {c lo : UInt8} (h : lo ≤ c) : (c - lo).toNat + lo.toNat = c.toNat := by
  rw [UInt8.toNat_sub_of_le _ _ h]
  exact Nat.sub_add_cancel (UInt8.le_iff_toNat_le.mp h)

/-- The letters of either case are the digits from 10 to 15. -/
theorem isDigit_letter {c lo : UInt8} (hcase : lo = 0x61 ∨ lo = 0x41) (hlo : lo ≤ c)
    (hhi : c.toNat ≤ lo.toNat + 5) :
    IsDigit c (c - lo + 10).toNat ∧ (c - lo + 10).toNat < 16 := by
  have hsub := toNat_sub_eq hlo
  have hadd : (c - lo + 10).toNat = (c - lo).toNat + 10 := by
    rw [UInt8.toNat_add]
    exact Nat.mod_eq_of_lt (show (c - lo).toNat + 10 < 2 ^ 8 by omega)
  have hnat : lo.toNat = 0x61 ∨ lo.toNat = 0x41 := hcase.imp (congrArg _) (congrArg _)
  rw [hadd]
  unfold IsDigit
  omega

/-- `decDigit` finds the decimal digits. -/
theorem reads_decDigit : Reads 10 decDigit where
  some := by
    intro c d h
    unfold decDigit at h
    split at h
    · cases h
    · next hc =>
      obtain rfl := Option.some.inj h
      obtain ⟨hlo, hhi⟩ := not_or.mp hc
      have hsub := toNat_sub_eq (UInt8.not_lt.mp hlo)
      rw [gt_iff_lt, UInt8.lt_iff_toNat_lt] at hhi
      simp only [UInt8.reduceToNat] at hhi hsub
      unfold IsDigit
      omega
  none := by
    intro c h d hd hdigit
    unfold decDigit at h
    split at h
    · next hc =>
      rw [UInt8.lt_iff_toNat_lt, gt_iff_lt, UInt8.lt_iff_toNat_lt] at hc
      simp only [UInt8.reduceToNat] at hc
      unfold IsDigit at hdigit
      omega
    · cases h

/-- `hexDigitValue` finds the hexadecimal digits. -/
theorem reads_hexDigitValue : Reads 16 hexDigitValue where
  some := by
    intro c d h
    unfold hexDigitValue at h
    split_ifs at h with h1 h2 h3 <;> obtain rfl := Option.some.inj h
    · have hsub := toNat_sub_eq h1.1
      have hhi := UInt8.le_iff_toNat_le.mp h1.2
      simp only [UInt8.reduceToNat] at hhi hsub
      unfold IsDigit
      omega
    · exact isDigit_letter (.inl rfl) h2.1 (UInt8.le_iff_toNat_le.mp h2.2)
    · exact isDigit_letter (.inr rfl) h3.1 (UInt8.le_iff_toNat_le.mp h3.2)
  none := by
    intro c h d hd hdigit
    unfold hexDigitValue at h
    split_ifs at h with h1 h2 h3
    simp only [ge_iff_le, UInt8.le_iff_toNat_le, UInt8.reduceToNat] at h1 h2 h3
    unfold IsDigit at hdigit
    omega

/-! ## The answer of a parser -/

section Answer

variable {α : Type} {numeral : ℕ → Prop} {word : ℕ → α} {zero : α} {result : Option (α × Bool)}

/-- A numeral is answered with its word, and everything else is refused. -/
theorem answer_of_numeral (hunique : ∀ n n', numeral n → numeral n' → n = n')
    (h : (∃ n, numeral n ∧ result = some (word n, true)) ∨
      (∀ n, ¬ numeral n) ∧ result = some (zero, false)) {n : ℕ} (hn : numeral n) :
    result = some (word n, true) := by
  rcases h with ⟨n', hn', heq⟩ | ⟨hnot, -⟩
  · rw [heq, hunique n n' hn hn']
  · exact absurd hn (hnot n)

/-- A text that is no numeral is refused. -/
theorem answer_of_not (h : (∃ n, numeral n ∧ result = some (word n, true)) ∨
      (∀ n, ¬ numeral n) ∧ result = some (zero, false)) (hnot : ∀ n, ¬ numeral n) :
    result = some (zero, false) := by
  rcases h with ⟨n, hn, -⟩ | ⟨-, heq⟩
  · exact absurd hn (hnot n)
  · exact heq

/-- A parser that answers by numeral accepts exactly the values of the numeral. -/
theorem accepted_iff (hunique : ∀ n n', numeral n → numeral n' → n = n')
    (h : (∃ n, numeral n ∧ result = some (word n, true)) ∨
      (∀ n, ¬ numeral n) ∧ result = some (zero, false)) (v : α) :
    result = some (v, true) ↔ ∃ n, numeral n ∧ v = word n := by
  constructor
  · intro hv
    by_cases hnumeral : ∃ n, numeral n
    · obtain ⟨n, hn⟩ := hnumeral
      cases hv.symm.trans (answer_of_numeral hunique h hn)
      exact ⟨n, hn, rfl⟩
    · cases hv.symm.trans (answer_of_not h (not_exists.mp hnumeral))
  · rintro ⟨n, hn, rfl⟩
    exact answer_of_numeral hunique h hn

end Answer

/-! ## What the parsers return -/

namespace Line

variable (line : Line)

/-- Positions of the line are in the buffer. -/
theorem getElem?_buf {i : ℕ} (h : i < maxLine) : line.buf[i]? = some line.buf[i]! := by
  rw [getElem!_pos line.buf i h, getElem?_pos line.buf i h]

section Loop

variable {α : Type} {base : ℕ} {digit : UInt8 → Option UInt8} {step : α → UInt8 → α}
  (cast : ℕ → α)

/-- **The loop reads a string of digits**, in the arithmetic of `step`. -/
theorem readDigits_cases (hdigit : Reads base digit)
    (hstep : ∀ n (d : UInt8), d.toNat < base → step (cast n) d = cast (n * base + d.toNat))
    (k : ℕ) {i : ℕ} (h : i + k ≤ maxLine) (n : ℕ) :
    (∃ ds, DigitText base (line.slice i (i + k)) ds ∧
      line.readDigits digit step k i (cast n) =
        some (some (cast (ds.foldl (fun n d => n * base + d) n)))) ∨
    ((∀ ds, ¬ DigitText base (line.slice i (i + k)) ds) ∧
      line.readDigits digit step k i (cast n) = some none) := by
  induction k generalizing i n with
  | zero =>
    left
    refine ⟨[], ?_, rfl⟩
    rw [Nat.add_zero, line.slice_eq_nil le_rfl]
    exact .nil
  | succ k ih =>
    rw [line.slice_cons (by omega) h, readDigits, line.getElem?_buf (by omega),
      Option.bind_eq_bind, Option.bind_some]
    cases hc : digit line.buf[i]! with
    | none =>
      right
      refine ⟨?_, rfl⟩
      intro ds hds
      cases hds with
      | cons hd _ => exact hdigit.none hc _ hd.2 hd.1
    | some d =>
      obtain ⟨hd, hlt⟩ := hdigit.some hc
      dsimp only
      rw [hstep n d hlt]
      rcases ih (i := i + 1) (by omega) (n * base + d.toNat) with ⟨ds, hds, hread⟩ | ⟨hnot, hread⟩
      · left
        rw [Nat.add_assoc, Nat.add_comm 1 k] at hds
        exact ⟨d.toNat :: ds, .cons ⟨hd, hlt⟩ hds, hread⟩
      · right
        rw [Nat.add_assoc, Nat.add_comm 1 k] at hnot
        refine ⟨?_, hread⟩
        intro ds hds
        cases hds with
        | cons _ hds => exact hnot _ hds

/-- The loop over the digits reads the number of the text, or refuses a text that denotes none. -/
theorem denotes_cases (zero : α) (hdigit : Reads base digit)
    (hstep : ∀ n (d : UInt8), d.toNat < base → step (cast n) d = cast (n * base + d.toNat))
    {start stop : ℕ} (h : start < stop) (hstop : stop ≤ maxLine) :
    (∃ n, Denotes base (line.slice start stop) n ∧
      (line.readDigits digit step (stop - start) start (cast 0)).map (answer zero) =
        some (cast n, true)) ∨
    ((∀ n, ¬ Denotes base (line.slice start stop) n) ∧
      (line.readDigits digit step (stop - start) start (cast 0)).map (answer zero) =
        some (zero, false)) := by
  have hne : line.slice start stop ≠ [] := by
    rw [line.slice_cons h hstop]
    exact List.cons_ne_nil _ _
  have hcases := line.readDigits_cases cast hdigit hstep (stop - start) (i := start) (by omega) 0
  rw [Nat.add_sub_cancel' h.le] at hcases
  rcases hcases with ⟨ds, hds, hread⟩ | ⟨hnot, hread⟩
  · left
    refine ⟨Numeral.value base ds, ⟨hne, ds, hds, rfl⟩, ?_⟩
    rw [hread, Numeral.foldl_eq_value]
    rfl
  · right
    refine ⟨?_, by rw [hread]; rfl⟩
    rintro n ⟨-, ds, hds, -⟩
    exact hnot ds hds

end Loop

/-- A step of the decimal loop is one on numbers modulo `2 ^ 64`. -/
theorem decStep_ofNat (n : ℕ) (d : UInt8) :
    decStep (Int64.ofNat n) d = Int64.ofNat (n * 10 + d.toNat) := by
  rw [Int64.ofNat_add, Int64.ofNat_mul]
  rfl

/-- So is one of the hexadecimal loop, where the shift and the `or` are an addition. -/
theorem hexStep_ofNat (n : ℕ) {d : UInt8} (hd : d.toNat < 16) :
    hexStep (UInt64.ofNat n) d = UInt64.ofNat (n * 16 + d.toNat) := by
  have hshift : (UInt64.ofNat n <<< 4).toNat = (n % 2 ^ 60) <<< 4 := by
    rw [UInt64.toNat_shiftLeft, UInt64.toNat_ofNat', Nat.shiftLeft_eq, Nat.shiftLeft_eq]
    change n % 2 ^ 64 * 16 % 2 ^ 64 = n % 2 ^ 60 * 16
    omega
  rw [hexStep, ← UInt64.toNat_inj, UInt64.toNat_or, hshift, UInt8.toNat_toUInt64,
    ← Nat.shiftLeft_add_eq_or_of_lt hd, Nat.shiftLeft_eq, UInt64.toNat_ofNat']
  omega

/-- **`parseDec` reads decimal numerals**, modulo `2 ^ 64`, and refuses all other texts. -/
theorem parseDec_cases (start : ℕ) {stop : ℕ} (hstop : stop ≤ maxLine) :
    (∃ n, DecNumeral (line.slice start stop) n ∧
      line.parseDec start stop = some (Int64.ofNat n, true)) ∨
    ((∀ n, ¬ DecNumeral (line.slice start stop) n) ∧
      line.parseDec start stop = some (0, false)) := by
  rw [parseDec]
  by_cases hempty : start ≥ stop
  · rw [if_pos hempty, line.slice_eq_nil hempty]
    exact .inr ⟨fun n hn => hn.1 rfl, rfl⟩
  · rw [if_neg hempty]
    exact line.denotes_cases Int64.ofNat 0 reads_decDigit (fun n d _ => decStep_ofNat n d)
      (not_le.mp hempty) hstop

/-- The prefix, where there is one, is the start of the text. -/
theorem hasPrefix_cases {start stop : ℕ} (h : start < stop) (hstop : stop ≤ maxLine) :
    (line.hasPrefix start stop = some true ∧ ∃ x, (x = 0x78 ∨ x = 0x58) ∧ start + 2 ≤ stop ∧
      line.slice start stop = 0x30 :: x :: line.slice (start + 2) stop) ∨
    (line.hasPrefix start stop = some false ∧
      ∀ x rest, line.slice start stop = 0x30 :: x :: rest → ¬ (x = 0x78 ∨ x = 0x58)) := by
  have hcons := line.slice_cons h hstop
  rw [hasPrefix]
  by_cases htwo : stop - start ≥ 2
  swap
  · right
    rw [if_neg htwo]
    refine ⟨rfl, ?_⟩
    intro x rest heq
    have hlen : (line.slice start stop).length = stop - start := line.length_slice hstop
    rw [heq, List.length_cons, List.length_cons] at hlen
    omega
  have hcons' : line.slice (start + 1) stop =
      line.buf[start + 1]! :: line.slice (start + 2) stop := line.slice_cons (by omega) hstop
  rw [hcons'] at hcons
  rw [if_pos htwo, line.getElem?_buf (by omega), line.getElem?_buf (by omega)]
  simp only [Option.bind_eq_bind, Option.bind_some]
  by_cases hzero : line.buf[start]! = 0x30
  · rw [if_pos hzero]
    by_cases hx : line.buf[start + 1]! = 0x78 ∨ line.buf[start + 1]! = 0x58
    · left
      refine ⟨congrArg some (decide_eq_true hx), _, hx, by omega, ?_⟩
      rw [hcons, hzero]
    · right
      refine ⟨congrArg some (decide_eq_false hx), ?_⟩
      intro x rest heq
      rw [hcons, List.cons.injEq, List.cons.injEq] at heq
      rwa [← heq.2.1]
  · right
    rw [if_neg hzero]
    refine ⟨rfl, ?_⟩
    intro x rest heq
    rw [hcons, List.cons.injEq] at heq
    exact absurd heq.1 hzero

/-- **`parseHex64` reads hexadecimal numerals**, modulo `2 ^ 64`, and refuses all other texts. -/
theorem parseHex64_cases (start : ℕ) {stop : ℕ} (hstop : stop ≤ maxLine) :
    (∃ n, HexNumeral (line.slice start stop) n ∧
      line.parseHex64 start stop = some (UInt64.ofNat n, true)) ∨
    ((∀ n, ¬ HexNumeral (line.slice start stop) n) ∧
      line.parseHex64 start stop = some (0, false)) := by
  rw [parseHex64]
  by_cases hempty : start ≥ stop
  · rw [if_pos hempty, line.slice_eq_nil hempty]
    refine .inr ⟨?_, rfl⟩
    rintro n (hn | ⟨x, rest, htext, -⟩)
    · exact hn.1 rfl
    · cases htext
  rw [if_neg hempty]
  have hread {first : ℕ} (hlt : first < stop) :=
    line.denotes_cases UInt64.ofNat 0 reads_hexDigitValue (fun n d hd => hexStep_ofNat n hd)
      hlt hstop
  rcases line.hasPrefix_cases (not_le.mp hempty) hstop with
    ⟨hskip, x, hx, hle, hslice⟩ | ⟨hskip, hnone⟩
  · have hiff : ∀ n, HexNumeral (line.slice start stop) n ↔
        Denotes 16 (line.slice (start + 2) stop) n := by
      intro n
      rw [hslice]
      constructor
      · rintro (hn | ⟨x', rest, heq, -, hn⟩)
        · exact absurd hn (not_denotes_letter hx)
        · obtain ⟨-, -, rfl⟩ : (0x30 : UInt8) = 0x30 ∧ x = x' ∧
            line.slice (start + 2) stop = rest := by simpa using heq
          exact hn
      · exact fun hn => .inr ⟨x, _, rfl, hx, hn⟩
    simp only [hskip, hiff, Option.bind_eq_bind, Option.bind_some, if_true]
    by_cases hend : start + 2 ≥ stop
    · rw [if_pos hend, line.slice_eq_nil hend]
      exact .inr ⟨fun n hn => hn.1 rfl, rfl⟩
    · rw [if_neg hend]
      exact hread (not_le.mp hend)
  · have hiff : ∀ n, HexNumeral (line.slice start stop) n ↔
        Denotes 16 (line.slice start stop) n := by
      intro n
      constructor
      · rintro (hn | ⟨x, rest, heq, hx, -⟩)
        · exact hn
        · exact absurd hx (hnone x rest heq)
      · exact .inl
    simp only [hskip, hiff, Option.bind_eq_bind, Option.bind_some, Bool.false_eq_true, if_false,
      if_neg hempty]
    exact hread (not_le.mp hempty)

variable {start stop : ℕ} {n : ℕ}

/-- `parseDec` reads a decimal numeral. -/
theorem parseDec_of_numeral (hstop : stop ≤ maxLine)
    (hn : DecNumeral (line.slice start stop) n) :
    line.parseDec start stop = some (Int64.ofNat n, true) :=
  answer_of_numeral (fun _ _ h h' => h.unique h') (line.parseDec_cases start hstop) hn

/-- `parseDec` refuses what is no decimal numeral. -/
theorem parseDec_of_not (hstop : stop ≤ maxLine)
    (hnot : ∀ n, ¬ DecNumeral (line.slice start stop) n) :
    line.parseDec start stop = some (0, false) :=
  answer_of_not (line.parseDec_cases start hstop) hnot

/-- `parseHex64` reads a hexadecimal numeral. -/
theorem parseHex64_of_numeral (hstop : stop ≤ maxLine)
    (hn : HexNumeral (line.slice start stop) n) :
    line.parseHex64 start stop = some (UInt64.ofNat n, true) :=
  answer_of_numeral (fun _ _ h h' => h.unique h') (line.parseHex64_cases start hstop) hn

/-- `parseHex64` refuses what is no hexadecimal numeral. -/
theorem parseHex64_of_not (hstop : stop ≤ maxLine)
    (hnot : ∀ n, ¬ HexNumeral (line.slice start stop) n) :
    line.parseHex64 start stop = some (0, false) :=
  answer_of_not (line.parseHex64_cases start hstop) hnot

end Line

/-! ## Decimal and hexadecimal -/

/-- A decimal numeral is a hexadecimal one too, in general of another value. -/
theorem DecNumeral.exists_hexNumeral {text : List UInt8} {d : ℕ} (h : DecNumeral text d) :
    ∃ n, HexNumeral text n := by
  obtain ⟨hne, ds, hds, -⟩ := h
  have hds' : DigitText 16 text ds := hds.imp fun b d hd => ⟨hd.1, hd.2.trans (by decide)⟩
  exact ⟨_, .inl ⟨hne, ds, hds', rfl⟩⟩

/-- Decimal numerals are hexadecimal ones. -/
theorem not_decNumeral_of_not_hex {text : List UInt8} (h : ∀ n, ¬ HexNumeral text n) (d : ℕ) :
    ¬ DecNumeral text d := by
  intro hd
  obtain ⟨n, hn⟩ := hd.exists_hexNumeral
  exact h n hn

/-- A number that is read as a signed word is reduced modulo `2 ^ 64` around zero. -/
theorem toInt_ofNat_eq_bmod (n : ℕ) : (Int64.ofNat n).toInt = (n : ℤ).bmod (2 ^ 64) :=
  Int64.toInt_ofNat'

/-- A number is kept by the conversion to `int` exactly if it fits. -/
theorem toInt_ofNat_eq_iff (n : ℕ) : (Int64.ofNat n).toInt = n ↔ n < 2 ^ 63 := by
  constructor
  · intro heq
    have hlt := (Int64.ofNat n).toInt_lt
    omega
  · intro hlt
    exact Int64.toInt_ofNat_of_lt hlt

/-- An unsigned word is the number if it fits. -/
theorem toNat_ofNat_eq_iff (n : ℕ) : (UInt64.ofNat n).toNat = n ↔ n < 2 ^ 64 := by
  rw [UInt64.toNat_ofNat']
  omega

/-! ## The numbers that are read -/

/-- The positions hold a numeral, which is read modulo `2 ^ 64` and exactly if it fits, or they are
refused. -/
structure NumbersRead (line : Line) (start stop : ℕ) : Prop where
  dec : ∀ v, line.parseDec start stop = some (v, true) ↔
    ∃ n : ℕ, DecNumeral (line.slice start stop) n ∧ v.toInt = (n : ℤ).bmod (2 ^ 64)
  dec_exact : ∀ v (n : ℕ), line.parseDec start stop = some (v, true) →
    DecNumeral (line.slice start stop) n → (v.toInt = n ↔ n < 2 ^ 63)
  dec_refused : (∀ n, ¬ DecNumeral (line.slice start stop) n) →
    line.parseDec start stop = some (0, false)
  hex : ∀ v, line.parseHex64 start stop = some (v, true) ↔
    ∃ n, HexNumeral (line.slice start stop) n ∧ v.toNat = n % 2 ^ 64
  hex_exact : ∀ v n, line.parseHex64 start stop = some (v, true) →
    HexNumeral (line.slice start stop) n → (v.toNat = n ↔ n < 2 ^ 64)
  hex_refused : (∀ n, ¬ HexNumeral (line.slice start stop) n) →
    line.parseHex64 start stop = some (0, false)

/-- Both parsers read the numerals, at any positions of the line. -/
theorem numbersRead (line : Line) (start : ℕ) {stop : ℕ} (hstop : stop ≤ maxLine) :
    NumbersRead line start stop where
  dec v := by
    rw [accepted_iff (fun _ _ hn hn' => hn.unique hn') (line.parseDec_cases start hstop)]
    refine exists_congr fun n => and_congr_right fun _ => ?_
    rw [← toInt_ofNat_eq_bmod, Int64.toInt_inj]
  dec_exact v n hv hn := by
    rw [line.parseDec_of_numeral hstop hn] at hv
    cases hv
    exact toInt_ofNat_eq_iff n
  dec_refused := line.parseDec_of_not hstop
  hex v := by
    rw [accepted_iff (fun _ _ hn hn' => hn.unique hn') (line.parseHex64_cases start hstop)]
    refine exists_congr fun n => and_congr_right fun _ => ?_
    rw [← UInt64.toNat_ofNat', UInt64.toNat_inj]
  hex_exact v n hv hn := by
    rw [line.parseHex64_of_numeral hstop hn] at hv
    cases hv
    exact toNat_ofNat_eq_iff n
  hex_refused := line.parseHex64_of_not hstop

end DavOS.Shell
