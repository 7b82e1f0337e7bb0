import Mathlib.Algebra.BigOperators.Fin
import Mathlib.Algebra.Field.ZMod
import Mathlib.Dynamics.PeriodicPts.Defs
import Mathlib.Data.Nat.Prime.Basic

/-!
# Feedback shift registers, most significant bit first

A register of width `w` with feedback word `g` divides a bit stream by the polynomial
`x ^ w + g` over the two-element field. `step` is multiplication by `x`, `push` takes one more
bit of the stream, `feed` a whole stream.

Everything below rests on two facts. A step is linear for exclusive or (`step_xor`), so the
registers reached from two streams differ by what their difference alone produces (`feed_xor`).
And a step is injective as soon as the feedback word is odd (`step_injective`), so a difference
that once reached the register is never shifted out again.

## Main results

* `feed_eq_iterate` — up to `w` bits may be loaded at once, before the shifts
* `feed_append_eq_zero_iff` — a stream followed by `w` bits leaves the zero register exactly when
  these bits are the register the stream leaves
* `feed_zero_ne_zero_of_odd`, `feed_zero_ne_zero_of_pair`, `feed_zero_ne_zero_of_burst` — the three
  classes of differences that a register detects
-/

namespace Lfsr

variable {w : ℕ}

/-- One shift of the register: multiplication by `x`, reduced by the feedback word. -/
def step (g r : BitVec w) : BitVec w :=
  if r.msb then r <<< 1 ^^^ g else r <<< 1

/-- One more input bit: it is added to the bit that leaves the register at the top. -/
def push (g r : BitVec w) (b : Bool) : BitVec w :=
  if r.msb ^^ b then r <<< 1 ^^^ g else r <<< 1

/-- The register after a whole stream of input bits. -/
def feed (g r : BitVec w) (bs : List Bool) : BitVec w :=
  bs.foldl (push g) r

/-- The word whose leading bits are `bs`. -/
def word (w : ℕ) : List Bool → BitVec w
  | [] => 0#w
  | b :: bs => (if b then BitVec.twoPow w (w - 1) else 0#w) ^^^ word w bs >>> 1

/-- The bits of a word, most significant first. -/
def msbBits (v : BitVec w) : List Bool :=
  List.ofFn fun i : Fin w => v.getMsbD i

@[simp] theorem length_msbBits (v : BitVec w) : (msbBits v).length = w := by
  simp [msbBits]

@[simp] theorem getElem_msbBits (v : BitVec w) (i : ℕ) (h : i < (msbBits v).length) :
    (msbBits v)[i] = v.getMsbD i := by
  simp [msbBits]

/-- Behind the bits of a word there are zeros. -/
theorem getD_msbBits (v : BitVec w) (i : ℕ) : (msbBits v).getD i false = v.getMsbD i := by
  rw [List.getD_eq_getElem?_getD]
  by_cases h : i < w
  · rw [List.getElem?_eq_getElem (by simpa using h), Option.getD_some, getElem_msbBits]
  · rw [List.getElem?_eq_none (by simpa using h), Option.getD_none,
      BitVec.getMsbD_of_ge v i (by omega)]

@[simp] theorem feed_nil (g r : BitVec w) : feed g r [] = r := rfl

@[simp] theorem feed_cons (g r : BitVec w) (b : Bool) (bs : List Bool) :
    feed g r (b :: bs) = feed g (push g r b) bs := rfl

/-- Streams are fed piece by piece. -/
theorem feed_append (g r : BitVec w) (as bs : List Bool) :
    feed g r (as ++ bs) = feed g (feed g r as) bs := by
  rw [feed, List.foldl_append]
  rfl

/-! ## Linearity -/

/-- The feedback of both registers cancels. -/
private theorem xor_xor_cancel (a b g : BitVec w) : a ^^^ b = a ^^^ g ^^^ (b ^^^ g) := by
  rw [BitVec.xor_assoc a g, ← BitVec.xor_assoc g b g, BitVec.xor_comm g b, BitVec.xor_assoc b g g,
    BitVec.xor_self, BitVec.xor_zero]

/-- Two registers fed side by side add up to the register fed with the sum. -/
theorem push_xor (g r s : BitVec w) (b c : Bool) :
    push g (r ^^^ s) (b ^^ c) = push g r b ^^^ push g s c := by
  have hbit : ((r ^^^ s).msb ^^ (b ^^ c)) = ((r.msb ^^ b) ^^ (s.msb ^^ c)) := by
    rw [BitVec.msb_xor]
    cases r.msb <;> cases s.msb <;> cases b <;> cases c <;> rfl
  simp only [push, hbit, BitVec.shiftLeft_xor_distrib]
  cases r.msb ^^ b <;> cases s.msb ^^ c <;>
    simp only [Bool.xor_false, Bool.xor_true, Bool.not_false, Bool.not_true, Bool.false_eq_true,
      if_true, if_false]
  · rw [BitVec.xor_assoc]
  · rw [BitVec.xor_assoc, BitVec.xor_comm _ g, ← BitVec.xor_assoc]
  · exact xor_xor_cancel _ _ _

/-- A zero bit is a shift. -/
theorem push_false (g r : BitVec w) : push g r false = step g r := by
  rw [push, step, Bool.xor_false]

/-- A shift is linear. -/
theorem step_xor (g r s : BitVec w) : step g (r ^^^ s) = step g r ^^^ step g s := by
  have h := push_xor g r s false false
  simpa only [push_false, Bool.xor_false] using h

@[simp] theorem step_zero (g : BitVec w) : step g 0#w = 0#w := by
  simp [step]

@[simp] theorem iterate_step_zero (g : BitVec w) (n : ℕ) : (step g)^[n] 0#w = 0#w :=
  Function.iterate_fixed (step_zero g) n

/-- The registers reached from two streams of one length differ by what the difference of the
streams leaves. -/
theorem feed_xor (g r s : BitVec w) {as bs : List Bool} (h : as.length = bs.length) :
    feed g (r ^^^ s) (List.zipWith xor as bs) = feed g r as ^^^ feed g s bs := by
  induction as generalizing r s bs with
  | nil =>
    obtain rfl : bs = [] := List.length_eq_zero_iff.mp h.symm
    rfl
  | cons a as ih =>
    match bs, h with
    | b :: bs, h =>
      rw [List.zipWith_cons_cons, feed_cons, feed_cons, feed_cons, push_xor]
      exact ih _ _ (by simpa using h)

/-- A stream of zeros is a number of shifts. -/
theorem feed_replicate_false (g r : BitVec w) (n : ℕ) :
    feed g r (List.replicate n false) = (step g)^[n] r := by
  induction n generalizing r with
  | zero => rfl
  | succ n ih => rw [List.replicate_succ, feed_cons, push_false, ih, Function.iterate_succ_apply]

/-! ## Loading several bits at once -/

/-- A word that is made of a list has its bits, as far as they go. -/
theorem getMsbD_word (bs : List Bool) (i : ℕ) :
    (word w bs).getMsbD i = (decide (i < w) && bs.getD i false) := by
  induction bs generalizing i with
  | nil => simp [word]
  | cons b bs ih =>
    rw [word, BitVec.getMsbD_xor, BitVec.getMsbD_ushiftRight]
    match i with
    | 0 =>
      cases b
      · simp
      · rw [if_pos rfl, BitVec.getMsbD_twoPow, ← Bool.decide_and]
        by_cases hw : 0 < w
        · rw [decide_eq_true (by omega : w - 1 < w ∧ 0 = w - (w - 1) - 1)]
          simp [hw]
        · simp [hw]
    | i + 1 =>
      have htop : (if b then BitVec.twoPow w (w - 1) else 0#w).getMsbD (i + 1) = false := by
        cases b
        · simp
        · simp only [if_true, BitVec.getMsbD_twoPow, Bool.and_eq_false_imp, decide_eq_true_eq,
            decide_eq_false_iff_not]
          omega
      rw [htop, Nat.add_sub_cancel, ih]
      by_cases h : i + 1 < w
      · have h' : i < w := by omega
        simp [h, h']
      · simp [h]

/-- A word is given back by its own bits. -/
theorem word_msbBits (v : BitVec w) : word w (msbBits v) = v := by
  refine BitVec.eq_of_getMsbD_eq fun i hi => ?_
  rw [getMsbD_word, getD_msbBits, decide_eq_true hi, Bool.true_and]

/-- Adding the input bit to the top of the register and shifting is taking the bit in. -/
theorem push_eq_step (g r : BitVec w) (hw : 0 < w) (b : Bool) :
    push g r b = step g (r ^^^ if b then BitVec.twoPow w (w - 1) else 0#w) := by
  cases b with
  | false => simp [push_false]
  | true =>
    have htop : (BitVec.twoPow w (w - 1)).msb = true := by
      rw [BitVec.msb_eq_getMsbD_zero, BitVec.getMsbD_twoPow]
      simp only [Bool.and_eq_true, decide_eq_true_eq]
      omega
    have hshift : BitVec.twoPow w (w - 1) <<< 1 = 0#w := by
      refine BitVec.eq_of_getLsbD_eq fun i hi => ?_
      rw [BitVec.getLsbD_shiftLeft, BitVec.getLsbD_twoPow]
      simp only [hi, BitVec.getLsbD_zero, decide_true, Bool.true_and, Bool.and_eq_false_imp,
        decide_eq_false_iff_not, Bool.not_eq_true', decide_eq_true_eq]
      omega
    simp only [push, step, if_true, BitVec.msb_xor, htop, BitVec.shiftLeft_xor_distrib, hshift,
      BitVec.xor_zero]

/-- A word that leaves its last place empty is moved back up by one shift. -/
private theorem step_word_ushiftRight (g : BitVec w) {bs : List Bool} (h : bs.length < w) :
    step g (word w bs >>> 1) = word w bs := by
  have hmsb : (word w bs >>> 1).msb = false := by
    rw [BitVec.msb_eq_getMsbD_zero, BitVec.getMsbD_ushiftRight]
    simp
  rw [step, hmsb, if_neg Bool.false_ne_true]
  refine BitVec.eq_of_getMsbD_eq fun i hi => ?_
  rw [BitVec.getMsbD_shiftLeft, BitVec.getMsbD_ushiftRight, getMsbD_word, Nat.add_sub_cancel,
    getMsbD_word]
  by_cases hi' : i + 1 < w
  · simp [hi, hi']
  · -- the last place: `bs` is too short to reach it
    have hlen : bs.length ≤ i := by omega
    simp [hi, hi', hlen]

/-- **Loading at once.** Taking in up to `w` bits one by one is adding them to the leading places
of the register and shifting as often. -/
theorem feed_eq_iterate (g r : BitVec w) {bs : List Bool} (h : bs.length ≤ w) :
    feed g r bs = (step g)^[bs.length] (r ^^^ word w bs) := by
  induction bs generalizing r with
  | nil => simp [word]
  | cons b bs ih =>
    have hlen : bs.length < w := by simpa using h
    rw [feed_cons, ih _ hlen.le, push_eq_step g r (by omega), List.length_cons,
      Function.iterate_succ_apply, word, ← BitVec.xor_assoc, step_xor g _ (word w bs >>> 1),
      step_word_ushiftRight g hlen]

/-! ## Injectivity -/

/-- With an odd feedback word no register but zero is shifted to zero. -/
theorem step_eq_zero_iff {g : BitVec w} (hg : g.getLsbD 0 = true) {r : BitVec w} :
    step g r = 0#w ↔ r = 0#w := by
  constructor
  · intro h
    have hw : 0 < w := BitVec.lt_of_getLsbD hg
    -- the lowest bit after the shift is the feedback, hence the bit that left at the top
    have hlow := congrArg (fun v => v.getLsbD 0) h
    have hmsb : r.msb = false := by
      by_contra hm
      rw [Bool.not_eq_false] at hm
      simp [step, hm, hg] at hlow
    rw [step, hmsb, if_neg Bool.false_ne_true] at h
    refine BitVec.eq_of_getMsbD_eq fun i hi => ?_
    match i with
    | 0 => rw [← BitVec.msb_eq_getMsbD_zero, hmsb, BitVec.getMsbD_zero]
    | i + 1 =>
      have hbit := congrArg (fun v => v.getMsbD i) h
      have hi' : i < w := by omega
      simpa [BitVec.getMsbD_shiftLeft, hi', Nat.add_comm] using hbit
  · rintro rfl
    exact step_zero g

/-- If the feedback word is odd, no two registers have the same successor. -/
theorem step_injective {g : BitVec w} (hg : g.getLsbD 0 = true) :
    Function.Injective (step g) := by
  intro r s h
  rw [← BitVec.xor_eq_zero_iff, ← step_xor, step_eq_zero_iff hg, BitVec.xor_eq_zero_iff] at h
  exact h

/-- So shifts do not lead to zero. -/
theorem iterate_step_eq_zero_iff {g : BitVec w} (hg : g.getLsbD 0 = true) {r : BitVec w} (n : ℕ) :
    (step g)^[n] r = 0#w ↔ r = 0#w := by
  have h := ((step_injective hg).iterate n).eq_iff (a := r) (b := 0#w)
  rwa [iterate_step_zero] at h

/-- **Checking by dividing on.** A stream followed by `w` more bits leaves the zero register exactly
when these bits spell the register that the stream itself leaves. -/
theorem feed_append_eq_zero_iff {g : BitVec w} (hg : g.getLsbD 0 = true) (r : BitVec w)
    (bs : List Bool) (v : BitVec w) :
    feed g r (bs ++ msbBits v) = 0#w ↔ v = feed g r bs := by
  rw [feed_append, feed_eq_iterate g _ (length_msbBits v).le, iterate_step_eq_zero_iff hg,
    word_msbBits, BitVec.xor_eq_zero_iff, eq_comm]

/-! ## Parity -/

/-- The number of ones of a word, modulo two. -/
def parity (r : BitVec w) : ZMod 2 := ∑ i : Fin w, if r.getMsbD i then 1 else 0

/-- The number of ones of a stream, modulo two. -/
def parityBits (bs : List Bool) : ZMod 2 := (bs.map fun b => if b then (1 : ZMod 2) else 0).sum

@[simp] theorem parity_zero : parity 0#w = 0 := by
  simp [parity]

/-- The parity is linear. -/
theorem parity_xor (r s : BitVec w) : parity (r ^^^ s) = parity r + parity s := by
  rw [parity, parity, parity, ← Finset.sum_add_distrib]
  refine Finset.sum_congr rfl fun i _ => ?_
  rw [BitVec.getMsbD_xor]
  cases r.getMsbD i <;> cases s.getMsbD i <;> decide

/-- A shift loses the bit at the top. -/
theorem parity_shiftLeft_one (r : BitVec w) :
    parity (r <<< 1) + (if r.msb then 1 else 0) = parity r := by
  match w, r with
  | 0, r => simp [parity, BitVec.eq_nil r]
  | w + 1, r =>
    rw [parity, parity, Fin.sum_univ_castSucc, Fin.sum_univ_succ, BitVec.msb_eq_getMsbD_zero,
      add_comm (ite _ _ _)]
    congr 1
    have hlast : (r <<< 1).getMsbD (Fin.last w) = false := by
      rw [BitVec.getMsbD_shiftLeft]
      simp
    rw [hlast, if_neg Bool.false_ne_true, add_zero]
    refine Finset.sum_congr rfl fun i _ => ?_
    rw [BitVec.getMsbD_shiftLeft]
    simp

/-- A feedback word of odd weight keeps the parity of the register and the input together: the bit
that leaves at the top takes an odd number of ones with it. -/
theorem parity_push {g : BitVec w} (hg : parity g = 1) (r : BitVec w) (b : Bool) :
    parity (push g r b) = parity r + if b then 1 else 0 := by
  have hshift := parity_shiftLeft_one r
  have hone : (1 : ZMod 2) + 1 = 0 := by decide
  cases hm : r.msb <;> cases b <;>
    simp only [hm, Bool.false_eq_true, if_true, if_false] at hshift <;>
    simp only [push, hm, Bool.xor_false, Bool.xor_true, Bool.not_true, Bool.not_false,
      Bool.false_eq_true, if_true, if_false, parity_xor, hg, ← hshift, add_zero]
  rw [add_assoc, hone, add_zero]

/-- If the feedback word has an odd number of ones, the register keeps the parity of its input. -/
theorem parity_feed {g : BitVec w} (hg : parity g = 1) (r : BitVec w) (bs : List Bool) :
    parity (feed g r bs) = parity r + parityBits bs := by
  induction bs generalizing r with
  | nil => simp [parityBits]
  | cons b bs ih =>
    rw [feed_cons, ih, parity_push hg, parityBits, parityBits, List.map_cons, List.sum_cons,
      add_assoc]

/-! ## Detected differences -/

/-- A difference with an odd number of ones is detected. -/
theorem feed_zero_ne_zero_of_odd {g : BitVec w} (hg : parity g = 1) {e : List Bool}
    (he : parityBits e = 1) : feed g 0#w e ≠ 0#w := by
  intro h
  have hp := parity_feed hg 0#w e
  rw [h, parity_zero, he] at hp
  exact absurd hp (by decide)

/-- A difference confined to `w` consecutive places is detected. -/
theorem feed_zero_ne_zero_of_burst {g : BitVec w} (hg : g.getLsbD 0 = true) (m n : ℕ)
    {e : List Bool} (hlen : e.length ≤ w) (he : word w e ≠ 0#w) :
    feed g 0#w (List.replicate m false ++ (e ++ List.replicate n false)) ≠ 0#w := by
  rw [feed_append, feed_append, feed_replicate_false, feed_replicate_false, iterate_step_zero,
    feed_eq_iterate g _ hlen, BitVec.zero_xor, Ne, iterate_step_eq_zero_iff hg,
    iterate_step_eq_zero_iff hg]
  exact he

/-- A difference in two places is detected unless their distance is a period of the register. -/
theorem feed_zero_ne_zero_of_pair {g : BitVec w} (hg : g.getLsbD 0 = true) (hw : 0 < w)
    (m d n : ℕ) (hd : (step g)^[d + 1] (BitVec.twoPow w (w - 1)) ≠ BitVec.twoPow w (w - 1)) :
    feed g 0#w (List.replicate m false ++ (true :: (List.replicate d false ++
      (true :: List.replicate n false)))) ≠ 0#w := by
  rw [feed_append, feed_replicate_false, iterate_step_zero, feed_cons, feed_append,
    feed_replicate_false, feed_cons, feed_replicate_false, push_eq_step g _ hw,
    push_eq_step g _ hw, if_pos rfl, BitVec.zero_xor, ← Function.iterate_succ_apply, Ne,
    iterate_step_eq_zero_iff hg, BitVec.xor_eq_zero_iff, ← Function.iterate_succ_apply]
  exact hd

/-- A point that returns after `n` rounds, but after no `n / q` for a prime factor `q` of `n`,
does not return earlier. -/
theorem iterate_ne_of_lt {α : Type*} {f : α → α} {x : α} {n : ℕ} (hn : f^[n] x = x)
    (hq : ∀ q ∈ n.primeFactorsList, f^[n / q] x ≠ x) {d : ℕ} (hd : 0 < d) (hdn : d < n) :
    f^[d] x ≠ x := by
  intro hx
  have hdvd : Function.minimalPeriod f x ∣ n := Function.IsPeriodicPt.minimalPeriod_dvd hn
  have hle : Function.minimalPeriod f x ≤ d := Function.IsPeriodicPt.minimalPeriod_le hd hx
  obtain ⟨k, hk⟩ := hdvd
  have hk1 : k ≠ 1 := by
    rintro rfl
    omega
  obtain ⟨q, hqp, hqk⟩ := Nat.exists_prime_and_dvd hk1
  have hqn : q ∈ n.primeFactorsList :=
    (Nat.mem_primeFactorsList (by omega)).mpr ⟨hqp, hqk.trans ⟨_, by rw [hk, Nat.mul_comm]⟩⟩
  refine hq q hqn ?_
  obtain ⟨l, rfl⟩ := hqk
  have hdiv : n / q = Function.minimalPeriod f x * l := by
    rw [hk, Nat.mul_left_comm, Nat.mul_div_cancel_left _ hqp.pos]
  rw [hdiv]
  exact (Function.isPeriodicPt_minimalPeriod f x).mul_const l

end Lfsr
