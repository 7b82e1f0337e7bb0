import Mathlib.Data.Nat.Digits.Lemmas

/-!
# Positional numerals

A numeral is a list of digits with the most significant one first, as it is written and read.
Mathlib's `Nat.digits` and `Nat.ofDigits` start with the least significant one; `value` and `digits`
are these, turned around. A reader that multiplies and adds digit by digit computes `value`
(`foldl_eq_value`), and `digits` is the one way to write a number without leading zeros
(`canonical_digits`).
-/

namespace Numeral

/-- The number that the digits `ds` denote in base `b`. -/
def value (b : ℕ) (ds : List ℕ) : ℕ := Nat.ofDigits b ds.reverse

@[simp] theorem value_singleton (b d : ℕ) : value b [d] = d := Nat.ofDigits_singleton

theorem value_concat (b : ℕ) (ds : List ℕ) (d : ℕ) :
    value b (ds ++ [d]) = value b ds * b + d := by
  rw [value, List.reverse_append, List.reverse_singleton, List.singleton_append, Nat.ofDigits_cons,
    mul_comm, add_comm]
  rfl

/-- Reading from left to right. -/
theorem foldl_eq_value (b : ℕ) (ds : List ℕ) : ds.foldl (fun n d => n * b + d) 0 = value b ds := by
  induction ds using List.reverseRecOn with
  | nil => rfl
  | append_singleton ds d ih =>
    rw [List.foldl_append, List.foldl_cons, List.foldl_nil, ih, value_concat]

/-- The digits of `n` in base `b`, without leading zeros; zero is written with one digit. -/
def digits (b n : ℕ) : List ℕ := if n = 0 then [0] else (b.digits n).reverse

/-- Some digits, all below the base, and the first one is zero only if it is the only one. -/
structure Canonical (b : ℕ) (ds : List ℕ) : Prop where
  ne_nil : ds ≠ []
  lt_base : ∀ d ∈ ds, d < b
  head : ds.head? = some 0 → ds = [0]

variable {b n : ℕ}

theorem value_digits (b n : ℕ) : value b (digits b n) = n := by
  rw [digits]
  split
  · next h => rw [h, value_singleton]
  · rw [value, List.reverse_reverse, Nat.ofDigits_digits]

theorem canonical_digits (hb : 1 < b) (n : ℕ) : Canonical b (digits b n) := by
  rw [digits]
  by_cases hn : n = 0
  · rw [if_pos hn]
    exact ⟨by simp, by simp; omega, fun _ => rfl⟩
  · rw [if_neg hn]
    refine ⟨by simpa [Nat.digits_eq_nil_iff_eq_zero] using hn, ?_, ?_⟩
    · intro d hd
      exact Nat.digits_lt_base hb (List.mem_reverse.mp hd)
    · intro hzero
      rw [List.head?_reverse] at hzero
      have hne : b.digits n ≠ [] := Nat.digits_ne_nil_iff_ne_zero.mpr hn
      rw [List.getLast?_eq_some_getLast hne, Option.some.injEq] at hzero
      exact absurd hzero (Nat.getLast_digit_ne_zero b hn)

end Numeral
