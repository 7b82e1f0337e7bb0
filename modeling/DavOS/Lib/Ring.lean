import Mathlib.Data.List.Basic
import Mathlib.Data.List.Range
import Mathlib.Data.Nat.Notation
import Mathlib.Logic.Function.Basic
import Mathlib.Tactic.Linarith

/-!
# Rings

A table of `n` slots that is walked around: what it holds is a number of slots from a start on.
Slots are numbered by any natural number, and numbers that differ by `n` are the same slot.

`contents_push` and `contents_cons` are the two ends of a queue. A ring that overwrites its oldest
element when it is full holds the last `n` elements of what was added to it (`HoldsLast.add`).
-/

namespace Ring

variable {α : Type*} {slot : ℕ → α} {n start count : ℕ}

/-- The `count` elements from slot `start` on. -/
def contents (slot : ℕ → α) (n start count : ℕ) : List α :=
  (List.range count).map fun i => slot ((start + i) % n)

@[simp] theorem contents_zero : contents slot n start 0 = [] := rfl

@[simp] theorem length_contents : (contents slot n start count).length = count := by
  rw [contents, List.length_map, List.length_range]

/-- The start counts modulo the size of the ring. -/
theorem contents_mod : contents slot n (start % n) count = contents slot n start count := by
  simp only [contents, Nat.mod_add_mod]

/-- The first element of the contents is in the slot of the start. -/
theorem contents_cons :
    contents slot n start (count + 1) = slot (start % n) :: contents slot n (start + 1) count := by
  rw [contents, List.range_succ_eq_map, List.map_cons, List.map_map, contents, Nat.add_zero]
  congr 2
  funext i
  simp only [Function.comp_apply, Nat.succ_eq_add_one]
  rw [Nat.add_right_comm, Nat.add_assoc start]

/-- Two slots less than a turn apart are different. -/
theorem mod_ne_mod {i j : ℕ} (hij : i < j) (hj : j < i + n) : i % n ≠ j % n := by
  intro heq
  have hdvd : n ∣ j - i := Nat.dvd_of_mod_eq_zero (Nat.sub_mod_eq_zero_of_mod_eq heq.symm)
  have hle : n ≤ j - i := Nat.le_of_dvd (by omega) hdvd
  omega

/-- A write behind the contents, less than a turn away, leaves them. -/
theorem contents_update_of_le {x : α} {last : ℕ} (hlast : start + count ≤ last)
    (hturn : last < start + n) :
    contents (Function.update slot (last % n) x) n start count = contents slot n start count := by
  apply List.map_congr_left
  intro i hi
  have hi : i < count := List.mem_range.mp hi
  exact Function.update_of_ne (mod_ne_mod (by omega) (by omega)) ..

/-- An element stored behind the last one is the new last one. -/
theorem contents_push {x : α} (h : count < n) :
    contents (Function.update slot ((start + count) % n) x) n start (count + 1) =
      contents slot n start count ++ [x] := by
  have hkeep : contents (Function.update slot ((start + count) % n) x) n start count =
      contents slot n start count := contents_update_of_le le_rfl (by omega)
  rw [← hkeep, contents, List.range_succ, List.map_append, List.map_cons, List.map_nil,
    Function.update_self]
  rfl

/-- A vector as the slots of a ring. -/
theorem slots_set! [Inhabited α] (v : Vector α n) {i : ℕ} (hi : i < n) (x : α) :
    (fun j => (v.set! i x)[j]!) = Function.update (fun j => v[j]!) i x := by
  rw [Vector.set!_eq_setIfInBounds]
  funext j
  by_cases hj : j < n
  · rw [getElem!_pos (v.setIfInBounds i x) j hj, Vector.getElem_setIfInBounds hj]
    by_cases hij : i = j
    · rw [if_pos hij, hij, Function.update_self]
    · rw [if_neg hij, Function.update_of_ne (Ne.symm hij), getElem!_pos v j hj]
  · rw [getElem!_neg (v.setIfInBounds i x) j hj, Function.update_of_ne (by omega),
      getElem!_neg v j hj]

/-! ## The last elements of a list -/

/-- The ring holds the last `n` elements of a list, and its next slot is `head`. -/
structure HoldsLast (slot : ℕ → α) (n head count : ℕ) (l : List α) : Prop where
  count_eq : count = min n l.length
  contents_eq : contents slot n (head + n - count) count = l.drop (l.length - n)

/-- A ring without elements holds the empty list. -/
theorem HoldsLast.nil {head : ℕ} : HoldsLast slot n head 0 [] := ⟨by simp, by simp⟩

/-- A ring holds no more than its size. -/
theorem HoldsLast.count_le {head : ℕ} {l : List α} (h : HoldsLast slot n head count l) :
    count ≤ n := by
  rw [h.count_eq]
  exact min_le_left ..

/-- The element in the slot before `head` is the last one. -/
theorem HoldsLast.getLast? {head : ℕ} {l : List α} (h : HoldsLast slot n head count l)
    (hcount : 0 < count) : l.getLast? = some (slot ((head + n - 1) % n)) := by
  obtain ⟨k, rfl⟩ : ∃ k, count = k + 1 := ⟨count - 1, by omega⟩
  have hle := h.count_le
  have hlast : (contents slot n (head + n - (k + 1)) (k + 1)).getLast? = l.getLast? := by
    rw [h.contents_eq, List.getLast?_drop, if_neg]
    have := h.count_eq
    omega
  rw [← hlast, contents, List.range_succ, List.map_append, List.map_cons, List.map_nil,
    List.getLast?_concat]
  congr 3
  omega

/-- **Adding to the ring.** The element takes the slot `head`, which is free or has the oldest
element. -/
theorem HoldsLast.add {head : ℕ} {l : List α} {x : α} (h : HoldsLast slot n head count l)
    (hn : 0 < n) (hhead : head < n) :
    HoldsLast (Function.update slot head x) n ((head + 1) % n)
      (if count < n then count + 1 else count) (l ++ [x]) := by
  have hcount := h.count_eq
  have hcontents := h.contents_eq
  have hslot : head = (head + n) % n := by rw [Nat.add_mod_right, Nat.mod_eq_of_lt hhead]
  -- with or without the oldest element, one slot before `head + n` is left for the new one
  have hpush : ∀ k < n, contents (Function.update slot head x) n (head + n - k) (k + 1) =
      contents slot n (head + n - k) k ++ [x] := by
    intro k hk
    rw [← contents_push hk, show head + n - k + k = head + n by omega, ← hslot]
  have hstart : ∀ k ≤ n, contents (Function.update slot head x) n ((head + 1) % n + n - k) k =
      contents (Function.update slot head x) n (head + 1 + n - k) k := by
    intro k hk
    rw [Nat.add_sub_assoc hk, Nat.add_sub_assoc hk, ← contents_mod, Nat.mod_add_mod, contents_mod]
  by_cases hfull : count < n
  · rw [if_pos hfull]
    refine ⟨by simp; omega, ?_⟩
    rw [hstart _ hfull, show head + 1 + n - (count + 1) = head + n - count by omega,
      hpush count hfull, hcontents]
    simp [show l.length - n = 0 by omega, show l.length + 1 - n = 0 by omega]
  · rw [if_neg hfull]
    obtain ⟨k, rfl⟩ : ∃ k, n = k + 1 := ⟨n - 1, by omega⟩
    obtain rfl : count = k + 1 := le_antisymm h.count_le (not_lt.mp hfull)
    refine ⟨by simp; omega, ?_⟩
    rw [hstart _ le_rfl, show head + 1 + (k + 1) - (k + 1) = head + (k + 1) - k by omega,
      hpush k (Nat.lt_succ_self k)]
    rw [show head + (k + 1) - (k + 1) = head by omega, contents_cons] at hcontents
    have htail := congrArg List.tail hcontents
    rw [List.tail_cons, List.tail_drop] at htail
    rw [show head + (k + 1) - k = head + 1 by omega, htail, List.length_append,
      List.length_singleton, List.drop_append_of_le_length (by omega)]
    congr 2
    omega

end Ring
