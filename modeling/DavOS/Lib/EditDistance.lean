import Mathlib.Order.Bounds.Basic
import Mathlib.Tactic.Common

/-!
# Edit distance

`Edits n s t` says that `n` insertions, deletions and substitutions of one element turn `s` into
`t`. `distance` is the recursion that compares the first elements, and it is the least such number
(`distance_isLeast`): it is reached, and no edit changes the distance to a third list by more than
one.

Edits do not care from which end a list is read, so neither does the distance (`distance_reverse`).
That gives the recursion on the last elements (`distance_concat`), which is the one that a table
filled from the top left corner follows.
-/

namespace EditDistance

variable {α : Type*}

/-- One insertion, deletion or substitution, at any place. -/
inductive Edit : List α → List α → Prop
  | insert (a : α) (s : List α) : Edit s (a :: s)
  | delete (a : α) (s : List α) : Edit (a :: s) s
  | substitute (a b : α) (s : List α) : Edit (a :: s) (b :: s)
  | cons (a : α) {s t : List α} : Edit s t → Edit (a :: s) (a :: t)

/-- A number of edits, one after the other. -/
inductive Edits : ℕ → List α → List α → Prop
  | refl (s : List α) : Edits 0 s s
  | step {n : ℕ} {s t u : List α} : Edit s t → Edits n t u → Edits (n + 1) s u

/-- Edits may be made behind a common first element. -/
theorem Edits.cons (a : α) {n : ℕ} {s t : List α} (h : Edits n s t) :
    Edits n (a :: s) (a :: t) := by
  induction h with
  | refl s => exact .refl _
  | step hedit _ ih => exact .step (hedit.cons a) ih

/-- Insertions build any list. -/
theorem edits_nil_left (t : List α) : Edits t.length [] t := by
  induction t with
  | nil => exact .refl []
  | cons b t ih => exact .step (.insert b []) (ih.cons b)

/-- Deletions empty any list. -/
theorem edits_nil_right (s : List α) : Edits s.length s [] := by
  induction s with
  | nil => exact .refl []
  | cons a s ih => exact .step (.delete a s) ih

/-- Either of two numbers of edits, so also the smaller one. -/
theorem Edits.min {m n : ℕ} {s t : List α} (hm : Edits m s t) (hn : Edits n s t) :
    Edits (min m n) s t := by
  rcases le_total m n with hle | hle
  · rwa [min_eq_left hle]
  · rwa [min_eq_right hle]

/-! ## Both ends -/

/-- An edit may be made behind a common beginning. -/
theorem Edit.append_left (p : List α) {s t : List α} (h : Edit s t) : Edit (p ++ s) (p ++ t) := by
  induction p with
  | nil => exact h
  | cons a p ih => exact ih.cons a

/-- An edit may be made before a common end. -/
theorem Edit.append_right {s t : List α} (h : Edit s t) (q : List α) : Edit (s ++ q) (t ++ q) := by
  induction h with
  | insert a s => exact .insert a (s ++ q)
  | delete a s => exact .delete a (s ++ q)
  | substitute a b s => exact .substitute a b (s ++ q)
  | cons a _ ih => exact ih.cons a

/-- An edit of a list is one of the reversed list. -/
theorem Edit.reverse {s t : List α} (h : Edit s t) : Edit s.reverse t.reverse := by
  induction h with
  | insert a s =>
    have hlast := (Edit.insert a []).append_left s.reverse
    rwa [List.append_nil, ← List.reverse_cons] at hlast
  | delete a s =>
    have hlast := (Edit.delete a []).append_left s.reverse
    rwa [List.append_nil, ← List.reverse_cons] at hlast
  | substitute a b s =>
    have hlast := (Edit.substitute a b []).append_left s.reverse
    rwa [← List.reverse_cons, ← List.reverse_cons] at hlast
  | cons a _ ih =>
    rw [List.reverse_cons, List.reverse_cons]
    exact ih.append_right [a]

/-- So are several edits. -/
theorem Edits.reverse {n : ℕ} {s t : List α} (h : Edits n s t) :
    Edits n s.reverse t.reverse := by
  induction h with
  | refl s => exact .refl _
  | step hedit _ ih => exact .step hedit.reverse ih

/-! ## The distance -/

variable [DecidableEq α]

/-- What it costs to keep or substitute an element. -/
def cost (a b : α) : ℕ := if a = b then 0 else 1

def distance : List α → List α → ℕ
  | [], t => t.length
  | a :: s, [] => (a :: s).length
  | a :: s, b :: t =>
    min (min (distance s (b :: t) + 1) (distance (a :: s) t + 1)) (distance s t + cost a b)
termination_by s t => s.length + t.length

@[simp] theorem distance_nil_left (t : List α) : distance [] t = t.length := by
  rw [distance]

@[simp] theorem distance_nil_right (s : List α) : distance s [] = s.length := by
  cases s <;> rw [distance]

/-- At the heads there are three choices: delete, insert or substitute. -/
theorem distance_cons_cons (a b : α) (s t : List α) : distance (a :: s) (b :: t) =
    min (min (distance s (b :: t) + 1) (distance (a :: s) t + 1)) (distance s t + cost a b) := by
  rw [distance]

/-- Equal elements cost nothing. -/
theorem cost_self (a : α) : cost a a = 0 := if_pos rfl

/-- A substitution costs at most one edit. -/
theorem cost_le_one (a b : α) : cost a b ≤ 1 := by
  rw [cost]
  split <;> omega

/-- No edit is needed between equal lists. -/
theorem distance_self (s : List α) : distance s s = 0 := by
  induction s with
  | nil => rw [distance_nil_left, List.length_nil]
  | cons a s ih =>
    rw [distance_cons_cons, ih, cost_self]
    omega

/-- A further element on the left costs at most one deletion. -/
theorem distance_cons_left_le (a : α) (s t : List α) :
    distance (a :: s) t ≤ distance s t + 1 := by
  cases t with
  | nil => simp
  | cons b t =>
    rw [distance_cons_cons]
    omega

/-- A further element on the right costs at most one insertion. -/
theorem distance_cons_right_le (b : α) (s t : List α) :
    distance s (b :: t) ≤ distance s t + 1 := by
  cases s with
  | nil => simp
  | cons a s =>
    rw [distance_cons_cons]
    omega

/-! ## No edit changes the distance by more than one -/

/-- Without an element on the left the distance is at most one more. -/
theorem distance_le_cons_left (a : α) (s u : List α) :
    distance s u ≤ distance (a :: s) u + 1 := by
  induction u with
  | nil =>
    rw [distance_nil_right, distance_nil_right, List.length_cons]
    omega
  | cons b u ih =>
    have hright := distance_cons_right_le b s u
    rw [distance_cons_cons]
    omega

/-- Another first element changes the distance by at most one. -/
theorem distance_substitute_le (a b : α) (s u : List α) :
    distance (a :: s) u ≤ distance (b :: s) u + 1 := by
  induction u with
  | nil => simp
  | cons c u ih =>
    have hcost := cost_le_one a c
    rw [distance_cons_cons, distance_cons_cons]
    omega

/-- A bound on all distances survives a common first element. -/
theorem distance_cons_le (a : α) {s t : List α} (h : ∀ u, distance s u ≤ distance t u + 1)
    (u : List α) : distance (a :: s) u ≤ distance (a :: t) u + 1 := by
  induction u with
  | nil =>
    have hnil := h []
    simp only [distance_nil_right, List.length_cons] at hnil ⊢
    omega
  | cons b u ih =>
    have hboth := h u
    have hleft := h (b :: u)
    rw [distance_cons_cons, distance_cons_cons]
    omega

/-- One edit changes every distance by at most one. -/
theorem Edit.distance_le {s t : List α} (h : Edit s t) (u : List α) :
    distance s u ≤ distance t u + 1 := by
  induction h generalizing u with
  | insert a s => exact distance_le_cons_left a s u
  | delete a s => exact distance_cons_left_le a s u
  | substitute a b s => exact distance_substitute_le a b s u
  | cons a _ ih => exact distance_cons_le a ih u

/-- No sequence of edits is shorter than the distance. -/
theorem Edits.distance_le {n : ℕ} {s t : List α} (h : Edits n s t) : distance s t ≤ n := by
  induction h with
  | refl s => exact (distance_self s).le
  | step hedit _ ih => exact (hedit.distance_le _).trans (Nat.succ_le_succ ih)

/-! ## The distance is reached -/

/-- And there is one of that length. -/
theorem edits_distance (s t : List α) : Edits (distance s t) s t := by
  induction s generalizing t with
  | nil =>
    rw [distance_nil_left]
    exact edits_nil_left t
  | cons a s ihs =>
    induction t with
    | nil =>
      rw [distance_nil_right]
      exact edits_nil_right (a :: s)
    | cons b t iht =>
      have hdelete : Edits (distance s (b :: t) + 1) (a :: s) (b :: t) :=
        .step (.delete a s) (ihs (b :: t))
      have hinsert : Edits (distance (a :: s) t + 1) (a :: s) (b :: t) :=
        .step (.insert b (a :: s)) (iht.cons b)
      have hsubstitute : Edits (distance s t + cost a b) (a :: s) (b :: t) := by
        rw [cost]
        split
        · next heq =>
          subst heq
          exact (ihs t).cons a
        · exact .step (.substitute a b s) ((ihs t).cons b)
      rw [distance_cons_cons]
      exact (hdelete.min hinsert).min hsubstitute

/-- **The distance is the least number of edits.** -/
theorem distance_isLeast (s t : List α) : IsLeast {n | Edits n s t} (distance s t) :=
  ⟨edits_distance s t, fun _ h => h.distance_le⟩

/-! ## The recursion on the last elements -/

/-- Reversing both lists does not increase the distance. -/
theorem distance_reverse_le (s t : List α) : distance s.reverse t.reverse ≤ distance s t :=
  (edits_distance s t).reverse.distance_le

/-- Nor does it decrease it. -/
theorem distance_reverse (s t : List α) : distance s.reverse t.reverse = distance s t := by
  apply le_antisymm (distance_reverse_le s t)
  have hback := distance_reverse_le s.reverse t.reverse
  rwa [List.reverse_reverse, List.reverse_reverse] at hback

/-- At the last elements there are the same three choices, as in a table filled from the front. -/
theorem distance_concat (s t : List α) (a b : α) : distance (s ++ [a]) (t ++ [b]) =
    min (min (distance s (t ++ [b]) + 1) (distance (s ++ [a]) t + 1))
      (distance s t + cost a b) := by
  rw [← distance_reverse (s ++ [a]), ← distance_reverse s (t ++ [b]),
    ← distance_reverse (s ++ [a]) t, ← distance_reverse s t]
  simp only [List.reverse_append, List.reverse_singleton, List.singleton_append]
  exact distance_cons_cons a b s.reverse t.reverse

end EditDistance
