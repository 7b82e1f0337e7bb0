import Mathlib.Data.List.Basic

/-!
# Runs of a machine with events

The states of a machine after a list of events, and the runs all of whose steps satisfy a predicate
on the state before the step and the event.
-/

namespace Runs

variable {S E : Type*} (step : S → E → S)

/-- The state after the events. -/
def run (s : S) (events : List E) : S := events.foldl step s

theorem run_concat (s : S) (events : List E) (e : E) :
    run step s (events ++ [e]) = step (run step s events) e := by
  rw [run, List.foldl_append]
  rfl

/-- All steps of a run satisfy `p`. -/
def AllSteps (p : S → E → Prop) : S → List E → Prop
  | _, [] => True
  | s, e :: rest => p s e ∧ AllSteps p (step s e) rest

variable {step} {p : S → E → Prop} {s : S} {events : List E}

theorem allSteps_concat {e : E} :
    AllSteps step p s (events ++ [e]) ↔ AllSteps step p s events ∧ p (run step s events) e := by
  induction events generalizing s with
  | nil => simp [AllSteps, run]
  | cons e' rest ih =>
    rw [List.cons_append, AllSteps, AllSteps, ih, and_assoc]
    rfl

theorem run_append (s : S) (events rest : List E) :
    run step s (events ++ rest) = run step (run step s events) rest :=
  List.foldl_append

theorem AllSteps.append {rest : List E} (h : AllSteps step p s events)
    (h' : AllSteps step p (run step s events) rest) : AllSteps step p s (events ++ rest) := by
  induction events generalizing s with
  | nil => exact h'
  | cons e events ih => exact ⟨h.1, ih h.2 h'⟩

/-- **Invariants.** What the steps that satisfy `p` keep holds after a run of such steps. -/
theorem AllSteps.invariant {I : S → Prop} (hstep : ∀ s e, I s → p s e → I (step s e))
    (h : AllSteps step p s events) (hs : I s) : I (run step s events) := by
  induction events generalizing s with
  | nil => exact hs
  | cons e rest ih => exact ih h.2 (hstep s e hs h.1)

end Runs
