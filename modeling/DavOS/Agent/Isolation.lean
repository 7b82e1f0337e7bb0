import DavOS.Agent.Planner
import DavOS.Lib.Runs

/-!
# Several runtimes

The planner mode and the flag that an LLM planner is configured are fields of a runtime. The LLM
planner itself is a package variable, which all runtimes share. `own` is history: the planner that
was configured last on each runtime, or on the one its configuration was copied from.
-/

namespace DavOS.Agent

open Runs

variable {ι σ : Type} [DecidableEq ι]

/-- The runtimes of a program, and the package variable. -/
structure Runtimes (ι σ : Type) where
  runtime : ι → Runtime σ
  configuredLLMPlanner : Option (Planner σ)
  own : ι → Option (Planner σ)

/-- The calls that configure planners. A receiver or a source may be `nil`. -/
inductive PlannerCall (ι σ : Type)
  | configureLLMPlanner (receiver : Option ι) (planner : Option (Planner σ))
  | setPlannerMode (receiver : Option ι) (mode : PlannerMode)
  | copyPlannerConfiguration (receiver source : Option ι)

def PlannerCall.receiver : PlannerCall ι σ → Option ι
  | .configureLLMPlanner receiver _ => receiver
  | .setPlannerMode receiver _ => receiver
  | .copyPlannerConfiguration receiver _ => receiver

namespace Runtimes

def step (w : Runtimes ι σ) : PlannerCall ι σ → Runtimes ι σ
  | .configureLLMPlanner (some i) planner =>
    let (r, configured) := (w.runtime i).configureLLMPlanner planner
    { runtime := Function.update w.runtime i r
      configuredLLMPlanner := configured
      own := Function.update w.own i (planner.filter (·.available)) }
  | .setPlannerMode (some i) mode =>
    { w with runtime := Function.update w.runtime i ((w.runtime i).setPlannerMode mode).2 }
  | .copyPlannerConfiguration (some i) source =>
    { w with
      runtime := Function.update w.runtime i
        ((w.runtime i).copyPlannerConfiguration (source.map w.runtime))
      own := Function.update w.own i (source.bind w.own) }
  | _ => w

/-- New runtimes: in deterministic mode, and not configured. -/
def Fresh (w : Runtimes ι σ) : Prop :=
  ∀ i, (w.runtime i).plannerMode = .deterministic ∧ (w.runtime i).llmConfigured = false

/-- A planner is configured only while no other runtime has one, or all go on with the same. -/
def Apart (w : Runtimes ι σ) : PlannerCall ι σ → Prop
  | .configureLLMPlanner (some i) planner =>
    (∀ j ≠ i, (w.runtime j).llmConfigured = false) ∨
      ∃ p, planner = some p ∧ p.available = true ∧ w.configuredLLMPlanner = some p
  | _ => True

/-- A call changes the fields and the history of its receiver only. -/
theorem step_of_ne (w : Runtimes ι σ) {call : PlannerCall ι σ} {i : ι}
    (h : call.receiver ≠ some i) :
    (w.step call).runtime i = w.runtime i ∧ (w.step call).own i = w.own i := by
  have hne : ∀ {j : ι}, some j ≠ some i → i ≠ j := fun h heq => h (congrArg some heq.symm)
  cases call with
  | configureLLMPlanner receiver planner =>
    cases receiver with
    | none => exact ⟨rfl, rfl⟩
    | some j => exact ⟨Function.update_of_ne (hne h) .., Function.update_of_ne (hne h) ..⟩
  | setPlannerMode receiver mode =>
    cases receiver with
    | none => exact ⟨rfl, rfl⟩
    | some j => exact ⟨Function.update_of_ne (hne h) .., rfl⟩
  | copyPlannerConfiguration receiver source =>
    cases receiver with
    | none => exact ⟨rfl, rfl⟩
    | some j => exact ⟨Function.update_of_ne (hne h) .., Function.update_of_ne (hne h) ..⟩

end Runtimes

/-! ## One runtime -/

namespace Runtime

omit [DecidableEq ι]

/-- A runtime in LLM mode is configured, and a configured one consults its own planner. -/
structure Kept (r : Runtime σ) (own configuredLLMPlanner : Option (Planner σ)) : Prop where
  configured : r.llmConfigured = true → ∃ p, own = some p ∧ configuredLLMPlanner = some p
  llm : r.plannerMode = .llm → r.llmConfigured = true

variable {r source : Runtime σ} {own configuredLLMPlanner : Option (Planner σ)}

/-- A runtime without an LLM planner depends on none. -/
theorem Kept.ofUnconfigured (hconf : r.llmConfigured = false) (hmode : r.plannerMode ≠ .llm) :
    r.Kept own configuredLLMPlanner where
  configured h := by
    rw [hconf] at h
    cases h
  llm h := absurd h hmode

/-- Configuring a planner makes it the runtime's own and the configured one. -/
theorem kept_configureLLMPlanner (r : Runtime σ) (planner : Option (Planner σ)) :
    (r.configureLLMPlanner planner).1.Kept (planner.filter (·.available))
      (r.configureLLMPlanner planner).2 := by
  have hunconfigured : ∀ own configuredLLMPlanner,
      (configureLLMPlanner.unconfigured r).Kept own configuredLLMPlanner := by
    intro own configuredLLMPlanner
    refine .ofUnconfigured rfl ?_
    rw [configureLLMPlanner.unconfigured]
    dsimp only
    split
    · simp
    · assumption
  cases planner with
  | none => exact hunconfigured _ _
  | some p =>
    rw [configureLLMPlanner]
    split
    case isTrue => exact hunconfigured _ _
    case isFalse havailable =>
      have havailable : p.available = true := by simpa using havailable
      refine ⟨fun _ => ⟨p, ?_, rfl⟩, fun _ => rfl⟩
      rw [Option.filter_some, if_pos havailable]

/-- A change of the mode keeps the planner. -/
theorem Kept.setPlannerMode (h : r.Kept own configuredLLMPlanner) (mode : PlannerMode) :
    (r.setPlannerMode mode).2.Kept own configuredLLMPlanner := by
  cases mode with
  | deterministic => exact ⟨h.configured, fun hmode => by cases hmode⟩
  | llm =>
    rw [Runtime.setPlannerMode]
    split
    case isTrue => exact h
    case isFalse hconf => exact ⟨h.configured, fun _ => by simpa using hconf⟩
  | other n => exact h

/-- Without a source there is no planner. -/
theorem kept_copyPlannerConfiguration_none (r : Runtime σ) :
    (r.copyPlannerConfiguration none).Kept own configuredLLMPlanner :=
  .ofUnconfigured rfl (by simp [copyPlannerConfiguration])

/-- A copy has the planner of its source. -/
theorem Kept.copyPlannerConfiguration (h : source.Kept own configuredLLMPlanner) (r : Runtime σ) :
    (r.copyPlannerConfiguration (some source)).Kept own configuredLLMPlanner :=
  ⟨h.configured, h.llm⟩

end Runtime

/-! ## All runtimes -/

namespace Runtimes

/-- Every runtime keeps to its own planner. -/
def Isolated (w : Runtimes ι σ) : Prop :=
  ∀ i, (w.runtime i).Kept (w.own i) w.configuredLLMPlanner

variable {w : Runtimes ι σ} {call : PlannerCall ι σ}

omit [DecidableEq ι] in
/-- Fresh runtimes are isolated. -/
theorem Isolated.ofFresh (h : w.Fresh) : w.Isolated := by
  intro i
  refine .ofUnconfigured (h i).2 ?_
  rw [(h i).1]
  simp

/-- The receiver of a call keeps to its own planner. -/
theorem Isolated.kept_receiver (h : w.Isolated) {i : ι} (hi : call.receiver = some i) :
    ((w.step call).runtime i).Kept ((w.step call).own i) (w.step call).configuredLLMPlanner := by
  cases call with
  | configureLLMPlanner receiver planner =>
    obtain rfl : receiver = some i := hi
    simp only [step, Function.update_self]
    exact Runtime.kept_configureLLMPlanner _ _
  | setPlannerMode receiver mode =>
    obtain rfl : receiver = some i := hi
    simp only [step, Function.update_self]
    exact (h i).setPlannerMode mode
  | copyPlannerConfiguration receiver source =>
    obtain rfl : receiver = some i := hi
    simp only [step, Function.update_self]
    cases source with
    | none => exact Runtime.kept_copyPlannerConfiguration_none _
    | some k => exact (h k).copyPlannerConfiguration _

/-- A call leaves the shared planner as it is, or no runtime but its receiver is configured. -/
theorem configuredLLMPlanner_step (hapart : w.Apart call) :
    (w.step call).configuredLLMPlanner = w.configuredLLMPlanner ∨
      ∀ j, call.receiver ≠ some j → (w.runtime j).llmConfigured = false := by
  cases call with
  | configureLLMPlanner receiver planner =>
    cases receiver with
    | none => exact .inl rfl
    | some i =>
      obtain hconf | ⟨p, rfl, havailable, hconfigured⟩ := hapart
      · exact .inr fun j hj => hconf j fun heq => hj (congrArg some heq.symm)
      · -- the planner that is configured is the one that all have already
        refine .inl ?_
        rw [step, Runtime.configureLLMPlanner, if_neg (by simp [havailable]), hconfigured]
  | setPlannerMode receiver mode => cases receiver <;> exact .inl rfl
  | copyPlannerConfiguration receiver source => cases receiver <;> exact .inl rfl

/-- One call keeps them isolated. -/
protected theorem Isolated.step (h : w.Isolated) (hapart : w.Apart call) :
    (w.step call).Isolated := by
  intro j
  by_cases hj : call.receiver = some j
  · exact h.kept_receiver hj
  · obtain ⟨hruntime, hown⟩ := w.step_of_ne hj
    rw [hruntime, hown]
    obtain hsame | hconf := configuredLLMPlanner_step hapart
    · rw [hsame]
      exact h j
    · refine .ofUnconfigured (hconf j hj) fun hmode => ?_
      cases ((h j).llm hmode).symm.trans (hconf j hj)

omit [DecidableEq ι] in
/-- Only a runtime in LLM mode looks at the shared variable. -/
theorem run_congr {r : Runtime σ} {p q : Option (Planner σ)} (h : r.plannerMode = .llm → p = q)
    (input : List UInt8) (s : Store σ) : r.run p input s = r.run q input s := by
  by_cases hmode : r.plannerMode = .llm
  · rw [h hmode]
  · simp only [Runtime.run, Runtime.planInput, if_neg hmode]

/-- **Runtimes are isolated**, if planners are configured only while no other runtime has one. In
every state of every run of such calls, a runtime in LLM mode consults its own planner, and a call
on another runtime changes neither its mode nor what it does with an input. -/
theorem runtimes_isolated (w₀ : Runtimes ι σ) (hfresh : w₀.Fresh) (calls : List (PlannerCall ι σ))
    (hapart : AllSteps step Apart w₀ calls) :
    let w := Runs.run step w₀ calls
    (∀ i, (w.runtime i).plannerMode = .llm →
      ∃ p, w.own i = some p ∧ w.configuredLLMPlanner = some p) ∧
    ∀ call, w.Apart call → ∀ i, call.receiver ≠ some i →
      ((w.step call).runtime i).plannerMode = (w.runtime i).plannerMode ∧
      ∀ input s, ((w.step call).runtime i).run (w.step call).configuredLLMPlanner input s =
        (w.runtime i).run w.configuredLLMPlanner input s := by
  have hw : (Runs.run step w₀ calls).Isolated :=
    hapart.invariant (fun _ _ hs hp => hs.step hp) (.ofFresh hfresh)
  generalize Runs.run step w₀ calls = w at hw
  refine ⟨fun i hmode => (hw i).configured ((hw i).llm hmode), ?_⟩
  intro call hcall i hi
  obtain ⟨hruntime, hown⟩ := w.step_of_ne hi
  have hstep := hw.step hcall i
  rw [hruntime] at hstep ⊢
  refine ⟨rfl, fun input s => run_congr (fun hmode => ?_) input s⟩
  obtain ⟨p, hp, hplanner⟩ := (hw i).configured ((hw i).llm hmode)
  obtain ⟨p', hp', hplanner'⟩ := hstep.configured (hstep.llm hmode)
  rw [hplanner, hplanner', ← hp, ← hp', hown]

/-! ## Two runtimes -/

/-- A planner that always plans `action`. -/
def constantPlanner (intent : IntentKind) (action : ActionKind) : Planner Unit where
  plan _ _ env := (successfulPlan (singleActionPlan .llm intent action .safe), env)
  available := true

/-- Two runtimes without handlers. -/
def twoAgents : Runtimes Bool Unit where
  runtime _ := .newDeterministicAgent
    ⟨none, none, none, none, none, none, none, none, none, none, none⟩
  configuredLLMPlanner := none
  own _ := none

/-- The first of them is configured and switched to LLM mode. -/
def firstCalls : List (PlannerCall Bool Unit) :=
  [.configureLLMPlanner (some false) (constantPlanner .showHelp .showHelp),
    .setPlannerMode (some false) .llm]

/-- The second one may still switch modes and copy the configuration. -/
theorem first_agent_isolated :
    let w := Runs.run step twoAgents
      (firstCalls ++ [.copyPlannerConfiguration (some true) (some false)])
    (∀ i, (w.runtime i).plannerMode = .llm →
      ∃ p, w.own i = some p ∧ w.configuredLLMPlanner = some p) ∧
    ∀ call, w.Apart call → ∀ i, call.receiver ≠ some i →
      ((w.step call).runtime i).plannerMode = (w.runtime i).plannerMode ∧
      ∀ input s, ((w.step call).runtime i).run (w.step call).configuredLLMPlanner input s =
        (w.runtime i).run w.configuredLLMPlanner input s :=
  runtimes_isolated twoAgents (fun _ => ⟨rfl, rfl⟩) _
    ⟨.inl fun _ _ => rfl, trivial, trivial, trivial⟩

/-- A call of `ConfigureLLMPlanner` on the second runtime. -/
def reconfigured (planner : Option (Planner Unit)) : Runtimes Bool Unit :=
  Runs.run step twoAgents (firstCalls ++ [.configureLLMPlanner (some true) planner])

/-- The first runtime stays in LLM mode, and follows the planner of the second one; if that is
`nil`, it cannot plan any more. -/
theorem first_agent_disturbed :
    let s : Store Unit := ⟨none, (), []⟩
    let replaced := reconfigured (constantPlanner .showVersion .showVersion)
    let removed := reconfigured none
    (replaced.runtime false).plannerMode = .llm ∧
      (Runtime.planInput (replaced.own false) .llm [] s).1.plan.intent = .showHelp ∧
      (Runtime.planInput replaced.configuredLLMPlanner .llm [] s).1.plan.intent = .showVersion ∧
      (removed.runtime false).plannerMode = .llm ∧
      ((removed.runtime false).run (removed.own false) [] s).1.result.message = .actionUnavailable ∧
      ((removed.runtime false).run removed.configuredLLMPlanner [] s).1.result.message =
        .llmBridgeNotConfigured := by
  refine ⟨rfl, rfl, rfl, rfl, ?_, rfl⟩
  decide

end Runtimes

end DavOS.Agent
