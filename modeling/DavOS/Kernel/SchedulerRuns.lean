import DavOS.Kernel.Scheduler

/-!
# Runs of the scheduler

As long as task 0 does not exit, one task is running and it is the current one, every other task is
runnable or dead, and dead tasks stay so. Task 0 is therefore runnable whenever another task exits,
and the search of `Schedule` does not fail then.
-/

namespace DavOS.Kernel

namespace Scheduler

variable {σ : Type} {cpu : Cpu σ} {s : Scheduler σ}

/-! ## The table -/

/-- The tasks are the first slots of the pool, and the number of a slot is the ID of its task. -/
structure Layout (s : Scheduler σ) : Prop where
  slots : s.tasks.map Fin.val = List.range s.taskCount
  ids : ∀ t ∈ s.tasks, (s.taskPool t).id = t.val
  nextID : s.nextID = s.taskCount
  root : (0 : Slot) ∈ s.tasks

namespace Layout

/-- The task at a position of the table is the slot of that number. -/
theorem getElem?_map_val (hs : Layout s) (i : ℕ) :
    s.tasks[i]?.map Fin.val = if i < s.taskCount then some i else none := by
  rw [← List.getElem?_map, hs.slots]
  split
  case isTrue h => exact List.getElem?_range h
  case isFalse h => exact List.getElem?_eq_none (by simpa using h)

/-- A slot is in the table if its number is below the count. -/
theorem mem_iff (hs : Layout s) {t : Slot} : t ∈ s.tasks ↔ t.val < s.taskCount := by
  rw [← List.mem_range, ← hs.slots, List.mem_map]
  constructor
  · intro ht
    exact ⟨t, ht, rfl⟩
  · rintro ⟨t', ht', heq⟩
    rwa [← Fin.ext heq]

/-- A slot is found at its own number. -/
theorem getElem? (hs : Layout s) {t : Slot} (ht : t ∈ s.tasks) : s.tasks[t.val]? = some t := by
  have hmap := hs.getElem?_map_val t.val
  rw [if_pos (hs.mem_iff.mp ht)] at hmap
  obtain ⟨t', ht', heq⟩ := Option.map_eq_some_iff.mp hmap
  rw [ht', Fin.ext heq]

/-- No slot is in the table twice. -/
theorem nodup (hs : Layout s) : s.tasks.Nodup :=
  List.Nodup.of_map Fin.val (hs.slots ▸ List.nodup_range)

/-- No two tasks have one ID. -/
theorem nodup_ids (hs : Layout s) : (s.tasks.map fun t => (s.taskPool t).id).Nodup := by
  rw [List.map_congr_left hs.ids, hs.slots]
  exact List.nodup_range

/-- There are no more tasks than slots. -/
theorem taskCount_le (hs : Layout s) : s.taskCount ≤ maxTasks := by
  have hle := hs.nodup.length_le_card
  rwa [Fintype.card_fin] at hle

/-- The first loop finds the current task. -/
theorem currentIndex_eq (hs : Layout s) {c : Slot} (hc : c ∈ s.tasks)
    (hcurrent : s.currentTask = some c) : s.currentIndex = c.val := by
  have hfind : s.tasks.findIdx? (fun t => some t = s.currentTask) = some c.val := by
    rw [List.findIdx?_eq_some_iff_getElem]
    obtain ⟨hlt, heq⟩ := List.getElem?_eq_some_iff.mp (hs.getElem? hc)
    refine ⟨hlt, by simp [hcurrent, heq], ?_⟩
    intro j hj
    have hne : s.tasks[j] ≠ c := fun h =>
      Nat.ne_of_lt hj (hs.nodup.getElem_inj_iff.mp (h.trans heq.symm))
    simpa [hcurrent] using hne
  rw [currentIndex, hfind]

/-- The second loop is a cyclic search. -/
theorem nextIndex_eq (hs : Layout s) {c : Slot} (hc : c ∈ s.tasks)
    (hcurrent : s.currentTask = some c) :
    s.nextIndex = CyclicSearch.next s.isRunnable s.taskCount c.val := by
  have hindex : ∀ i : ℕ,
      ((s.currentIndex + i) % s.taskCount).toNat = (c.val + i) % s.taskCount := by
    intro i
    rw [hs.currentIndex_eq hc hcurrent, ← Int.natCast_add, ← Int.natCast_emod, Int.toNat_natCast]
  simp only [nextIndex, CyclicSearch.next, hindex]

/-- The test by position reads the state of the slot. -/
theorem isRunnable_iff (hs : Layout s) {t : Slot} (ht : t ∈ s.tasks) :
    s.isRunnable t.val = true ↔ (s.taskPool t).state = .runnable := by
  simp [isRunnable, hs.getElem? ht]

end Layout

/-! ## Updates -/

/-- Setting the state of a task changes no other state. -/
theorem setState_state (t t' : Slot) (state : TaskState) :
    ((s.setState t state).taskPool t').state = if t' = t then state else (s.taskPool t').state := by
  by_cases h : t' = t
  · simp [setState, h]
  · simp [setState, h]

/-- IDs do not depend on states. -/
theorem setState_id (t t' : Slot) (state : TaskState) :
    ((s.setState t state).taskPool t').id = (s.taskPool t').id := by
  by_cases h : t' = t
  · simp [setState, h]
  · simp [setState, Function.update_of_ne h]

/-- Saving a stack pointer changes no state. -/
theorem setESP_state (t t' : Slot) (esp : UInt64) :
    ((s.setESP t esp).taskPool t').state = (s.taskPool t').state := by
  by_cases h : t' = t
  · simp [setESP, h]
  · simp [setESP, Function.update_of_ne h]

/-- Saving a stack pointer changes no ID. -/
theorem setESP_id (t t' : Slot) (esp : UInt64) :
    ((s.setESP t esp).taskPool t').id = (s.taskPool t').id := by
  by_cases h : t' = t
  · simp [setESP, h]
  · simp [setESP, Function.update_of_ne h]

/-- The states of the tasks and their stacks do not matter to the layout. -/
theorem Layout.congr (hs : Layout s) {s' : Scheduler σ} (htasks : s'.tasks = s.tasks)
    (hids : ∀ t, (s'.taskPool t).id = (s.taskPool t).id) (hnext : s'.nextID = s.nextID) :
    Layout s' where
  slots := by
    rw [taskCount, htasks]
    exact hs.slots
  ids := by
    intro t ht
    rw [htasks] at ht
    rw [hids]
    exact hs.ids t ht
  nextID := by
    rw [hnext, taskCount, htasks]
    exact hs.nextID
  root := by
    rw [htasks]
    exact hs.root

section

variable (oldTask newTask : Slot)

@[simp] theorem switchTo_tasks : (s.switchTo cpu oldTask newTask).tasks = s.tasks := by
  simp only [switchTo]
  split <;> rfl

@[simp] theorem switchTo_currentTask :
    (s.switchTo cpu oldTask newTask).currentTask = some newTask := rfl

@[simp] theorem switchTo_nextID : (s.switchTo cpu oldTask newTask).nextID = s.nextID := by
  simp only [switchTo]
  split <;> rfl

/-- A switch changes no ID. -/
theorem switchTo_id (t : Slot) :
    ((s.switchTo cpu oldTask newTask).taskPool t).id = (s.taskPool t).id := by
  simp only [switchTo, setESP_id, setState_id]
  split
  · exact setState_id ..
  · rfl

/-- The new task runs, and the old one is runnable unless it is dead. -/
theorem switchTo_state (t : Slot) :
    ((s.switchTo cpu oldTask newTask).taskPool t).state =
      if t = newTask then .running
      else if t = oldTask ∧ (s.taskPool t).state ≠ .dead then .runnable
      else (s.taskPool t).state := by
  simp only [switchTo, setESP_state, setState_state]
  by_cases hnew : t = newTask
  · simp [hnew]
  · rw [if_neg hnew, if_neg hnew]
    by_cases hdead : (s.taskPool oldTask).state ≠ .dead
    · rw [if_pos hdead, setState_state]
      by_cases hold : t = oldTask
      · rw [if_pos hold, if_pos ⟨hold, hold ▸ hdead⟩]
      · rw [if_neg hold, if_neg (fun h => hold h.1)]
    · rw [if_neg hdead, if_neg]
      rintro ⟨rfl, h⟩
      exact hdead h

end

/-! ## The invariant -/

/-- The current task is in the given state, and the others wait for their turn or are dead. -/
structure Inv (state : TaskState) (s : Scheduler σ) : Prop extends Layout s where
  current : ∃ c ∈ s.tasks, s.currentTask = some c ∧ (s.taskPool c).state = state
  others : ∀ t ∈ s.tasks, s.currentTask ≠ some t →
    (s.taskPool t).state = .runnable ∨ (s.taskPool t).state = .dead
  root_alive : (s.taskPool 0).state ≠ .dead

/-- Dead tasks stay dead. -/
def KeepsDead (s s' : Scheduler σ) : Prop :=
  ∀ t ∈ s.tasks, (s.taskPool t).state = .dead → t ∈ s'.tasks ∧ (s'.taskPool t).state = .dead

/-- Nothing has changed. -/
theorem KeepsDead.refl (s : Scheduler σ) : KeepsDead s s := fun _ ht hdead => ⟨ht, hdead⟩

/-- Steps that keep dead tasks dead compose. -/
theorem KeepsDead.trans {s₁ s₂ s₃ : Scheduler σ} (h : KeepsDead s₁ s₂) (h' : KeepsDead s₂ s₃) :
    KeepsDead s₁ s₃ := by
  intro t ht hdead
  obtain ⟨ht', hdead'⟩ := h t ht hdead
  exact h' t ht' hdead'

/-- There is one current task. -/
theorem currentTask_ne_of_ne {c t : Slot} (hc : s.currentTask = some c) (hne : t ≠ c) :
    s.currentTask ≠ some t := by
  rw [hc, ne_eq, Option.some_inj]
  exact hne.symm

/-- The invariant holds after `Init`. -/
theorem inv_init (s : Scheduler σ) : Inv .running s.init where
  slots := rfl
  ids := by simp [init]
  nextID := rfl
  root := by simp [init]
  current := ⟨0, by simp [init]⟩
  others := by simp [init]
  root_alive := by simp [init]

variable (cpu)

/-- A switch to a runnable task makes it the current one; the old one waits, unless it is dead. -/
theorem Inv.switchTo {state : TaskState} (hs : Inv state s) {c t : Slot}
    (hc : s.currentTask = some c) (ht : t ∈ s.tasks)
    (hrunnable : (s.taskPool t).state = .runnable) :
    Inv .running (s.switchTo cpu c t) ∧ KeepsDead s (s.switchTo cpu c t) := by
  have hstate := @switchTo_state σ cpu s c t
  have hlayout : Layout (s.switchTo cpu c t) :=
    hs.toLayout.congr (switchTo_tasks c t) (switchTo_id c t) (switchTo_nextID c t)
  refine ⟨⟨hlayout, ?_, ?_, ?_⟩, ?_⟩
  · refine ⟨t, ?_, rfl, ?_⟩
    · rwa [switchTo_tasks]
    · rw [hstate, if_pos rfl]
  · intro t' ht' hother
    rw [switchTo_tasks] at ht'
    rw [switchTo_currentTask, ne_eq, Option.some_inj] at hother
    rw [hstate, if_neg (Ne.symm hother)]
    split
    case isTrue => exact .inl rfl
    case isFalse hold =>
      by_cases hcurrent : t' = c
      · exact .inr (by_contra fun hdead => hold ⟨hcurrent, hdead⟩)
      · exact hs.others t' ht' (currentTask_ne_of_ne hc hcurrent)
  · rw [hstate]
    split_ifs
    · simp
    · simp
    · exact hs.root_alive
  · intro t' ht' hdead
    refine ⟨by rwa [switchTo_tasks], ?_⟩
    have hne' : t' ≠ t := by
      rintro rfl
      rw [hrunnable] at hdead
      cases hdead
    rw [hstate, if_neg hne', if_neg (fun h => h.2 hdead), hdead]

/-- **One call of `Schedule`**, also in the state in which `Exit` calls it: the search succeeds and
the stacks are switched, or the current task goes on. -/
theorem Inv.schedule_eq {state : TaskState} (hs : Inv state s)
    (hstate : state = .running ∨ state = .dead) {c : Slot} (hcurrent : s.currentTask = some c) :
    (s.nextIndex = none ∧ state = .running ∧ s.schedule cpu = some s) ∨
      ∃ t ∈ s.tasks, s.nextIndex = some t.val ∧ (s.taskPool t).state = .runnable ∧
        s.schedule cpu = some (s.switchTo cpu c t) := by
  obtain ⟨c', hc, hcurrent', hcstate⟩ := hs.current
  obtain rfl : c = c' := Option.some.inj (hcurrent.symm.trans hcurrent')
  have hnext := hs.nextIndex_eq hc hcurrent
  have hclt := hs.mem_iff.mp hc
  cases hcase : s.nextIndex with
  | none =>
    -- task 0 would be runnable if the current task were dead
    have hroot : state ≠ .dead := by
      rintro rfl
      have hne : (0 : Slot) ≠ c := fun h => hs.root_alive (h ▸ hcstate)
      have hother := hs.others 0 hs.root (currentTask_ne_of_ne hcurrent hne)
      have hrunnable := (hs.isRunnable_iff hs.root).mpr (hother.resolve_right hs.root_alive)
      rw [hnext] at hcase
      have hidle := CyclicSearch.next_none hclt hcase (hs.mem_iff.mp hs.root)
        (fun h => hne (Fin.ext h))
      rw [hrunnable] at hidle
      cases hidle
    obtain rfl : state = .running := hstate.resolve_right hroot
    refine .inl ⟨rfl, rfl, ?_⟩
    simp [Scheduler.schedule, hcurrent, hcase, hcstate]
  | some idx =>
    rw [hnext] at hcase
    obtain ⟨hlt, hne, hrunnable⟩ := CyclicSearch.next_some hclt hcase
    have hidx : ∃ t : Slot, t.val = idx := ⟨⟨idx, hlt.trans_le hs.taskCount_le⟩, rfl⟩
    obtain ⟨t, rfl⟩ := hidx
    have ht : t ∈ s.tasks := hs.mem_iff.mpr hlt
    refine .inr ⟨t, ht, rfl, (hs.isRunnable_iff ht).mp hrunnable, ?_⟩
    have hmany : ¬ s.taskCount ≤ 1 := by omega
    simp [Scheduler.schedule, hmany, hcurrent, hnext, hcase, hs.getElem? ht]

/-- `Schedule` returns with a running task and never falls back. -/
theorem Inv.schedule {state : TaskState} (hs : Inv state s)
    (hstate : state = .running ∨ state = .dead) :
    s.fallsBack = false ∧
      ∃ s', s.schedule cpu = some s' ∧ Inv .running s' ∧ KeepsDead s s' := by
  obtain ⟨c, -, hcurrent, hcstate⟩ := hs.current
  obtain ⟨hnone, rfl, hschedule⟩ | ⟨t, ht, hnext, hrunnable, hschedule⟩ :=
    hs.schedule_eq cpu hstate hcurrent
  · refine ⟨?_, s, hschedule, hs, .refl s⟩
    simp [fallsBack, hcurrent, hcstate]
  · refine ⟨?_, _, hschedule, hs.switchTo cpu hcurrent ht hrunnable⟩
    simp [fallsBack, hnext]

/-- `Exit` of a task that is not the root marks it dead and goes on with another one. -/
theorem Inv.exit (hs : Inv .running s) (hroot : s.currentTask ≠ some 0) :
    ∃ c, s.currentTask = some c ∧ (s.setState c .dead).fallsBack = false ∧
      ∃ s', s.exit cpu = some s' ∧ Inv .running s' ∧ KeepsDead s s' := by
  obtain ⟨c, hc, hcurrent, -⟩ := hs.current
  have hne : c ≠ 0 := fun h => hroot (h ▸ hcurrent)
  have hdead : Inv .dead (s.setState c .dead) := by
    refine ⟨hs.toLayout.congr rfl (setState_id c · .dead) rfl, ⟨c, hc, hcurrent, ?_⟩, ?_, ?_⟩
    · rw [setState_state, if_pos rfl]
    · intro t ht hother
      have hne' : t ≠ c := by
        rintro rfl
        exact hother hcurrent
      rw [setState_state, if_neg hne']
      exact hs.others t ht hother
    · rw [setState_state, if_neg hne.symm]
      exact hs.root_alive
  obtain ⟨hback, s', hschedule, hinv, hkeep⟩ := hdead.schedule cpu (.inr rfl)
  refine ⟨c, hcurrent, hback, s', ?_, hinv, ?_⟩
  · rw [Scheduler.exit, hcurrent]
    exact hschedule
  · intro t ht htdead
    refine hkeep t ht ?_
    rw [setState_state]
    split
    · rfl
    · exact htdead

/-- A new task, or the refusal of one, keeps the invariant. -/
theorem Inv.newTaskEntry (hs : Inv .running s) (entry : UInt64) :
    Inv .running (s.newTaskEntry cpu entry).2 ∧ KeepsDead s (s.newTaskEntry cpu entry).2 := by
  rw [Scheduler.newTaskEntry]
  split
  case isFalse => exact ⟨hs, .refl s⟩
  case isTrue hlt =>
    split
    case isTrue => exact ⟨hs, .refl s⟩
    case isFalse =>
      set t : Slot := ⟨s.taskCount, hlt⟩
      have hnew : ∀ t' ∈ s.tasks, t' ≠ t := by
        rintro t' ht' rfl
        exact Nat.lt_irrefl _ (hs.mem_iff.mp ht')
      obtain ⟨c, hc, hcurrent, hcstate⟩ := hs.current
      refine ⟨⟨⟨?_, ?_, ?_, ?_⟩, ?_, ?_, ?_⟩, ?_⟩
      · rw [taskCount, List.map_append, hs.slots, List.length_append, List.length_singleton,
          List.range_succ]
        rfl
      · intro t' ht'
        obtain ht' | ht' := List.mem_append.mp ht'
        · simp only [Function.update_of_ne (hnew t' ht')]
          exact hs.ids t' ht'
        · obtain rfl := List.mem_singleton.mp ht'
          simp only [Function.update_self]
          exact hs.nextID
      · rw [taskCount, List.length_append, hs.nextID]
        rfl
      · exact List.mem_append_left _ hs.root
      · refine ⟨c, List.mem_append_left _ hc, hcurrent, ?_⟩
        simp only [Function.update_of_ne (hnew c hc)]
        exact hcstate
      · intro t' ht' hother
        obtain ht' | ht' := List.mem_append.mp ht'
        · simp only [Function.update_of_ne (hnew t' ht')]
          exact hs.others t' ht' hother
        · obtain rfl := List.mem_singleton.mp ht'
          simp only [Function.update_self, true_or]
      · simp only [Function.update_of_ne (hnew 0 hs.root)]
        exact hs.root_alive
      · intro t' ht' hdead
        refine ⟨List.mem_append_left _ ht', ?_⟩
        simp only [Function.update_of_ne (hnew t' ht')]
        exact hdead

/-! ## Whole runs -/

/-- Every permitted call returns, keeps the invariant, and leaves dead tasks dead. -/
theorem Inv.step (hs : Inv .running s) {op : Op} (hop : s.Permits op) :
    ∃ s', s.step cpu op = some s' ∧ Inv .running s' ∧ KeepsDead s s' := by
  cases op with
  | newTaskEntry entry => exact ⟨_, rfl, hs.newTaskEntry cpu entry⟩
  | schedule => exact (hs.schedule cpu (.inl rfl)).2
  | exit =>
    obtain ⟨_, _, _, hexit⟩ := hs.exit cpu (hop rfl)
    exact hexit

/-- One step of the system keeps the invariant. -/
theorem Inv.next (hs : Inv .running s) {s' : Scheduler σ} (h : Next cpu s s') :
    Inv .running s' ∧ KeepsDead s s' := by
  obtain ⟨op, hop, hstep⟩ := h
  obtain ⟨s'', hstep', hinv, hkeep⟩ := hs.step cpu hop
  obtain rfl : s'' = s' := Option.some.inj (hstep'.symm.trans hstep)
  exact ⟨hinv, hkeep⟩

/-- Any number of steps keeps it. -/
theorem Inv.later (hs : Inv .running s) {s' : Scheduler σ} (h : Later cpu s s') :
    Inv .running s' ∧ KeepsDead s s' := by
  induction h with
  | refl => exact ⟨hs, .refl s⟩
  | tail _ hnext ih =>
    obtain ⟨hinv, hkeep⟩ := ih
    obtain ⟨hinv', hkeep'⟩ := hinv.next cpu hnext
    exact ⟨hinv', hkeep.trans hkeep'⟩

/-- A dead task is not the current one. -/
theorem Inv.currentTask_ne (hs : Inv .running s) {t : Slot} (hdead : (s.taskPool t).state = .dead) :
    s.currentTask ≠ some t := by
  obtain ⟨c, -, hcurrent, hrunning⟩ := hs.current
  rw [hcurrent]
  rintro ⟨rfl⟩
  rw [hrunning] at hdead
  cases hdead

/-- **The scheduler, in every state of a run** in which task 0 does not exit. One task runs, and it
is the current one; the tasks are distinct slots with distinct IDs; the dead stay dead and are not
current again; the fallback to task 0 is not taken; and no call fails. -/
theorem one_task_runs (s₀ : Scheduler σ) (hs : Later cpu s₀.init s) :
    (∃ c ∈ s.tasks, s.currentTask = some c ∧
      ∀ t ∈ s.tasks, (s.taskPool t).state = .running ↔ t = c) ∧
    s.tasks.Nodup ∧ (s.tasks.map fun t => (s.taskPool t).id).Nodup ∧ s.taskCount ≤ 16 ∧
    (∀ t ∈ s.tasks, (s.taskPool t).state = .dead → ∀ s', Later cpu s s' →
      (s'.taskPool t).state = .dead ∧ s'.currentTask ≠ some t) ∧
    s.fallsBack = false ∧
    (∀ c, s.currentTask = some c → c ≠ 0 → (s.setState c .dead).fallsBack = false) ∧
    ∀ op, s.Permits op → (s.step cpu op).isSome = true := by
  obtain ⟨hinv, -⟩ := (inv_init s₀).later cpu hs
  obtain ⟨c, hc, hcurrent, hrunning⟩ := hinv.current
  refine ⟨⟨c, hc, hcurrent, fun t ht => ⟨fun hstate => ?_, fun h => h ▸ hrunning⟩⟩,
    hinv.nodup, hinv.nodup_ids, hinv.taskCount_le, ?_, (hinv.schedule cpu (.inl rfl)).1, ?_, ?_⟩
  · by_contra hne
    have hother := hinv.others t ht (currentTask_ne_of_ne hcurrent hne)
    rw [hstate] at hother
    simp at hother
  · intro t ht hdead s' hlater
    obtain ⟨hinv', hkeep⟩ := hinv.later cpu hlater
    obtain ⟨-, hdead'⟩ := hkeep t ht hdead
    exact ⟨hdead', hinv'.currentTask_ne hdead'⟩
  · intro c' hcurrent' hne
    obtain ⟨c'', hcurrent'', hback, -⟩ :=
      hinv.exit cpu (currentTask_ne_of_ne hcurrent' hne.symm)
    obtain rfl : c' = c'' := Option.some.inj (hcurrent'.symm.trans hcurrent'')
    exact hback
  · intro op hop
    obtain ⟨s', hstep, -⟩ := hinv.step cpu hop
    rw [hstep]
    rfl

/-- The machine of the tests: a switch saves the new stack pointer. -/
def stubCpu : Cpu Unit where
  stack := fun _ => 0x00200000
  taskAutoExit := 0x00100000
  store := fun _ _ _ => ()
  cpuSwitch := fun esp _ => (esp, ())

def blankScheduler : Scheduler Unit := ⟨fun _ => ⟨0, 0, .runnable⟩, [], none, 1, ()⟩

/-- A task is created, takes its turn, and exits: it is not current again. -/
theorem exited_task_not_current :
    ∃ s, Later stubCpu blankScheduler.init s ∧ (s.taskPool 1).state = .dead ∧
      ∀ s', Later stubCpu s s' → s'.currentTask ≠ some 1 := by
  let created := (blankScheduler.init.newTaskEntry stubCpu 0x00101000).2
  let switched := created.switchTo stubCpu 0 1
  let exited := (switched.setState 1 .dead).switchTo stubCpu 1 0
  have hcreated : Next stubCpu blankScheduler.init created :=
    ⟨.newTaskEntry 0x00101000, by simp [Permits], rfl⟩
  have hswitched : Next stubCpu created switched := ⟨.schedule, by simp [Permits], rfl⟩
  have hnext : (switched.setState 1 .dead).nextIndex = some 0 := by decide
  have hexited : Next stubCpu switched exited := by
    refine ⟨.exit, fun _ => by decide, ?_⟩
    change (switched.setState 1 .dead).schedule stubCpu = some exited
    rw [Scheduler.schedule, hnext]
    rfl
  have hlater : Later stubCpu blankScheduler.init exited :=
    ((Relation.ReflTransGen.single hcreated).tail hswitched).tail hexited
  obtain ⟨-, -, -, -, hdead, -, -, -⟩ := one_task_runs stubCpu blankScheduler hlater
  exact ⟨exited, hlater, rfl, fun s' h => (hdead 1 (by decide) rfl s' h).2⟩

end Scheduler

end DavOS.Kernel
