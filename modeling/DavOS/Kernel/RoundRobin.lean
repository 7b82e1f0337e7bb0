import DavOS.Kernel.SchedulerRuns

/-!
# Round robin

The abstract scheduler is a queue: the live tasks, with the current one in front. `Schedule` moves
the front of the queue to its end (`Inv.turn`), so that as many calls as there are live tasks make
each of them current once and restore the queue.
-/

namespace DavOS.Kernel

namespace Scheduler

variable {σ : Type} (cpu : Cpu σ) {s : Scheduler σ}

/-- The task is in one of the states `Runnable` and `Running`. -/
def isLive (s : Scheduler σ) (t : Slot) : Bool :=
  (s.taskPool t).state = .runnable ∨ (s.taskPool t).state = .running

/-- The live tasks, in the order of their slots. -/
def live (s : Scheduler σ) : List Slot := s.tasks.filter s.isLive

/-- The live tasks in the order of their slots, from the current one on and around. -/
def queue (s : Scheduler σ) : List Slot :=
  match s.currentTask with
  | none => []
  | some c => (s.tasks.rotate c.val).filter s.isLive

/-- Consecutive calls of `Schedule`, with the state after each of them. In between the tasks run,
and the next call finds the machine in some other state. -/
def schedules (s : Scheduler σ) : List σ → Option (List (Scheduler σ))
  | [] => some []
  | m :: ms => do
    let s' ← { s with machine := m }.schedule cpu
    let run ← s'.schedules ms
    some (s' :: run)

/-! ## The queue -/

/-- The live tasks are those that run or wait for their turn. -/
theorem isLive_iff {t : Slot} :
    s.isLive t = true ↔ (s.taskPool t).state = .runnable ∨ (s.taskPool t).state = .running := by
  simp [isLive]

/-- By index, the queue is a ring. -/
theorem Layout.map_val_queue (hs : Layout s) {c : Slot} (hcurrent : s.currentTask = some c) :
    s.queue.map Fin.val =
      CyclicSearch.ring (fun i => s.tasks[i]?.any s.isLive) s.taskCount c.val := by
  simp only [queue, hcurrent]
  rw [CyclicSearch.ring, ← hs.slots, ← List.map_rotate, List.filter_map]
  refine congrArg _ (List.filter_congr fun t ht => ?_)
  rw [Function.comp_apply, hs.getElem? (List.mem_rotate.mp ht), Option.any_some]

/-- The current task is live. -/
theorem Inv.isLive_current (hs : Inv .running s) {c : Slot} (hcurrent : s.currentTask = some c) :
    c ∈ s.tasks ∧ s.isLive c = true := by
  obtain ⟨c', hc, hcurrent', hrunning⟩ := hs.current
  obtain rfl : c = c' := Option.some.inj (hcurrent.symm.trans hcurrent')
  exact ⟨hc, isLive_iff.mpr (.inr hrunning)⟩

/-- Behind the current task the live tasks are the runnable ones. -/
theorem Inv.isRunnable_eq (hs : Inv .running s) {c : Slot} (hcurrent : s.currentTask = some c) :
    ∀ i < s.taskCount, i ≠ c.val → s.isRunnable i = s.tasks[i]?.any s.isLive := by
  intro i hi hne
  obtain ⟨t, rfl⟩ : ∃ t : Slot, t.val = i := ⟨⟨i, hi.trans_le hs.taskCount_le⟩, rfl⟩
  have ht : t ∈ s.tasks := hs.mem_iff.mpr hi
  have hother := hs.others t ht (currentTask_ne_of_ne hcurrent fun h => hne (h ▸ rfl))
  rw [hs.getElem? ht, Option.any_some, Bool.eq_iff_iff, hs.isRunnable_iff ht, isLive_iff]
  obtain h | h := hother
  · simp [h]
  · simp [h]

/-- A switch between live tasks changes nothing about who is live. -/
theorem isLive_switchTo {c t : Slot} (hc : s.isLive c = true) (ht : s.isLive t = true) (t' : Slot) :
    (s.switchTo cpu c t).isLive t' = s.isLive t' := by
  rw [isLive_iff] at hc ht
  rw [Bool.eq_iff_iff, isLive_iff, isLive_iff, switchTo_state]
  split_ifs with hnew hold
  · simp [hnew, ht]
  · simp [hold.1, hc]
  · rfl

/-- **One call of `Schedule`** moves the front of the queue to its end. -/
theorem Inv.turn (hs : Inv .running s) :
    ∃ s', s.schedule cpu = some s' ∧ Inv .running s' ∧ s'.tasks = s.tasks ∧
      (∀ t, s'.isLive t = s.isLive t) ∧ s'.queue = s.queue.rotate 1 := by
  obtain ⟨c, hc, hcurrent, -⟩ := hs.current
  have hclt := hs.mem_iff.mp hc
  have hclive := (hs.isLive_current hcurrent).2
  have hcany : s.tasks[c.val]?.any s.isLive = true := by
    rwa [hs.getElem? hc, Option.any_some]
  have hagree := hs.isRunnable_eq hcurrent
  have hnext := hs.nextIndex_eq hc hcurrent
  obtain ⟨hnone, -, hschedule⟩ | ⟨t, ht, hsome, hrunnable, hschedule⟩ :=
    hs.schedule_eq cpu (.inl rfl) hcurrent
  · refine ⟨s, hschedule, hs, rfl, fun _ => rfl, ?_⟩
    rw [hnext] at hnone
    have hqueue : s.queue.map Fin.val = [c].map Fin.val := by
      rw [hs.map_val_queue hcurrent, CyclicSearch.ring_of_next_none hclt hcany hagree hnone]
      rfl
    rw [List.map_injective_iff.mpr Fin.val_injective hqueue, List.rotate_singleton]
  · have hlive := isLive_switchTo cpu hclive (isLive_iff.mpr (.inl hrunnable))
    obtain ⟨hinv, -⟩ := hs.switchTo cpu hcurrent ht hrunnable
    refine ⟨_, hschedule, hinv, switchTo_tasks c t, hlive, ?_⟩
    rw [hnext] at hsome
    apply List.map_injective_iff.mpr Fin.val_injective
    rw [hinv.map_val_queue (switchTo_currentTask c t), List.map_rotate,
      hs.map_val_queue hcurrent, ← CyclicSearch.ring_of_next_some hclt hcany hagree hsome,
      taskCount, taskCount, switchTo_tasks, funext hlive]

/-! ## A whole turn -/

/-- The queue is the table of live tasks, from the current one on. -/
theorem Inv.queue_eq (hs : Inv .running s) {c : Slot} (hcurrent : s.currentTask = some c) :
    s.queue = s.live.rotate (s.live.idxOf c) := by
  obtain ⟨hc, hclive⟩ := hs.isLive_current hcurrent
  simp only [queue, hcurrent]
  exact CyclicSearch.filter_rotate hs.nodup (hs.getElem? hc) hclive

/-- The current task is in front. -/
theorem Inv.queue_eq_cons (hs : Inv .running s) {c : Slot} (hcurrent : s.currentTask = some c) :
    ∃ others, s.queue = c :: others := by
  obtain ⟨hc, hclive⟩ := hs.isLive_current hcurrent
  have hhead : (s.tasks.rotate c.val).head? = some c := by
    rw [List.head?_rotate (hs.mem_iff.mp hc), hs.getElem? hc]
  obtain ⟨others, hothers⟩ := List.head?_eq_some_iff.mp hhead
  simp only [queue, hcurrent, hothers, List.filter_cons_of_pos hclive]
  exact ⟨_, rfl⟩

/-- The scheduler does not read the machine. -/
theorem Inv.withMachine {state : TaskState} (hs : Inv state s) (m : σ) :
    Inv state { s with machine := m } :=
  ⟨⟨hs.slots, hs.ids, hs.nextID, hs.root⟩, hs.current, hs.others, hs.root_alive⟩

/-- Consecutive calls make the tasks behind the front of the queue current, one after the other. -/
theorem Inv.schedules (hs : Inv .running s) (ms : List σ) (hms : ms.length ≤ s.queue.length) :
    ∃ run, s.schedules cpu ms = some run ∧
      run.map currentTask = ((s.queue.rotate 1).take ms.length).map some ∧
      ∃ s', run.getLast?.getD s = s' ∧ Inv .running s' ∧ s'.tasks = s.tasks ∧
        (∀ t, s'.isLive t = s.isLive t) ∧ s'.queue = s.queue.rotate ms.length := by
  induction ms generalizing s with
  | nil => exact ⟨[], rfl, rfl, s, rfl, hs, rfl, fun _ => rfl, (List.rotate_zero _).symm⟩
  | cons m ms ih =>
    obtain ⟨s', hschedule, hinv, htasks, hlive, hqueue⟩ := (hs.withMachine m).turn cpu
    have hlength : s'.queue.length = s.queue.length := by
      rw [hqueue, List.length_rotate]
      rfl
    obtain ⟨run, hrun, hcurrents, s'', hlast, hinv', htasks', hlive', hqueue'⟩ :=
      ih hinv (by rw [hlength]; exact Nat.le_of_succ_le hms)
    obtain ⟨c, -, hcurrent, -⟩ := hinv.current
    obtain ⟨others, hothers⟩ := hinv.queue_eq_cons hcurrent
    refine ⟨s' :: run, ?_, ?_, s'', ?_, hinv', htasks'.trans htasks,
      fun t => (hlive' t).trans (hlive t), ?_⟩
    · simp [Scheduler.schedules, hschedule, hrun]
    · -- the front of the queue is the first of the tasks that become current
      have hshort : ms.length ≤ others.length := by
        rw [← hlength, hothers, List.length_cons, List.length_cons] at hms
        omega
      rw [List.map_cons, hcurrents, hcurrent]
      change _ = ((({ s with machine := m } : Scheduler σ).queue.rotate 1).take _).map some
      rw [← hqueue, hothers, List.length_cons, List.take_succ_cons, List.map_cons,
        List.rotate_cons_succ, List.rotate_zero, List.take_append_of_le_length hshort]
    · rw [List.getLast?_cons, Option.getD_some, hlast]
    · rw [hqueue', hqueue, List.rotate_rotate, List.length_cons, Nat.add_comm]
      rfl

/-- The state of a task follows from which task is current and which tasks are live. -/
theorem Inv.state_eq (hs : Inv .running s) {t : Slot} (ht : t ∈ s.tasks) :
    (s.taskPool t).state =
      if s.currentTask = some t then .running else if s.isLive t then .runnable else .dead := by
  obtain ⟨c, -, hcurrent, hrunning⟩ := hs.current
  split
  case isTrue h =>
    obtain rfl : c = t := Option.some.inj (hcurrent.symm.trans h)
    exact hrunning
  case isFalse h =>
    obtain hrunnable | hdead := hs.others t ht h
    · rw [if_pos (isLive_iff.mpr (.inl hrunnable)), hrunnable]
    · rw [if_neg (by simp [isLive, hdead]), hdead]

/-- **Round robin.** As many consecutive calls of `Schedule` as there are live tasks make each live
task current once, in the order of the slots behind the starting task and around, and end with the
starting task current and all tasks in the states they started in. -/
theorem each_live_task_once (s₀ : Scheduler σ) (hs : Later cpu s₀.init s) {c : Slot}
    (hcurrent : s.currentTask = some c) (ms : List σ) (hms : ms.length = s.live.length) :
    s.live.Pairwise (· < ·) ∧ c ∈ s.live ∧
    ∃ run, s.schedules cpu ms = some run ∧
      run.map currentTask = (s.live.rotate (s.live.idxOf c + 1)).map some ∧
      ∃ s', run.getLast? = some s' ∧ s'.currentTask = some c ∧ s'.tasks = s.tasks ∧
        ∀ t ∈ s.tasks, (s'.taskPool t).state = (s.taskPool t).state := by
  obtain ⟨hinv, -⟩ := (inv_init s₀).later cpu hs
  obtain ⟨hc, hclive⟩ := hinv.isLive_current hcurrent
  have hcmem : c ∈ s.live := List.mem_filter.mpr ⟨hc, hclive⟩
  have hqueue := hinv.queue_eq hcurrent
  have hlength : ms.length = s.queue.length := by rw [hqueue, List.length_rotate, hms]
  obtain ⟨run, hrun, hcurrents, s', hlast, hinv', htasks, hlive, hqueue'⟩ :=
    hinv.schedules cpu ms hlength.le
  have hcurrent' : s'.currentTask = some c := by
    obtain ⟨others, hothers⟩ := hinv.queue_eq_cons hcurrent
    obtain ⟨c', -, hc', -⟩ := hinv'.current
    obtain ⟨others', hothers'⟩ := hinv'.queue_eq_cons hc'
    rw [hlength, List.rotate_length, hothers, hothers'] at hqueue'
    rw [hc', (List.cons.inj hqueue').1]
  refine ⟨?_, hcmem, run, hrun, ?_, s', ?_, hcurrent', htasks, ?_⟩
  · have hslots : (s.tasks.map Fin.val).Pairwise (· < ·) := by
      rw [hinv.slots]
      exact List.pairwise_lt_range
    rw [List.pairwise_map] at hslots
    exact hslots.filter _
  · rw [hcurrents, hlength, ← List.length_rotate s.queue 1, List.take_length, hqueue,
      List.rotate_rotate]
  · cases hrun' : run.getLast? with
    | none =>
      have hcount := congrArg List.length hcurrents
      rw [List.getLast?_eq_none_iff.mp hrun', hlength, ← List.length_rotate s.queue 1,
        List.take_length, hqueue] at hcount
      have hpos := List.length_pos_of_mem hcmem
      simp only [List.map_nil, List.length_nil, List.length_map, List.length_rotate] at hcount
      omega
    | some last =>
      rw [hrun', Option.getD_some] at hlast
      rw [hlast]
  · intro t ht
    rw [hinv'.state_eq (htasks ▸ ht), hinv.state_eq ht, hcurrent', hcurrent, hlive t]

/-- Two tasks, the second of them new: it is current after one call, the first after two. -/
theorem both_tasks_once :
    ∃ s, Later stubCpu blankScheduler.init s ∧ s.live = [0, 1] ∧
      ∃ run, s.schedules stubCpu [(), ()] = some run ∧
        run.map currentTask = [some 1, some 0] := by
  let created := (blankScheduler.init.newTaskEntry stubCpu 0x00101000).2
  have hcreated : Later stubCpu blankScheduler.init created :=
    .single ⟨.newTaskEntry 0x00101000, by simp [Permits], rfl⟩
  obtain ⟨-, -, run, hrun, hcurrents, -⟩ :=
    each_live_task_once stubCpu blankScheduler hcreated (c := 0) rfl [(), ()] (by decide)
  exact ⟨created, hcreated, by decide, run, hrun, by rw [hcurrents]; decide⟩

end Scheduler

end DavOS.Kernel
