import DavOS.Kernel.ContextSwitch
import DavOS.Lib.Runs

/-!
# Tasks that switch to each other

A run of the tasks: one of them works, creates another one with `NewTaskEntry`, or switches to
another one with `cpuSwitch`. `resume` is history: it tells for each task where it should go on. A
task that is resumed finds its stack pointer, `rbx`, `rbp` and its place in the code
(`Inv.switch`). The registers R12 to R15 are those of the task that ran before.
-/

namespace DavOS.Kernel

open Amd64 Runs
open LittleEndian (toNat_add_ofNat)

structure Multitasking where
  machine : Machine
  taskCount : ℕ
  current : Slot
  resume : Slot → Resume

inductive Event
  /-- The current task works until the machine is `m`. -/
  | work (m : Machine)
  | newTaskEntry (entry : UInt64)
  | cpuSwitch (task : Slot) (returnAddress : UInt64)

namespace Multitasking

/-- After `Init`, task 0 runs. -/
def boot (m : Machine) : Multitasking := ⟨m, 1, ⟨0, by decide⟩, fun _ => .fresh 0⟩

variable (L : Layout)

def step (s : Multitasking) : Event → Multitasking
  | .work m => { s with machine := m }
  | .newTaskEntry entry =>
    if h : s.taskCount < maxTasks then
      if entry = 0 then s
      else
        let t : Slot := ⟨s.taskCount, h⟩
        let (sp, m) := Scheduler.pushEntry L.cpu t entry s.machine
        { s with
          machine := { m with mem := store (.ofNat (L.esp t)) sp m.mem }
          taskCount := s.taskCount + 1
          resume := Function.update s.resume t (.fresh entry) }
    else s
  | .cpuSwitch task returnAddress =>
    { s with
      machine := Kernel.cpuSwitch (.ofNat (L.esp s.current))
        (load (.ofNat (L.esp task)) s.machine.mem) returnAddress s.machine
      current := task
      resume := Function.update s.resume s.current (.out s.machine.regs returnAddress) }

/-- What a task may do: it leaves alone what the others own, and it switches to another task, with
room for the call on its own stack. -/
def Permits (s : Multitasking) : Event → Prop
  | .work m => ∀ t : Slot, t < s.taskCount → t ≠ s.current →
      ∀ a, L.Own t a → m.mem a = s.machine.mem a
  | .newTaskEntry _ => True
  | .cpuSwitch task _ => task < s.taskCount ∧ task ≠ s.current ∧
      L.low s.current + 40 ≤ (s.machine.regs .rsp).toNat ∧
      (s.machine.regs .rsp).toNat ≤ L.high s.current

variable {L} {s : Multitasking} {e : Event}

/-! ## The invariant -/

/-- All tasks but the current one are parked. -/
structure Inv (L : Layout) (s : Multitasking) : Prop where
  count_le : s.taskCount ≤ maxTasks
  current_lt : s.current < s.taskCount
  parked : ∀ t : Slot, t < s.taskCount → t ≠ s.current → Parked L s.machine.mem t (s.resume t)

namespace Inv

/-- At the start there is one task, and it runs. -/
theorem boot (m : Machine) : Inv L (boot m) where
  count_le := show 1 ≤ 16 by decide
  current_lt := Nat.one_pos
  parked t hlt hne := absurd (Fin.ext (Nat.lt_one_iff.mp hlt)) hne

/-- Work of the current task leaves the others parked. -/
theorem work (h : Inv L s) {m : Machine} (hp : s.Permits L (.work m)) :
    Inv L (s.step L (.work m)) where
  count_le := h.count_le
  current_lt := h.current_lt
  parked t hlt hne := (h.parked t hlt hne).congr (hp t hlt hne)

/-- A new task is parked at its entry. -/
theorem newTaskEntry (h : Inv L s) (entry : UInt64) : Inv L (s.step L (.newTaskEntry entry)) := by
  rw [step]
  split
  case isFalse => exact h
  case isTrue hcount =>
    split
    case isTrue => exact h
    case isFalse =>
      have hcurrent := h.current_lt
      obtain ⟨hparked, hframe⟩ := parked_pushEntry (L := L)
        (show ((⟨s.taskCount, hcount⟩ : Slot) : ℕ) ≠ 0 from Nat.ne_zero_of_lt hcurrent) entry
        s.machine
      refine ⟨hcount, Nat.lt_succ_of_lt hcurrent, ?_⟩
      intro t hlt hne
      dsimp only at hlt hne ⊢
      by_cases ht : t = ⟨s.taskCount, hcount⟩
      · rw [ht, Function.update_self]
        exact hparked
      · rw [Function.update_of_ne ht]
        have hold : (t : ℕ) < s.taskCount :=
          Nat.lt_of_le_of_ne (Nat.le_of_lt_succ hlt) fun heq => ht (Fin.ext heq)
        exact (h.parked t hold hne).congr fun b hb => hframe b (Layout.own_disjoint ht hb)

/-- A switch parks the task that ran, and leaves what the others own. -/
theorem mem_cpuSwitch {task : Slot} {returnAddress : UInt64}
    (hp : s.Permits L (.cpuSwitch task returnAddress)) :
    Parked L (s.step L (.cpuSwitch task returnAddress)).machine.mem s.current
        (.out s.machine.regs returnAddress) ∧
      ∀ t ≠ s.current, ∀ b, L.Own t b →
        (s.step L (.cpuSwitch task returnAddress)).machine.mem b = s.machine.mem b := by
  obtain ⟨-, -, hlow, hhigh⟩ := hp
  obtain ⟨hparked, hframe⟩ := parked_parkedMemory
    (load (.ofNat (L.esp task)) s.machine.mem) returnAddress hlow hhigh
  rw [step, (cpuSwitch_eq _ _ _ _).1]
  exact ⟨hparked, fun t ht b hb => hframe b (Layout.own_disjoint ht hb)⟩

/-- A switch parks the current task, and the other one runs. -/
theorem cpuSwitch (h : Inv L s) {task : Slot} {returnAddress : UInt64}
    (hp : s.Permits L (.cpuSwitch task returnAddress)) :
    Inv L (s.step L (.cpuSwitch task returnAddress)) where
  count_le := h.count_le
  current_lt := hp.1
  parked t hlt _ := by
    obtain ⟨hparked, hmem⟩ := mem_cpuSwitch hp
    rw [step]
    dsimp only
    by_cases ht : t = s.current
    · rw [ht, Function.update_self]
      exact hparked
    · rw [Function.update_of_ne ht]
      exact (h.parked t hlt ht).congr (hmem t ht)

/-- One event keeps the invariant. -/
protected theorem step (h : Inv L s) (hp : s.Permits L e) : Inv L (s.step L e) := by
  cases e with
  | work m => exact h.work hp
  | newTaskEntry entry => exact h.newTaskEntry entry
  | cpuSwitch task returnAddress => exact h.cpuSwitch hp

/-- Any run keeps it. -/
theorem ofRun {m : Machine} {events : List Event}
    (h : AllSteps (step L) (Permits L) (Multitasking.boot m) events) :
    Inv L (run (step L) (Multitasking.boot m) events) :=
  h.invariant (fun _ _ hs hp => hs.step hp) (.boot m)

end Inv

/-! ## Resuming -/

/-- What a task finds when it is resumed; `kept` are registers that should be as they were. -/
def Resumed (L : Layout) (kept : List Reg) (m : Machine) : Resume → Prop
  | .fresh entry => m.rip = entry ∧ (m.regs .rsp).toNat % 16 = 8 ∧
      load (m.regs .rsp) m.mem = L.taskAutoExit
  | .out regs rip => m.rip = rip ∧ ∀ r ∈ kept, m.regs r = regs r

/-- A task goes on where its stack says. -/
theorem resumed_of_parked {t : Slot} {c : Resume} {m : Machine} {sp : UInt64}
    (h : Parked L m.mem t c) (hesp : load (.ofNat (L.esp t)) m.mem = sp)
    (hrip : m.rip = load (sp + 32) m.mem) (hrsp : m.regs .rsp = sp + 40)
    (hrbx : m.regs .rbx = load (sp + 16) m.mem) (hrbp : m.regs .rbp = load (sp + 24) m.mem) :
    Resumed L [.rsp, .rbx, .rbp] m c := by
  cases c with
  | fresh entry =>
    obtain ⟨sp', hframe, hexit, hmod, hhigh⟩ := h
    obtain rfl : sp' = sp := hframe.esp.symm.trans hesp
    have hlt := L.high_lt t
    have hnat : (sp' + 40).toNat = sp'.toNat + 40 := toNat_add_ofNat (k := 40) (by omega)
    refine ⟨hrip.trans hframe.rip, ?_, ?_⟩
    · rw [hrsp, hnat]
      omega
    · rw [hrsp, hexit]
  | out regs rip =>
    obtain rfl : regs .rsp - 40 = sp := (Frame.esp h).symm.trans hesp
    refine ⟨hrip.trans (Frame.rip h), ?_⟩
    simp only [List.forall_mem_cons, List.not_mem_nil, false_imp_iff, implies_true, and_true]
    exact ⟨hrsp.trans (UInt64.sub_add_cancel _ _), hrbx.trans (Frame.rbx h),
      hrbp.trans (Frame.rbp h)⟩

/-- **A task that is switched to goes on where it should**, with its stack pointer, `rbx` and
`rbp`. -/
theorem Inv.switch (h : Inv L s) {task : Slot} {returnAddress : UInt64}
    (hp : s.Permits L (.cpuSwitch task returnAddress)) :
    Resumed L [.rsp, .rbx, .rbp] (s.step L (.cpuSwitch task returnAddress)).machine
      (s.resume task) := by
  obtain ⟨-, hmem⟩ := Inv.mem_cpuSwitch hp
  obtain ⟨hlt, hne, -, -⟩ := hp
  have hparked := (h.parked task hlt hne).congr (hmem task hne)
  -- the stack pointer is read before the pushes
  have hesp := (L.word_esp task).load_eq (hmem task hne)
  obtain ⟨hmem', hrip, hrsp, hrbx, hrbp⟩ := cpuSwitch_eq (.ofNat (L.esp s.current))
    (load (.ofNat (L.esp task)) s.machine.mem) returnAddress s.machine
  rw [← hmem'] at hrip hrbx hrbp
  exact resumed_of_parked hparked hesp hrip hrsp hrbx hrbp

/-! ## The registers that are not saved -/

/-- The registers that a function must not change, and that `CpuSwitch` does not save. -/
def unsavedRegs : List Reg := [.r12, .r13, .r14, .r15]

/-- The current task has been switched to: since `boot` some task has been switched out. -/
def SwitchedTo (s : Multitasking) : Prop := ∃ t regs rip, s.resume t = .out regs rip

/-- A task that has been switched to does not change them while it works. -/
def KeepsUnsaved (s : Multitasking) : Event → Prop
  | .work m => s.SwitchedTo → ∀ r ∈ unsavedRegs, m.regs r = s.machine.regs r
  | _ => True

/-- A switch leaves the registers that it does not save. -/
theorem regs_cpuSwitch (task : Slot) (returnAddress : UInt64) {r : Reg} (hr : r ∈ unsavedRegs) :
    (s.step L (.cpuSwitch task returnAddress)).machine.regs r = s.machine.regs r := by
  refine cpuSwitch_regs _ _ _ _ ?_
  rw [unsavedRegs] at hr
  revert r
  decide

/-- So does any event after the first switch, if the tasks do not change them. -/
theorem regs_step (h : s.SwitchedTo) (hkeep : s.KeepsUnsaved e) {r : Reg} (hr : r ∈ unsavedRegs) :
    (s.step L e).machine.regs r = s.machine.regs r := by
  cases e with
  | work m => exact hkeep h r hr
  | newTaskEntry entry =>
    rw [step]
    split
    · split
      · rfl
      · rfl
    · rfl
  | cpuSwitch task returnAddress => exact regs_cpuSwitch task returnAddress hr

/-- Only a switch adds registers, those of the task that runs. -/
theorem out_of_step {t : Slot} {regs : Reg → UInt64} {rip : UInt64}
    (h : (s.step L e).resume t = .out regs rip) :
    s.resume t = .out regs rip ∨
      ∃ task returnAddress, e = .cpuSwitch task returnAddress ∧ regs = s.machine.regs := by
  cases e with
  | work m => exact .inl h
  | newTaskEntry entry =>
    rw [step] at h
    split at h
    case isFalse => exact .inl h
    case isTrue hcount =>
      split at h
      case isTrue => exact .inl h
      case isFalse =>
        by_cases ht : t = ⟨s.taskCount, hcount⟩
        · rw [ht] at h
          cases (Function.update_self ..).symm.trans h
        · exact .inl ((Function.update_of_ne ht ..).symm.trans h)
  | cpuSwitch task returnAddress =>
    by_cases ht : t = s.current
    · rw [ht] at h
      cases (Function.update_self ..).symm.trans h
      exact .inr ⟨task, _, rfl, rfl⟩
    · exact .inl ((Function.update_of_ne ht ..).symm.trans h)

/-- Every task that was switched out has left them as they are. -/
def Shared (s : Multitasking) : Prop :=
  ∀ t regs rip, s.resume t = .out regs rip → ∀ r ∈ unsavedRegs, regs r = s.machine.regs r

/-- One event keeps them shared. -/
protected theorem Shared.step (h : s.Shared) (hkeep : s.KeepsUnsaved e) : (s.step L e).Shared := by
  intro t regs rip hresume r hr
  obtain hold | ⟨task, returnAddress, rfl, rfl⟩ := out_of_step hresume
  · rw [regs_step ⟨t, regs, rip, hold⟩ hkeep hr]
    exact h t regs rip hold r hr
  · rw [regs_cpuSwitch _ _ hr]

/-- Any run keeps them shared. -/
theorem Shared.ofRun {m : Machine} {events : List Event}
    (h : AllSteps (step L) KeepsUnsaved (boot m) events) : (run (step L) (boot m) events).Shared :=
  h.invariant (fun _ _ hs hkeep => hs.step hkeep) fun _ _ _ hresume => by cases hresume

/-- The registers that a function must not change, with the stack pointer. -/
def calleeSaved : List Reg := [.rsp, .rbx, .rbp] ++ unsavedRegs

/-- **Context switches are transparent**, for tasks that leave R12 to R15 alone from the switch to
them on: in every run, a switch to a new task goes to its entry with an aligned stack and
`taskAutoExit` as the return address, and a switch to another one goes on right after its call,
with the registers as they were there. -/
theorem switches_transparent (L : Layout) (m : Machine) (events : List Event) (task : Slot)
    (returnAddress : UInt64)
    (hpermits : AllSteps (step L) (Permits L) (boot m) (events ++ [.cpuSwitch task returnAddress]))
    (hkeep : AllSteps (step L) KeepsUnsaved (boot m) events) :
    Resumed L calleeSaved
      (run (step L) (boot m) (events ++ [.cpuSwitch task returnAddress])).machine
      ((run (step L) (boot m) events).resume task) := by
  obtain ⟨hruns, hp⟩ := allSteps_concat.mp hpermits
  have hresumed := (Inv.ofRun hruns).switch hp
  have hshared := Shared.ofRun hkeep
  rw [run_concat]
  generalize run (step L) (boot m) events = s at *
  cases hresume : s.resume task with
  | fresh entry =>
    rw [hresume] at hresumed
    exact hresumed
  | out regs rip =>
    rw [hresume] at hresumed
    obtain ⟨hrip, hsaved⟩ := hresumed
    refine ⟨hrip, fun r hr => ?_⟩
    obtain hr | hr := List.mem_append.mp hr
    · exact hsaved r hr
    · rw [hshared task regs rip hresume r hr, regs_cpuSwitch task returnAddress hr]

/-! ## Two tasks -/

/-- The records of the tasks at 2 MiB, and the boot stack at 1 MiB. -/
def twoTasks : Layout where
  taskPool := 0x200000
  stackBottom := 0x100000
  stackTop := 0x104000
  taskAutoExit := 0x300000
  pool_lt := by decide
  stack_lt := by decide
  apart := by decide

/-- Task 0 runs at the top of its stack, with 7 in R12. -/
def firstMachine : Machine where
  regs r := if r = .rsp then 0x104000 else if r = .r12 then 7 else 0
  rip := 0
  mem _ := 0

/-- Task 0 creates task 1 and switches to it. -/
def afterSwitch : Multitasking :=
  run (step twoTasks) (boot firstMachine)
    [.newTaskEntry 0x400000, .cpuSwitch ⟨1, by decide⟩ 0x500000]

/-- Task 1 works, and has `w` in R12 then. -/
def secondMachine (w : UInt64) : Machine where
  regs r := if r = .rsp then 0x202000 else if r = .r12 then w else 0
  rip := 0
  mem := afterSwitch.machine.mem

def secondEvents (w : UInt64) : List Event :=
  [.newTaskEntry 0x400000, .cpuSwitch ⟨1, by decide⟩ 0x500000, .work (secondMachine w)]

/-- The run of the example is one of the system. -/
theorem permits_secondEvents (w : UInt64) :
    AllSteps (step twoTasks) (Permits twoTasks) (boot firstMachine)
      (secondEvents w ++ [.cpuSwitch 0 0x600000]) := by
  have hroom : twoTasks.low 1 + 40 ≤ 0x202000 ∧ 0x202000 ≤ twoTasks.high 1 := by decide
  exact ⟨trivial, ⟨by decide, by decide, by decide, by decide⟩, fun _ _ _ _ _ => rfl,
    ⟨show 0 < 2 by decide, show (0 : Slot) ≠ 1 by decide, hroom.1, hroom.2⟩, trivial⟩

/-- The state when task 1 has worked. -/
def afterWork (w : UInt64) : Multitasking :=
  run (step twoTasks) (boot firstMachine) (secondEvents w)

/-- Task 0 after boot, before it has put anything in R12. -/
def bootMachine : Machine where
  regs r := if r = .rsp then 0x104000 else 0
  rip := 0
  mem _ := 0

/-- Task 0 sets R12 before its first switch, task 1 leaves R12 to R15 alone, and task 0 finds them
as they were. -/
theorem first_task_resumed :
    Resumed twoTasks calleeSaved
        (run (step twoTasks) (boot bootMachine)
          (.work firstMachine :: secondEvents 7 ++ [.cpuSwitch 0 0x600000])).machine
        ((run (step twoTasks) (boot bootMachine) (.work firstMachine :: secondEvents 7)).resume 0) ∧
      ((run (step twoTasks) (boot bootMachine) (.work firstMachine :: secondEvents 7)).resume 0) =
        .out firstMachine.regs 0x500000 ∧
      firstMachine.regs .r12 = 7 := by
  have halone : (boot bootMachine).Permits twoTasks (.work firstMachine) := by
    intro t hlt hne
    exact absurd (Fin.ext (Nat.lt_one_iff.mp hlt)) hne
  have hfirst : (boot bootMachine).KeepsUnsaved (.work firstMachine) := by
    rintro ⟨t, regs, rip, hresume⟩
    cases hresume
  have hkeep : ∀ r ∈ unsavedRegs, (secondMachine 7).regs r = afterSwitch.machine.regs r := by decide
  refine ⟨?_, rfl, rfl⟩
  exact switches_transparent twoTasks bootMachine (.work firstMachine :: secondEvents 7) 0 0x600000
    ⟨halone, permits_secondEvents 7⟩ ⟨hfirst, trivial, trivial, fun _ => hkeep, trivial⟩

/-- Task 1 puts 9 in R12, and task 0, which had 7 in it, goes on with 9. -/
theorem r12_lost :
    AllSteps (step twoTasks) (Permits twoTasks) (boot firstMachine)
        (secondEvents 9 ++ [.cpuSwitch 0 0x600000]) ∧
      (∃ regs, (afterWork 9).resume 0 = .out regs 0x500000 ∧ regs .r12 = 7) ∧
      ((afterWork 9).step twoTasks (.cpuSwitch 0 0x600000)).machine.regs .r12 = 9 := by
  refine ⟨permits_secondEvents 9, ⟨firstMachine.regs, rfl, rfl⟩, ?_⟩
  rw [regs_cpuSwitch 0 0x600000 (r := .r12) (by decide)]
  rfl

end Multitasking

end DavOS.Kernel
