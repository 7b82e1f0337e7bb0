import DavOS.Lib.CyclicSearch
import Mathlib.Logic.Function.Basic
import Mathlib.Logic.Relation
import Mathlib.Data.Fintype.Card
import Mathlib.Data.List.Nodup

/-!
# The scheduler

Reference: `kernel/scheduler/scheduler.go`.

The tasks are slots of a static pool; `tasks` lists the slots in use, and its length is `taskCount`.
What the scheduler does to the machine goes through `Cpu`: it writes words to the stack of a new
task, and it switches stacks. A dereference of a nil pointer would be a panic, here `none`.
-/

namespace DavOS.Kernel

abbrev stackSize : UInt64 := 4096

abbrev maxTasks : ℕ := 16

inductive TaskState
  | runnable
  | running
  | waiting
  | dead
deriving DecidableEq

/-- A pointer into `taskPool`. -/
abbrev Slot := Fin maxTasks

/-- A task without its stack, which is part of the memory. -/
structure Task where
  id : ℕ
  esp : UInt64
  state : TaskState

/-- The machine, as the scheduler sees it: the address of the stack of each slot and of the
function `taskAutoExit`, the store of a word, and `cpuSwitch`, which gives back what it saves in
`*oldESP`. -/
structure Cpu (σ : Type) where
  stack : Slot → UInt64
  taskAutoExit : UInt64
  store : UInt64 → UInt64 → σ → σ
  cpuSwitch : UInt64 → σ → UInt64 × σ

structure Scheduler (σ : Type) where
  taskPool : Slot → Task
  tasks : List Slot
  currentTask : Option Slot
  nextID : ℕ
  machine : σ

namespace Scheduler

variable {σ : Type} (cpu : Cpu σ)

def taskCount (s : Scheduler σ) : ℕ := s.tasks.length

def setState (t : Slot) (state : TaskState) (s : Scheduler σ) : Scheduler σ :=
  { s with taskPool := Function.update s.taskPool t { s.taskPool t with state } }

def setESP (t : Slot) (esp : UInt64) (s : Scheduler σ) : Scheduler σ :=
  { s with taskPool := Function.update s.taskPool t { s.taskPool t with esp } }

/-- `Init`, from any state. -/
def init (s : Scheduler σ) : Scheduler σ where
  taskPool := Function.update s.taskPool 0 { s.taskPool 0 with id := 0, state := .running }
  tasks := [0]
  currentTask := some 0
  nextID := 1
  machine := s.machine

/-- The stack of a new task, in the order in which `CpuSwitch` takes it up: four registers, the
entry, and where the entry returns to. -/
def pushEntry (t : Slot) (entry : UInt64) (m : σ) : UInt64 × σ :=
  let sp := (cpu.stack t + stackSize) &&& ~~~15
  let sp := sp - 8
  let m := cpu.store sp cpu.taskAutoExit m
  let sp := sp - 8
  let m := cpu.store sp entry m
  let sp := sp - 32
  let m := cpu.store (sp + 0) 0 m
  let m := cpu.store (sp + 8) 0 m
  let m := cpu.store (sp + 16) 0 m
  let m := cpu.store (sp + 24) 0 m
  (sp, m)

/-- `NewTaskEntry`; a new task takes the slot of its index. -/
def newTaskEntry (entry : UInt64) (s : Scheduler σ) : Option Slot × Scheduler σ :=
  if h : s.taskCount < maxTasks then
    if entry = 0 then (none, s)
    else
      let t : Slot := ⟨s.taskCount, h⟩
      let (sp, m) := pushEntry cpu t entry s.machine
      (some t,
        { taskPool := Function.update s.taskPool t ⟨s.nextID, sp, .runnable⟩
          tasks := s.tasks ++ [t]
          currentTask := s.currentTask
          nextID := s.nextID + 1
          machine := m })
  else (none, s)

/-! ## Choosing the next task -/

/-- The first loop of `Schedule`. -/
def currentIndex (s : Scheduler σ) : ℤ :=
  match s.tasks.findIdx? fun t => some t = s.currentTask with
  | some i => i
  | none => -1

def isRunnable (s : Scheduler σ) (idx : ℕ) : Bool :=
  match s.tasks[idx]? with
  | some t => (s.taskPool t).state = .runnable
  | none => false

/-- The second loop of `Schedule`: the first runnable task behind the current one. -/
def nextIndex (s : Scheduler σ) : Option ℕ :=
  (List.range' 1 (s.taskCount - 1)).findSome? fun (i : ℕ) =>
    let idx := ((s.currentIndex + i) % s.taskCount).toNat
    if s.isRunnable idx then some idx else none

/-- No runnable task was found, and the current one is dead: `Schedule` falls back to task 0. -/
def fallsBack (s : Scheduler σ) : Bool :=
  1 < s.taskCount ∧ s.nextIndex = none ∧ s.currentTask.any fun t => (s.taskPool t).state = .dead

/-- The end of `Schedule`. -/
def switchTo (oldTask newTask : Slot) (s : Scheduler σ) : Scheduler σ :=
  let s := if (s.taskPool oldTask).state ≠ .dead then s.setState oldTask .runnable else s
  let s := s.setState newTask .running
  let s := { s with currentTask := some newTask }
  let (esp, m) := cpu.cpuSwitch (s.taskPool newTask).esp s.machine
  { s.setESP oldTask esp with machine := m }

def schedule (s : Scheduler σ) : Option (Scheduler σ) :=
  if s.taskCount ≤ 1 then some s
  else do
    let oldTask ← s.currentTask
    match s.nextIndex with
    | some idx =>
      let newTask ← s.tasks[idx]?
      some (s.switchTo cpu oldTask newTask)
    | none =>
      if (s.taskPool oldTask).state = .dead then
        let newTask ← s.tasks[0]?
        some (s.switchTo cpu oldTask newTask)
      else some s

/-- `Exit`. It does not come back: the task it ends is not switched to again. -/
def exit (s : Scheduler σ) : Option (Scheduler σ) :=
  match s.currentTask with
  | none => some s
  | some t => (s.setState t .dead).schedule cpu

/-! ## Runs -/

inductive Op
  | newTaskEntry (entry : UInt64)
  | schedule
  | exit
deriving DecidableEq

def step (s : Scheduler σ) : Op → Option (Scheduler σ)
  | .newTaskEntry entry => some (s.newTaskEntry cpu entry).2
  | .schedule => s.schedule cpu
  | .exit => s.exit cpu

/-- Task 0 does not call `Exit`. -/
def Permits (s : Scheduler σ) (op : Op) : Prop := op = .exit → s.currentTask ≠ some 0

/-- One call, by the current task or in an interrupt. -/
def Next (s s' : Scheduler σ) : Prop := ∃ op, s.Permits op ∧ s.step cpu op = some s'

/-- A later state. -/
def Later : Scheduler σ → Scheduler σ → Prop := Relation.ReflTransGen (Next cpu)

end Scheduler

end DavOS.Kernel
