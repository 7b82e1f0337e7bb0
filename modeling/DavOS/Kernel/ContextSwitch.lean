import DavOS.Lib.Amd64
import DavOS.Lib.PackedBits
import DavOS.Kernel.Scheduler

/-!
# Context switches

Reference: `asm/switch.s`, and `NewTaskEntry` of `kernel/scheduler/scheduler.go`.

The tasks run one at a time, each on a stack of its own: task 0 on the boot stack, the others on the
array in their record. While a task runs, it may change all registers, and all memory but what the
other tasks need to be resumed.
-/

namespace DavOS.Kernel

open Amd64
open LittleEndian (toNat_add_ofNat)

/-! ## `CpuSwitch` -/

def cpuSwitchCode : List Instr :=
  [.push .rbp, .push .rbx, .push .rsi, .push .rdi,
    -- Args: old *uint64 in RDI, new uint64 in RSI.
    .save .rsp .rdi, .mov .rsi .rsp,
    .pop .rdi, .pop .rsi, .pop .rbx, .pop .rbp,
    .ret]

/-- `cpuSwitch(oldESP, newESP)`; `returnAddress` is the address right after the call. -/
def cpuSwitch (oldESP newESP returnAddress : UInt64) (m : Machine) : Machine :=
  { m with regs := Function.update (Function.update m.regs .rdi oldESP) .rsi newESP }.call
    returnAddress cpuSwitchCode

/-- The memory after the pushes, and after `*oldESP` is written. -/
def parkedMemory (oldESP newESP returnAddress : UInt64) (m : Machine) : Memory :=
  let sp := m.regs .rsp
  m.mem |> store (sp - 8) returnAddress
    |> store (sp - 16) (m.regs .rbp)
    |> store (sp - 24) (m.regs .rbx)
    |> store (sp - 32) newESP
    |> store (sp - 40) oldESP
    |> store oldESP (sp - 40)

/-- What `CpuSwitch` writes, and what it takes from the stack of the next task. -/
theorem cpuSwitch_eq (oldESP newESP returnAddress : UInt64) (m : Machine) :
    let mem := parkedMemory oldESP newESP returnAddress m
    let m' := cpuSwitch oldESP newESP returnAddress m
    m'.mem = mem ∧ m'.rip = load (newESP + 32) mem ∧ m'.regs .rsp = newESP + 40 ∧
      m'.regs .rbx = load (newESP + 16) mem ∧ m'.regs .rbp = load (newESP + 24) mem := by
  have hsub : ∀ a : UInt64, a - 8 - 8 = a - 16 ∧ a - 16 - 8 = a - 24 ∧ a - 24 - 8 = a - 32 ∧
      a - 32 - 8 = a - 40 := by grind
  have hadd : ∀ a : UInt64, a + 8 + 8 = a + 16 ∧ a + 16 + 8 = a + 24 ∧ a + 24 + 8 = a + 32 ∧
      a + 32 + 8 = a + 40 := by grind
  simp [cpuSwitch, Machine.call, Machine.run, cpuSwitchCode, Machine.exec, Machine.pushWord,
    Machine.popWord, parkedMemory, hsub, hadd]

/-- The other registers go from task to task. -/
theorem cpuSwitch_regs (oldESP newESP returnAddress : UInt64) (m : Machine) {r : Reg}
    (hr : r ∉ [Reg.rsp, .rbx, .rbp, .rdi, .rsi]) :
    (cpuSwitch oldESP newESP returnAddress m).regs r = m.regs r := by
  simp only [List.mem_cons, List.not_mem_nil, or_false, not_or] at hr
  obtain ⟨hrsp, hrbx, hrbp, hrdi, hrsi⟩ := hr
  rw [cpuSwitch, Machine.regs_call hrsp]
  · exact (Function.update_of_ne hrsi ..).trans (Function.update_of_ne hrdi ..)
  · simp [cpuSwitchCode, Instr.writes, hrsp, hrbx, hrbp, hrdi, hrsi]

/-! ## Where the tasks are -/

/-- The size of a `Task`: `ID`, `ESP`, `State` and `Stack`. -/
abbrev taskSize : ℕ := 8 + 8 + 8 + 4096

/-- The addresses of the records of the tasks, of the boot stack and of `taskAutoExit`. -/
structure Layout where
  taskPool : ℕ
  stackBottom : ℕ
  stackTop : ℕ
  taskAutoExit : UInt64
  pool_lt : taskPool + maxTasks * taskSize < 2 ^ 64
  stack_lt : stackTop < 2 ^ 64
  apart : stackTop ≤ taskPool ∨ taskPool + maxTasks * taskSize ≤ stackBottom

namespace Layout

variable (L : Layout)

/-- `&taskPool[t].ESP`, as a number. -/
def esp (t : Slot) : ℕ := L.taskPool + t * taskSize + 8

/-- `&taskPool[t].Stack[0]`, as a number. -/
def stack (t : Slot) : ℕ := L.taskPool + t * taskSize + 24

/-- The stack on which a task runs. -/
def low (t : Slot) : ℕ := if (t : ℕ) = 0 then L.stackBottom else L.stack t

def high (t : Slot) : ℕ := if (t : ℕ) = 0 then L.stackTop else L.stack t + 4096

/-- What a task needs to be resumed: its stack and its saved stack pointer. -/
def Own (t : Slot) (a : UInt64) : Prop :=
  (L.esp t ≤ a.toNat ∧ a.toNat < L.esp t + 8) ∨ (L.low t ≤ a.toNat ∧ a.toNat < L.high t)

/-- The machine of the scheduler. `CpuSwitch` is entered with `&oldTask.ESP` in RDI. -/
def cpu : Cpu Machine where
  stack t := .ofNat (L.stack t)
  taskAutoExit := L.taskAutoExit
  store a w m := { m with mem := store a w m.mem }
  cpuSwitch newESP m :=
    let m' := { m with regs := Function.update m.regs .rsi newESP }.run cpuSwitchCode
    (load (m.regs .rdi) m'.mem, m')

/-- A word that a task owns: one on its stack, or its saved stack pointer. -/
def Word (t : Slot) (a : UInt64) : Prop :=
  (L.low t ≤ a.toNat ∧ a.toNat + 8 ≤ L.high t) ∨ a.toNat = L.esp t

variable {L} {t t' : Slot}

/-- The saved stack pointers are in the address space. -/
theorem esp_lt (t : Slot) : L.esp t + 8 < 2 ^ 64 := by
  have hpool := L.pool_lt
  have ht : (t : ℕ) < 16 := t.isLt
  simp only [esp, taskSize, maxTasks] at hpool ⊢
  omega

/-- So are the stacks. -/
theorem high_lt (t : Slot) : L.high t < 2 ^ 64 := by
  have hpool := L.pool_lt
  have hstack := L.stack_lt
  have ht : (t : ℕ) < 16 := t.isLt
  simp only [high, stack, taskSize, maxTasks] at hpool ⊢
  split <;> omega

/-- A task's saved stack pointer is not on its stack. -/
theorem esp_apart (t : Slot) : L.esp t + 8 ≤ L.low t ∨ L.high t ≤ L.esp t := by
  have hapart := L.apart
  have ht : (t : ℕ) < 16 := t.isLt
  simp only [low, high, esp, stack, taskSize, maxTasks] at hapart ⊢
  split <;> omega

/-- No two tasks own the same byte. -/
theorem own_disjoint (h : t ≠ t') {a : UInt64} (ha : L.Own t a) : ¬L.Own t' a := by
  have hne : (t : ℕ) ≠ t' := fun heq => h (Fin.ext heq)
  have hapart := L.apart
  have ht : (t : ℕ) < 16 := t.isLt
  have ht' : (t' : ℕ) < 16 := t'.isLt
  simp only [Own, low, high, esp, stack, taskSize, maxTasks] at ha hapart ⊢
  split at ha <;> split <;> omega

/-- A word that a task owns does not wrap. -/
theorem Word.le {a : UInt64} (h : L.Word t a) : a.toNat + 8 ≤ 2 ^ 64 := by
  have hhigh := L.high_lt t
  have hesp := L.esp_lt t
  obtain h | h := h <;> omega

/-- A store to a word of `t` changes what `t` owns. -/
theorem Word.store_eq {a w b : UInt64} {mem : Memory} (h : L.Word t a) (hb : ¬L.Own t b) :
    store a w mem b = mem b := by
  refine store_of_disjoint h.le ?_
  simp only [Own, Word] at h hb
  omega

/-- A load of a word of `t` reads what `t` owns. -/
theorem Word.load_eq {a : UInt64} {mem mem' : Memory} (h : L.Word t a)
    (hmem : ∀ b, L.Own t b → mem' b = mem b) : load a mem' = load a mem := by
  refine load_congr fun k hk => hmem _ ?_
  have hle := h.le
  rw [Own, toNat_add_ofNat (by omega)]
  rw [Word] at h
  omega

/-- The address of a saved stack pointer does not wrap. -/
theorem toNat_ofNat_esp (t : Slot) : (UInt64.ofNat (L.esp t)).toNat = L.esp t :=
  UInt64.toNat_ofNat_of_lt' ((Nat.lt_add_of_pos_right (by decide)).trans (L.esp_lt t))

/-- A task owns the words on its stack. -/
theorem word_of_stack {a : UInt64} (h : L.low t ≤ a.toNat ∧ a.toNat + 8 ≤ L.high t) :
    L.Word t a := .inl h

/-- A task owns the word of its saved stack pointer. -/
theorem word_esp (t : Slot) : L.Word t (.ofNat (L.esp t)) := .inr (L.toNat_ofNat_esp t)

end Layout

/-! ## What is saved of a task -/

/-- The frame at `sp` from which `CpuSwitch` resumes a task. -/
structure Frame (L : Layout) (mem : Memory) (t : Slot) (sp rbx rbp rip : UInt64) : Prop where
  esp : load (.ofNat (L.esp t)) mem = sp
  low : L.low t ≤ sp.toNat
  high : sp.toNat + 40 ≤ L.high t
  rbx : load (sp + 16) mem = rbx
  rbp : load (sp + 24) mem = rbp
  rip : load (sp + 32) mem = rip

namespace Frame

variable {L : Layout} {mem mem' : Memory} {t : Slot} {sp rbx rbp rip : UInt64}

/-- The words of a frame lie on the stack of the task. -/
theorem word (h : Frame L mem t sp rbx rbp rip) {k : ℕ} (hk : k + 8 ≤ 40) :
    L.Word t (sp + .ofNat k) := by
  have hlow := h.low
  have hhigh := h.high
  have hlt := L.high_lt t
  refine .inl ?_
  rw [toNat_add_ofNat (by omega)]
  omega

/-- The frame of a task is in what it owns. -/
theorem congr (h : Frame L mem t sp rbx rbp rip) (hmem : ∀ b, L.Own t b → mem' b = mem b) :
    Frame L mem' t sp rbx rbp rip where
  esp := ((L.word_esp t).load_eq hmem).trans h.esp
  low := h.low
  high := h.high
  rbx := ((h.word (k := 16) (by decide)).load_eq hmem).trans h.rbx
  rbp := ((h.word (k := 24) (by decide)).load_eq hmem).trans h.rbp
  rip := ((h.word (k := 32) (by decide)).load_eq hmem).trans h.rip

end Frame

/-- Where a task goes on when it is resumed. -/
inductive Resume
  /-- It has never run. -/
  | fresh (entry : UInt64)
  /-- It has called `CpuSwitch` with these registers, and `rip` is right after the call. -/
  | out (regs : Reg → UInt64) (rip : UInt64)

/-- The stack of a task that does not run. -/
def Parked (L : Layout) (mem : Memory) (t : Slot) : Resume → Prop
  | .fresh entry => ∃ sp : UInt64, Frame L mem t sp 0 0 entry ∧
      load (sp + 40) mem = L.taskAutoExit ∧ sp.toNat % 16 = 0 ∧ sp.toNat + 48 ≤ L.high t
  | .out regs rip => Frame L mem t (regs .rsp - 40) (regs .rbx) (regs .rbp) rip

/-- So a task stays parked as long as nothing that it owns changes. -/
theorem Parked.congr {L : Layout} {mem mem' : Memory} {t : Slot} {c : Resume}
    (h : Parked L mem t c) (hmem : ∀ b, L.Own t b → mem' b = mem b) : Parked L mem' t c := by
  cases c with
  | fresh entry =>
    obtain ⟨sp, hframe, hexit, hmod, hhigh⟩ := h
    refine ⟨sp, hframe.congr hmem, ?_, hmod, hhigh⟩
    have hlow := hframe.low
    have hlt := L.high_lt t
    have hword : L.Word t (sp + .ofNat 40) := by
      refine .inl ?_
      rw [toNat_add_ofNat (by omega)]
      omega
    exact (hword.load_eq hmem).trans hexit
  | out regs rip => exact Frame.congr h hmem

/-- `CpuSwitch` parks the running task, on its own stack. -/
theorem parked_parkedMemory {L : Layout} {t : Slot} {m : Machine} (newESP returnAddress : UInt64)
    (hlow : L.low t + 40 ≤ (m.regs .rsp).toNat) (hhigh : (m.regs .rsp).toNat ≤ L.high t) :
    Parked L (parkedMemory (.ofNat (L.esp t)) newESP returnAddress m) t
        (.out m.regs returnAddress) ∧
      ∀ b, ¬L.Own t b →
        parkedMemory (.ofNat (L.esp t)) newESP returnAddress m b = m.mem b := by
  have hlt := L.high_lt t
  have hesp := L.toNat_ofNat_esp t
  have hapart := L.esp_apart t
  have hesplt := L.esp_lt t
  generalize hsp : m.regs .rsp = sp at hlow hhigh
  have h8 : (sp - 8).toNat = sp.toNat - 8 := toNat_sub_ofNat (k := 8) (by omega)
  have h16 : (sp - 16).toNat = sp.toNat - 16 := toNat_sub_ofNat (k := 16) (by omega)
  have h24 : (sp - 24).toNat = sp.toNat - 24 := toNat_sub_ofNat (k := 24) (by omega)
  have h32 : (sp - 32).toNat = sp.toNat - 32 := toNat_sub_ofNat (k := 32) (by omega)
  have h40 : (sp - 40).toNat = sp.toNat - 40 := toNat_sub_ofNat (k := 40) (by omega)
  simp only [parkedMemory, hsp]
  constructor
  · rw [Parked, hsp]
    refine ⟨load_store_self .., by omega, by omega, ?_, ?_, ?_⟩
    · rw [show sp - 40 + 16 = sp - 24 by grind]
      simp (disch := omega) only [load_store_of_disjoint, load_store_self]
    · rw [show sp - 40 + 24 = sp - 16 by grind]
      simp (disch := omega) only [load_store_of_disjoint, load_store_self]
    · rw [show sp - 40 + 32 = sp - 8 by grind]
      simp (disch := omega) only [load_store_of_disjoint, load_store_self]
  · intro b hb
    rw [(L.word_esp t).store_eq hb,
      (Layout.word_of_stack (a := sp - 40) (by omega)).store_eq hb,
      (Layout.word_of_stack (a := sp - 32) (by omega)).store_eq hb,
      (Layout.word_of_stack (a := sp - 24) (by omega)).store_eq hb,
      (Layout.word_of_stack (a := sp - 16) (by omega)).store_eq hb,
      (Layout.word_of_stack (a := sp - 8) (by omega)).store_eq hb]

/-- The words that `NewTaskEntry` writes, counted from the new stack pointer. -/
theorem pushEntry_eq (L : Layout) (t : Slot) (entry : UInt64) (m : Machine) :
    let sp := ((UInt64.ofNat (L.stack t) + stackSize) &&& ~~~15) - 48
    Scheduler.pushEntry L.cpu t entry m =
      (sp, { m with
        mem := m.mem |> store (sp + 40) L.taskAutoExit |> store (sp + 32) entry |> store (sp + 0) 0
          |> store (sp + 8) 0 |> store (sp + 16) 0 |> store (sp + 24) 0 }) := by
  have hsub : ∀ a : UInt64, a - 8 - 8 - 32 = a - 48 ∧ a - 48 + 40 = a - 8 ∧
      a - 48 + 32 = a - 8 - 8 := by grind
  simp only [Scheduler.pushEntry, Layout.cpu, hsub]

/-- The stack pointer of a new task: 48 bytes below the end of its stack, aligned. -/
theorem toNat_pushEntry {L : Layout} {t : Slot} (ht : (t : ℕ) ≠ 0) :
    (((UInt64.ofNat (L.stack t) + stackSize) &&& ~~~15) - 48).toNat =
      16 * (L.high t / 16) - 48 := by
  have hlt := L.high_lt t
  have hmask : (~~~15 : UInt64).toBitVec = BitVec.allOnes 64 <<< 4 := by decide
  have hhigh : L.high t = L.stack t + 4096 := if_neg ht
  have htop : (UInt64.ofNat (L.stack t) + stackSize).toNat = L.high t := by
    rw [hhigh] at hlt ⊢
    rw [UInt64.toNat_add, UInt64.toNat_ofNat_of_lt' ((Nat.le_add_right _ 4096).trans_lt hlt)]
    exact Nat.mod_eq_of_lt hlt
  have hround : ((UInt64.ofNat (L.stack t) + stackSize) &&& ~~~15).toNat = 16 * (L.high t / 16) :=
    htop ▸ PackedBits.toNat_and_of_mask hmask _
  rw [← hround]
  exact toNat_sub_ofNat (k := 48) (by omega)

/-- `NewTaskEntry` parks a new task, on its own stack. -/
theorem parked_pushEntry {L : Layout} {t : Slot} (ht : (t : ℕ) ≠ 0) (entry : UInt64)
    (m : Machine) :
    let (sp, m') := Scheduler.pushEntry L.cpu t entry m
    Parked L (store (.ofNat (L.esp t)) sp m'.mem) t (.fresh entry) ∧
      ∀ b, ¬L.Own t b → store (.ofNat (L.esp t)) sp m'.mem b = m.mem b := by
  rw [pushEntry_eq]
  have hlt := L.high_lt t
  have hesp := L.toNat_ofNat_esp t
  have hapart := L.esp_apart t
  have hesplt := L.esp_lt t
  have hlow : L.high t = L.low t + 4096 := by rw [Layout.high, Layout.low, if_neg ht, if_neg ht]
  have hsp := toNat_pushEntry (L := L) ht
  generalize ((UInt64.ofNat (L.stack t) + stackSize) &&& ~~~15) - 48 = sp at hsp
  have h0 : (sp + 0).toNat = sp.toNat := toNat_add_ofNat (k := 0) (by omega)
  have h8 : (sp + 8).toNat = sp.toNat + 8 := toNat_add_ofNat (k := 8) (by omega)
  have h16 : (sp + 16).toNat = sp.toNat + 16 := toNat_add_ofNat (k := 16) (by omega)
  have h24 : (sp + 24).toNat = sp.toNat + 24 := toNat_add_ofNat (k := 24) (by omega)
  have h32 : (sp + 32).toNat = sp.toNat + 32 := toNat_add_ofNat (k := 32) (by omega)
  have h40 : (sp + 40).toNat = sp.toNat + 40 := toNat_add_ofNat (k := 40) (by omega)
  dsimp only
  refine ⟨⟨sp, ⟨load_store_self .., by omega, by omega, ?_, ?_, ?_⟩, ?_, by omega, by omega⟩, ?_⟩
  · simp (disch := omega) only [load_store_of_disjoint, load_store_self]
  · simp (disch := omega) only [load_store_of_disjoint, load_store_self]
  · simp (disch := omega) only [load_store_of_disjoint, load_store_self]
  · simp (disch := omega) only [load_store_of_disjoint, load_store_self]
  · intro b hb
    rw [(L.word_esp t).store_eq hb,
      (Layout.word_of_stack (a := sp + 24) (by omega)).store_eq hb,
      (Layout.word_of_stack (a := sp + 16) (by omega)).store_eq hb,
      (Layout.word_of_stack (a := sp + 8) (by omega)).store_eq hb,
      (Layout.word_of_stack (a := sp + 0) (by omega)).store_eq hb,
      (Layout.word_of_stack (a := sp + 32) (by omega)).store_eq hb,
      (Layout.word_of_stack (a := sp + 40) (by omega)).store_eq hb]

end DavOS.Kernel
