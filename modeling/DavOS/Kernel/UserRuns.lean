import DavOS.Kernel.UserTask

/-!
# Runs of a user program

Reference: `boot/stubs_amd64.s`, `kernel/idt.go` and `kernel/syscall_bridge.go`.

A user program is not known. A step of a run is work of its own, which is bound by the page tables
and the processor only, or one of the events that enter the kernel: an interrupt of a device, an
exception, an `int` instruction with any vector, and `syscall` with TF clear. The kernel then
resumes the program, or leaves it with `ReturnToKernel`, or stops in `DFaultStub`. What the program
can do to the kernel is said of all such runs.

Three things are left out. With TF set, `syscall` traps in ring 0 on the stack of the user, which
`SyscallFlags` shows to be out of control. The handlers are compiled code, and are assumed to do
what `Ends` says; in particular they do not fault. Nothing interrupts the kernel itself, where IF
is clear and an NMI would find no gate. The bits that the processor sets in page table entries do
not matter here.
-/

namespace DavOS.Kernel

open Amd64

/-! ## Work in ring 3 -/

/-- An address that some write in ring 3 leads to. -/
def UserWrites (K : Image) (mem : Memory) (a : UInt64) : Prop :=
  ∃ va mapping, Paging.translate (WordMemory.load64 (physical mem)) va K.sym.pml4.toNat =
    some mapping ∧ mapping.user = true ∧ mapping.writable = true ∧ mapping.phys = a.toNat

/-- Instructions of the user. Ring 3 cannot change IOPL, and IF only if IOPL is 3. -/
structure UserWork (K : Image) (c c' : Core) : Prop where
  valid : (context c').Valid true
  iopl : ∀ k ∈ [12, 13], c'.flag k = c.flag k
  enabled : (∃ k ∈ [12, 13], c.flag k = false) → c'.flag 9 = c.flag 9
  tables : SameTables c c'
  mem : ∀ a, c'.mem a ≠ c.mem a → UserWrites K c.mem a

/-! ## Events -/

/-- What interrupts a program: the state with the address to return to, the vector, its source and
an error code. -/
inductive Interrupts (c : Core) : Core → UInt8 → Source → Option UInt64 → Prop
  | device {v : UInt8} (hv : 0x20 ≤ v) (hflag : c.flag 9 = true) : Interrupts c c v .hardware none
  | exception {v : UInt8} {code : Option UInt64} (hv : v < 0x20)
      (hcode : v ∈ [vectorDF, vectorGP, vectorPF] → code.isSome) : Interrupts c c v .hardware code
  | int {v : UInt8} {next : UInt64} (hnext : Paging.Canonical next.toNat) :
      Interrupts c { c with rip := next } v .software none

/-- How a handler ends. -/
inductive Ending
  | returns (c : Core)
  /-- It calls `ReturnToKernel`. -/
  | leaves (c : Core)
  /-- The endless loop after a fault in kernel mode. -/
  | loops

/-- The frame behind the argument of a handler. -/
def frameArg (c : Core) : TrapFrame := TrapFrame.readFrom c.mem (c.regs .rdi)

/-- `SYS_EXIT` of a program in ring 3. -/
def IsExit (tf : TrapFrame) : Prop := tf.rax.toUInt32 = sysExitNumber ∧ tf.cs &&& 3 = 3

/-- What is assumed of the handlers that the stubs call in `c`: they end in one of these ways, and
do not fault. -/
inductive Ends (K : Image) (stack : Part) (c : Core) : Stub → Ending → Prop
  | interrupt {s : Stub} {c' : Core} (hs : s = .irq0 ∨ s = .irq1)
      (h : Returned K stack (fun _ => False) c c') : Ends K stack c s (.returns c')
  | answer {s : Stub} {c' : Core} {hooks : Hooks} {sys : SysState}
      (hs : s = .int80 ∨ s = .syscallEntry) (hexit : ¬IsExit (frameArg c))
      (h : Dispatched K stack hooks sys c c') : Ends K stack c s (.returns c')
  | exit {s : Stub} {c' : Core} (hs : s = .int80 ∨ s = .syscallEntry) (hexit : IsExit (frameArg c))
      (h : Handling K stack (fun _ => False) c c') : Ends K stack c s (.leaves c')
  | fault {s : Stub} {c' : Core} (hs : s = .gpFault ∨ s = .pFault)
      (hring : (frameArg c).cs &&& 3 = 3) (h : Handling K stack (fun _ => False) c c') :
      Ends K stack c s (.leaves c')
  | kernelFault {s : Stub} (hs : s = .gpFault ∨ s = .pFault)
      (hring : (frameArg c).cs &&& 3 ≠ 3) : Ends K stack c s .loops

/-- Where a run is. -/
inductive Phase
  | running (c : Core)
  /-- `ReturnToKernel` has returned to the caller of `ExecuteUserTask`. -/
  | returned (c : Core)
  /-- `DFaultStub` has stopped the processor. -/
  | stopped
  /-- A stub has faulted on its way back, or a handler loops. -/
  | lost

def Ending.phase (K : Image) : Ending → Phase
  | .returns c =>
    match (c.run stubExit).iretq with
    | .ok c' => .running c'
    | .error _ => .lost
  | .leaves c => .returned (c.run (returnToKernel K))
  | .loops => .lost

/-- One step of a program that runs in `c`. -/
inductive UserStep (K : Image) (c : Core) : Phase → Prop
  | work {c' : Core} (h : UserWork K c c') : UserStep K c (.running c')
  | interrupt {c₁ c₀ : Core} {v : UInt8} {source : Source} {code : Option UInt64} {s : Stub}
      {ending : Ending} (h : Interrupts c c₁ v source code)
      (hraise : c₁.raise v source code = .entered c₀) (hrip : c₀.rip = K.stub s)
      (hends : Ends K .trapStack (c₀.run (s.entry K)) s ending) : UserStep K c (ending.phase K)
  | doubleFault {c₁ c₀ : Core} {v : UInt8} {source : Source} {code : Option UInt64}
      (h : Interrupts c c₁ v source code) (hraise : c₁.raise v source code = .entered c₀)
      (hrip : c₀.rip = K.stub .dFault) : UserStep K c .stopped
  | syscall {c₀ : Core} {next : UInt64} {s : Stub} {ending : Ending} (htrap : c.flag 8 = false)
      (hnext : Paging.Canonical next.toNat) (hentry : c.syscall next = .entered c₀)
      (hrip : c₀.rip = K.stub s) (hends : Ends K .syscallStack (c₀.run (s.entry K)) s ending) :
      UserStep K c (ending.phase K)

/-- The runs of a program that starts in `c`. -/
inductive UserRun (K : Image) (c : Core) : Phase → Prop
  | start : UserRun K c (.running c)
  | next {c' : Core} {t : Phase} (h : UserRun K c (.running c')) (hstep : UserStep K c' t) :
      UserRun K c t

/-! ## The invariant -/

/-- The memory that a run does not change. Of the slots, those of `SyscallEntryStub` are not
here. -/
def Survives (K : Image) (p : Part) (a : UInt64) : Prop :=
  K.In p a ∧ p ∉ [Part.trapStack, .syscallStack, .userStackPage] ∧
    (p = .saved → a.toNat < K.low .saved + 64)

/-- The program that started in `c₀` runs in `c`. -/
structure Inside (K : Image) (c₀ c : Core) : Prop where
  valid : (context c).Valid true
  enabled : c.flag 9 = true
  iopl : ∀ k ∈ [12, 13], c.flag k = false
  tables : SameTables c₀ c
  mem : ∀ p a, Survives K p a → c.mem a = c₀.mem a

/-- A handler for the program that started in `c₀` calls `ReturnToKernel` in `c`. -/
structure Leaving (K : Image) (c₀ c : Core) : Prop where
  cs : c.seg .cs = kernelCodeSelector
  ss : c.seg .ss = 0 ∨ c.seg .ss = kernelDataSelector
  tables : SameTables c₀ c
  mem : ∀ p a, Survives K p a → c.mem a = c₀.mem a

section

variable {K : Image} {c₀ c c₁ c₂ : Core} {stack : Part} {s : Stub} {w : UInt64} {ending : Ending}

/-- The parts other than the stacks, the slots and the user's page survive. -/
theorem survives {p : Part} {a : UInt64} (ha : K.In p a)
    (hp : p ∉ [Part.trapStack, .syscallStack, .saved, .userStackPage]) : Survives K p a := by
  simp only [List.mem_cons, List.not_mem_nil, or_false, not_or] at hp
  refine ⟨ha, ?_, fun hsaved => absurd hsaved hp.2.2.1⟩
  simp only [List.mem_cons, List.not_mem_nil, or_false, not_or]
  exact ⟨hp.1, hp.2.1, hp.2.2.2⟩

/-- Inside a task the tables are as `Main` has set them up. -/
theorem Inside.configured (h : Inside K c₀ c) (hK : Configured K c₀) : Configured K c :=
  hK.congr h.tables (fun a ha => h.mem .idt a (survives ha (by decide)))
    (fun a ha => h.mem .gdt a (survives ha (by decide)))
    (fun a ha => h.mem .cpuTSS a (survives ha (by decide)))

/-- A return to the program with valid registers and the same flags keeps the invariant. -/
theorem Inside.resumed (h : Inside K c₀ c) {x : Context} {c' : Core} (hcontext : context c' = x)
    (hx : x.Valid true) (hflags : x.rflags = c.rflags) (htables : SameTables c c')
    (hmem : ∀ p a, Survives K p a → c'.mem a = c.mem a) : Inside K c₀ c' := by
  have hflag : ∀ k, c'.flag k = c.flag k := by
    have hrflags : c'.rflags = c.rflags := (congrArg Context.rflags hcontext).trans hflags
    intro k
    rw [Core.flag, hrflags]
    rfl
  exact
    { valid := by rwa [hcontext]
      enabled := (hflag 9).trans h.enabled
      iopl := fun k hk => (hflag k).trans (h.iopl k hk)
      tables := h.tables.trans htables
      mem := fun p a ha => (hmem p a ha).trans (h.mem p a ha) }

/-- The handlers for a program in ring 3 return to it, or leave it. -/
theorem Inside.ends (h : Inside K c₀ c) (hK : Configured K c)
    (hstack : stack ∈ [Part.trapStack, .syscallStack])
    (hentered : Entered K true stack s.pass w c c₁) (hw : s.dummy = true → w = 0)
    (hends : Ends K stack c₁ s ending) :
    (∃ c₂, ending = .returns c₂ ∧ c₂.flag 14 = c₁.flag 14 ∧ (c₁.flag 14 = false →
      ∃ c', (c₂.run stubExit).iretq = .ok c' ∧ Inside K c₀ c')) ∨
    ∃ c₂, ending = .leaves c₂ ∧ Leaving K c₀ c₂ := by
  have hp : ∀ {p : Part} {a : UInt64}, Survives K p a → p ≠ stack := by
    rintro p a ha rfl
    exact ha.2.1 (List.mem_of_mem_take (i := 2) hstack)
  have hframe : s.pass = true → frameArg c₁ = (context c).frame w := by
    intro hpass
    rw [frameArg, hentered.arg hpass, TrapFrame.readFrom_eq hentered.frame]
  have hring : ((context c).frame w).cs &&& 3 = 3 := by
    have hcs : c.seg .cs = userCodeSelector := h.valid.cs
    change (c.seg .cs).toUInt64 &&& 3 = 3
    rw [hcs]
    decide
  have hleaving : ∀ c₂, Handling K stack (fun _ => False) c₁ c₂ → Leaving K c₀ c₂ := by
    intro c₂ hret
    exact
      { cs := by rw [hret.seg, hentered.cs]
        ss := by rw [hret.seg]; exact hentered.ss rfl
        tables := h.tables.trans (hentered.tables.trans hret.tables)
        mem := fun p a ha => (hentered.mem_of_handling (fun _ hf => hf.elim) hret ha.1
          (absurd · (hp ha))).trans (h.mem p a ha) }
  cases hends with
  | interrupt hs hret =>
    refine .inl ⟨_, rfl, hret.nested, fun hnested => ?_⟩
    obtain ⟨c', hiretq, hcontext, -, htables, hmem⟩ := hentered.resume hnested hK
      (fun _ hf => hf.elim) hret (hentered.frame_of_returned hret) h.valid rfl
    exact ⟨c', hiretq, h.resumed hcontext h.valid rfl htables
      fun p a ha => hmem p a ha.1 (absurd · (hp ha))⟩
  | answer hs hexit hret =>
    have hpass : s.pass = true := by rcases hs with rfl | rfl <;> rfl
    have hzero : w = 0 := hw (by rcases hs with rfl | rfl <;> rfl)
    rw [hpass, hzero] at hentered
    refine .inl ⟨_, rfl, hret.nested, fun hnested => ?_⟩
    obtain ⟨c', hiretq, hcontext, -, htables, hmem⟩ := hentered.answer hnested hK h.valid
      (congrArg Prod.fst (dispatch_congr _ _ _ _ rfl rfl rfl rfl rfl)) hret
    exact ⟨c', hiretq, h.resumed hcontext ⟨h.valid.rip, h.valid.cs, h.valid.ss, h.valid.data⟩ rfl
      htables fun p a ha => hmem p a ha.1 (absurd · (hp ha))⟩
  | exit hs hexit hret => exact .inr ⟨_, rfl, hleaving _ hret⟩
  | fault hs hring hret => exact .inr ⟨_, rfl, hleaving _ hret⟩
  | kernelFault hs hcs =>
    have hpass : s.pass = true := by rcases hs with rfl | rfl <;> rfl
    rw [hframe hpass] at hcs
    exact absurd hring hcs

/-! ## Work -/

/-- Ring 3 writes to the page of its stack only. -/
theorem in_userStackPage {mem : Memory} (h : Boot.TablesBuilt K.sym (physical mem)) {a : UInt64}
    (ha : UserWrites K mem a) : K.In .userStackPage a := by
  obtain ⟨va, mapping, htranslate, huser, hwritable, hphys⟩ := ha
  rw [h.translate_eq, Boot.addressSpace] at htranslate
  have hlow : K.low .userStackPage = K.sym.userStackPage.toNat := UInt32.toNat_toUInt64 _
  have hhigh : K.high .userStackPage = K.low .userStackPage + 4096 := rfl
  split_ifs at htranslate with hprogram hstack hrest
  · rw [← Option.some.inj htranslate] at hwritable
    cases hwritable
  · rw [← Option.some.inj htranslate] at hphys
    rw [Image.In]
    dsimp only at hphys
    omega
  · rw [← Option.some.inj htranslate] at huser
    cases huser

/-- Instructions of the program keep the invariant, since it writes to its own page only. -/
theorem Inside.work (h : Inside K c₀ c) (hT : Boot.TablesBuilt K.sym (physical c₀.mem))
    (hwork : UserWork K c c₁) : Inside K c₀ c₁ where
  valid := hwork.valid
  enabled := (hwork.enabled ⟨12, by decide, h.iopl 12 (by decide)⟩).trans h.enabled
  iopl k hk := (hwork.iopl k hk).trans (h.iopl k hk)
  tables := h.tables.trans hwork.tables
  mem p a ha := by
    have hT' : Boot.TablesBuilt K.sym (physical c.mem) := by
      refine tablesBuilt_congr hT fun p hp a ha => h.mem p a (survives ha ?_)
      revert hp
      cases p <;> decide
    by_contra hne
    have hne' : c₁.mem a ≠ c.mem a := fun heq => hne (heq.trans (h.mem p a ha))
    have hin := in_userStackPage hT' (hwork.mem a hne')
    refine ha.1.not_in ?_ hin
    rintro rfl
    exact ha.2.1 (by decide)

/-! ## The events -/

/-- The stubs behind the vectors of exceptions expect an error code, the others do not. -/
theorem vectorStub_dummy {v : UInt8} (h : vectorStub v = some s) :
    s ≠ .syscallEntry ∧ (s.dummy = true ↔ 0x20 ≤ v) ∧
      (s.dummy = false → v ∈ [vectorDF, vectorGP, vectorPF]) := by
  rw [vectorStub] at h
  split_ifs at h with h8 h13 h14 h32 h33 h128 <;> cases h
  · exact ⟨by simp, by rw [h8]; decide, fun _ => by rw [h8]; decide⟩
  · exact ⟨by simp, by rw [h13]; decide, fun _ => by rw [h13]; decide⟩
  · exact ⟨by simp, by rw [h14]; decide, fun _ => by rw [h14]; decide⟩
  · exact ⟨by simp, by rw [h32]; decide, by simp [Stub.dummy]⟩
  · exact ⟨by simp, by rw [h33]; decide, by simp [Stub.dummy]⟩
  · exact ⟨by simp, by rw [h128]; decide, by simp [Stub.dummy]⟩

/-- An exception has an error code, pushed by the processor or by the stub. -/
theorem codePushed_some {v : UInt8} (hv : v < 0x20) (hs : vectorStub v = some s) (w : UInt64) :
    CodePushed s (some w) w ∧ (s.dummy = true → w = 0) := by
  have hdummy : s.dummy = false := by
    refine Bool.eq_false_iff.mpr fun hd => ?_
    exact absurd ((vectorStub_dummy hs).2.1.mp hd) (UInt8.not_le.mpr hv)
  refine ⟨?_, fun hd => absurd hd (Bool.eq_false_iff.mp hdummy)⟩
  rw [CodePushed, hdummy]
  rfl

/-- An interrupt has none, and its stub pushes a zero. -/
theorem codePushed_none {v : UInt8} (hv : 0x20 ≤ v) (hs : vectorStub v = some s) :
    CodePushed s none 0 ∧ (s.dummy = true → (0 : UInt64) = 0) := by
  refine ⟨?_, fun _ => rfl⟩
  rw [CodePushed, (vectorStub_dummy hs).2.1.mpr hv]
  rfl

/-- So each interrupt has its error code, where it lands. -/
theorem Interrupts.codePushed {v : UInt8} {source : Source} {code : Option UInt64}
    (h : Interrupts c c₁ v source code)
    (hs : vectorStub (landing true v source code).1 = some s) :
    ∃ w, CodePushed s (landing true v source code).2 w ∧ (s.dummy = true → w = 0) := by
  rcases landing_cases true v source code with ⟨hopen, heq⟩ | ⟨v', w, hv', heq⟩
  · rw [heq] at hs ⊢
    cases h with
    | device hv hflag => exact ⟨0, codePushed_none hv hs⟩
    | exception hv hcode =>
      have hdummy : s.dummy = false := by
        refine Bool.eq_false_iff.mpr fun hd => ?_
        exact absurd ((vectorStub_dummy hs).2.1.mp hd) (UInt8.not_le.mpr hv)
      obtain ⟨w, rfl⟩ := Option.isSome_iff_exists.mp (hcode ((vectorStub_dummy hs).2.2 hdummy))
      exact ⟨w, codePushed_some hv hs w⟩
    | int hnext =>
      have hv : v = 0x80 := by simpa using hopen
      exact ⟨0, codePushed_none (by rw [hv]; decide) hs⟩
  · rw [heq] at hs ⊢
    exact ⟨w, codePushed_some hv' hs w⟩

/-- The state that is interrupted is one of the program; after an `int` it returns to the next
instruction. -/
theorem Inside.interrupted {v : UInt8} {source : Source} {code : Option UInt64}
    (h : Inside K c₀ c) (hint : Interrupts c c₁ v source code) : Inside K c₀ c₁ := by
  cases hint with
  | device hv hflag => exact h
  | exception hv hcode => exact h
  | int hnext =>
    exact ⟨⟨hnext, h.valid.cs, h.valid.ss, h.valid.data⟩, h.enabled, h.iopl,
      ⟨h.tables.gdtr, h.tables.idtr, h.tables.tssBase, h.tables.msr⟩, h.mem⟩

/-- The state that the stub of a system call returns to is a state of the run. -/
theorem Inside.afterCall (h : Inside K c₀ c) {next : UInt64}
    (hnext : Paging.Canonical next.toNat) : Inside K c₀ (afterCall K c next) where
  valid := ⟨hnext, h.valid.cs, h.valid.ss, h.valid.data⟩
  enabled := h.enabled
  iopl := h.iopl
  tables := ⟨h.tables.gdtr, h.tables.idtr, h.tables.tssBase, h.tables.msr⟩
  mem p a ha := by
    rw [← h.mem p a ha]
    refine sameOutside_afterCall K c next a ?_
    rintro ⟨hlow, hhigh⟩
    by_cases hp : p = .saved
    · -- the slots of the kernel are before those of the stub
      exact absurd (ha.2.2 hp) (Nat.not_lt.mpr hlow)
    · exact ha.1.not_in hp ⟨(Nat.le_add_right _ _).trans hlow, hhigh⟩

/-- An event of ring 3 leads to a stub, which calls its handler. -/
theorem Inside.entered {v : UInt8} {source : Source} {code : Option UInt64} (h : Inside K c₀ c)
    (hK : Configured K c₀) (hint : Interrupts c c₁ v source code)
    (hraise : c₁.raise v source code = .entered c₂) (hrip : c₂.rip = K.stub s) :
    ∃ w, Entered K true .trapStack s.pass w c₁ (c₂.run (s.entry K)) ∧
      (c₂.run (s.entry K)).flag 14 = false ∧ (s.dummy = true → w = 0) := by
  have h₁ := h.interrupted hint
  have hK₁ := h₁.configured hK
  have hring : InRing c₁ true := h₁.valid.cs
  rw [hK₁.raise_eq hring, Outcome.entered.injEq] at hraise
  have hs' := vectorStub_landing true v source code
  generalize entryStub true v source = s' at hs'
  obtain ⟨w, hcode, hw⟩ := hint.codePushed hs'
  obtain ⟨hrip', hentered, hnested⟩ := hK₁.entered_through hring hs' hcode
    ⟨by decide, fun _ => rfl, by simp⟩
  obtain rfl : s = s' := K.stub_injective (by rw [← hrip, ← hraise, hrip'])
  rw [Stub.entry, if_neg (vectorStub_dummy hs').1, ← hraise]
  exact ⟨w, hentered, hnested, hw⟩

/-- With NT set, a stub cannot return. -/
theorem iretq_nested (hnested : c.flag 14 = true) :
    (c.run stubExit).iretq = .error ⟨vectorGP, some 0⟩ := by
  have hsplit : stubExit = ([.mov .rbp .rsp] ++ popRegs) ++ [.alu .add 8 .rsp] := rfl
  have hflag : (c.run stubExit).flag 14 = true := by
    rw [hsplit, Core.run_append, Core.run_singleton, Core.flag_alu (by decide), ← hnested]
    rfl
  simp only [Core.iretq, hflag, if_true]

/-- The program in `c` makes a system call by `syscall` with NT set, and the stub faults in ring 0
on its way back from the handler. -/
def NestedReturn (K : Image) (c : Core) : Prop :=
  c.flag 14 = true ∧ ∃ next c₁ c₂, c.syscall next = .entered c₁ ∧ c₁.rip = K.stub .syscallEntry ∧
    Ends K .syscallStack (c₁.run (Stub.entry K .syscallEntry)) .syscallEntry (.returns c₂) ∧
    (c₂.run stubExit).iretq = .error ⟨vectorGP, some 0⟩

/-- **One step** of a program that runs in `c`. -/
theorem Inside.step_cases (h : Inside K c₀ c) (hK : Configured K c₀)
    (hT : Boot.TablesBuilt K.sym (physical c₀.mem)) {t : Phase} (hstep : UserStep K c t) :
    (∃ c', t = .running c' ∧ Inside K c₀ c') ∨
      (∃ c₂, t = .returned (c₂.run (returnToKernel K)) ∧ Leaving K c₀ c₂) ∨ t = .stopped ∨
      t = .lost ∧ NestedReturn K c := by
  cases hstep with
  | work hwork => exact .inl ⟨_, rfl, h.work hT hwork⟩
  | interrupt hint hraise hrip hends =>
    obtain ⟨w, hentered, hnested, hw⟩ := h.entered hK hint hraise hrip
    have h₁ := h.interrupted hint
    rcases h₁.ends (h₁.configured hK) (by decide) hentered hw hends with
      ⟨c₂, rfl, -, hresume⟩ | ⟨c₂, rfl, hleaving⟩
    · obtain ⟨c', hiretq, hinside⟩ := hresume hnested
      refine .inl ⟨c', ?_, hinside⟩
      rw [Ending.phase, hiretq]
    · exact .inr (.inl ⟨c₂, rfl, hleaving⟩)
  | doubleFault hint hraise hrip => exact .inr (.inr (.inl rfl))
  | syscall htrap hnext hentry hrip hends =>
    rename_i next s ending
    have hK' := h.configured hK
    have hsyscall := hK'.syscall_eq htrap next
    obtain rfl := Outcome.entered.inj (hsyscall.symm.trans hentry)
    obtain rfl : s = .syscallEntry := K.stub_injective (hrip.symm.trans hK'.lstar)
    obtain ⟨hentered, hnested⟩ := hK'.entered_syscall h.valid next
    have h₁ := h.afterCall hnext
    rcases h₁.ends (h₁.configured hK) (by decide) hentered (fun _ => rfl) hends with
      ⟨c₂, rfl, hflag, hresume⟩ | ⟨c₂, rfl, hleaving⟩
    · cases hnt : c.flag 14 with
      | false =>
        obtain ⟨c', hiretq, hinside⟩ := hresume (hnested.trans hnt)
        refine .inl ⟨c', ?_, hinside⟩
        rw [Ending.phase, hiretq]
      | true =>
        have hfault := iretq_nested (hflag.trans (hnested.trans hnt))
        refine .inr (.inr (.inr ⟨?_, hnt, next, _, c₂, hsyscall, hrip, hends, hfault⟩))
        rw [Ending.phase, hfault]
    · exact .inr (.inl ⟨c₂, rfl, hleaving⟩)

/-! ## Runs -/

/-- The invariant along any run. -/
theorem UserRun.inside (hK : Configured K c₀) (hT : Boot.TablesBuilt K.sym (physical c₀.mem))
    (h₀ : Inside K c₀ c₀) {t : Phase} (hrun : UserRun K c₀ t) :
    ∀ c, t = .running c → Inside K c₀ c := by
  induction hrun with
  | start =>
    rintro c ⟨⟩
    exact h₀
  | next hrun hstep ih =>
    rintro c rfl
    rcases (ih _ rfl).step_cases hK hT hstep with ⟨c', heq, h'⟩ | ⟨c₂, heq, -⟩ | heq | ⟨heq, -⟩
    · cases heq
      exact h'
    · cases heq
    · cases heq
    · cases heq

/-- The last step of a run that is over. -/
theorem UserRun.last {t : Phase} (hrun : UserRun K c₀ t) (ht : ∀ c, t ≠ .running c) :
    ∃ c, UserRun K c₀ (.running c) ∧ UserStep K c t := by
  cases hrun with
  | start => exact absurd rfl (ht c₀)
  | next hrun hstep => exact ⟨_, hrun, hstep⟩

/-! ## Steps that are possible -/

/-- Ring 3 can put anything into its registers and into the flags that it may change. -/
theorem userWork_regs (hx : (context c).Valid true) (regs : Reg → UInt64) {rflags : UInt64}
    (hflags : ∀ k ∈ [9, 12, 13], rflags.toBitVec.getLsbD k = c.flag k) :
    UserWork K c { c with regs, rflags } where
  valid := ⟨hx.rip, hx.cs, hx.ss, hx.data⟩
  iopl k hk := hflags k (List.mem_cons_of_mem _ hk)
  enabled _ := hflags 9 (by decide)
  tables := ⟨rfl, rfl, rfl, rfl⟩
  mem _ hne := absurd rfl hne

/-- A tick of the timer, after which the program goes on as it was. -/
theorem Inside.exists_tick (h : Inside K c₀ c) (hK : Configured K c₀) :
    ∃ c', UserStep K c (.running c') ∧ context c' = context c := by
  have hK' := h.configured hK
  obtain ⟨c₁, hraise, hrip, hentered, hnested⟩ := hK'.trap (v := 0x20) (s := .irq0) h.valid
    ⟨by decide, fun _ => rfl, by simp⟩ rfl rfl (by simp) (.inl rfl)
  have hret := Returned.refl K .trapStack (fun _ => False) (c₁.run (Stub.entry K .irq0))
  obtain ⟨c', hiretq, hcontext, -⟩ := hentered.resume hnested hK' (fun _ hf => hf.elim) hret
    (hentered.frame_of_returned hret) h.valid rfl
  have hstep := UserStep.interrupt (.device (by decide) h.enabled) hraise hrip
    (.interrupt (.inl rfl) hret)
  rw [Ending.phase, hiretq] at hstep
  exact ⟨c', hstep, hcontext⟩

/-- `int 0x80` calls the handler of system calls. -/
theorem Inside.exists_int80 (h : Inside K c₀ c) (hK : Configured K c₀) {next : UInt64}
    (hnext : Paging.Canonical next.toNat) :
    ∃ c₁, ({ c with rip := next } : Core).raise 0x80 .software none = .entered c₁ ∧
      c₁.rip = K.stub .int80 ∧
      Entered K true .trapStack true 0 { c with rip := next } (c₁.run (Stub.entry K .int80)) ∧
      (c₁.run (Stub.entry K .int80)).flag 14 = false ∧
      frameArg (c₁.run (Stub.entry K .int80)) = ((context c).after next).frame 0 := by
  have h₁ := h.interrupted (.int (v := 0x80) hnext)
  obtain ⟨c₁, hraise, hrip, hentered, hnested⟩ := (h₁.configured hK).trap (v := 0x80) (s := .int80)
    h₁.valid ⟨by decide, fun _ => rfl, by simp⟩ rfl rfl (by simp) (.inr (.inr rfl))
  refine ⟨c₁, hraise, hrip, hentered, hnested, ?_⟩
  rw [frameArg, hentered.arg rfl, TrapFrame.readFrom_eq hentered.frame]
  rfl

/-- A system call other than `SYS_EXIT`, with its answer. -/
theorem Inside.exists_call (h : Inside K c₀ c) (hK : Configured K c₀) {next : UInt64}
    (hnext : Paging.Canonical next.toNat) (hrax : (c.regs .rax).toUInt32 ≠ sysExitNumber)
    (hooks : Hooks) (sys : SysState) :
    ∃ c', UserStep K c (.running c') ∧ context c' = ((context c).after next).answered
      (dispatch hooks (((context c).after next).frame 0) sys).1.rax := by
  obtain ⟨c₁, hraise, hrip, hentered, hnested, harg⟩ := h.exists_int80 hK hnext
  have h₁ := h.interrupted (.int (v := 0x80) hnext)
  obtain ⟨c₂, hret⟩ := hentered.exists_dispatched hooks sys
  obtain ⟨c', hiretq, hcontext, -⟩ := hentered.answer hnested (h₁.configured hK) h₁.valid
    (congrArg Prod.fst (dispatch_congr hooks _ _ sys rfl rfl rfl rfl rfl)) hret
  have hstep := UserStep.interrupt (.int hnext) hraise hrip
    (.answer (.inl rfl) (harg ▸ fun hexit => hrax hexit.1) hret)
  rw [Ending.phase, hiretq] at hstep
  exact ⟨c', hstep, hcontext⟩

/-- `SYS_EXIT`. -/
theorem Inside.exists_exit (h : Inside K c₀ c) (hK : Configured K c₀) {next : UInt64}
    (hnext : Paging.Canonical next.toNat) (hrax : (c.regs .rax).toUInt32 = sysExitNumber) :
    ∃ c', UserStep K c (.returned c') := by
  obtain ⟨c₁, hraise, hrip, -, -, harg⟩ := h.exists_int80 hK hnext
  have hring : (((context c).after next).frame 0).cs &&& 3 = 3 := by
    have hcs : c.seg .cs = userCodeSelector := h.valid.cs
    change (c.seg .cs).toUInt64 &&& 3 = 3
    rw [hcs]
    decide
  have hret := Returned.refl K .trapStack (fun _ => False) (c₁.run (Stub.entry K .int80))
  exact ⟨_, .interrupt (.int hnext) hraise hrip
    (.exit (.inl rfl) (harg ▸ ⟨hrax, hring⟩) hret.toHandling)⟩

end

end DavOS.Kernel
