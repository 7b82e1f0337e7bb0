import DavOS.Kernel.SyscallEntry

/-!
# Interrupts and system calls, from end to end

Reference: `boot/stubs_amd64.s`, `kernel/irq.go` and `kernel/syscall_bridge.go`.

What the interrupted code sees. An interrupt of the timer or the keyboard is invisible, in either
ring. A system call of the user changes RAX only, to the answer of `Dispatch`; through `syscall`
also RCX and R11, where the instruction itself puts RIP and RFLAGS. The two ways to call give the
same answer.
-/

namespace DavOS.Kernel

open Amd64

variable {K : Image} {c : Core} {user : Bool} {stack : Part} {v : UInt8} {s : Stub}

/-- A valid context is in its ring. -/
theorem Context.Valid.inRing (h : (context c).Valid user) : InRing c user := h.cs

/-- A trap without error code leads to the call of the handler. -/
theorem Configured.trap (hK : Configured K c) (hx : (context c).Valid user)
    (hstack : EntryStack K c user stack) (hs : vectorStub v = some s) (hdummy : s.dummy = true)
    (hsyscall : s ≠ .syscallEntry) {source : Source}
    (hopen : source = .hardware ∨ user = false ∨ v = 0x80) :
    ∃ c₀, c.raise v source none = .entered c₀ ∧ c₀.rip = K.stub s ∧
      Entered K user stack s.pass 0 c (c₀.run (s.entry K)) ∧
      (c₀.run (s.entry K)).flag 14 = false := by
  have hlanding : landing user v source none = (v, none) := by
    rw [landing, if_pos ⟨by rw [hs]; rfl, hopen⟩]
  have hraise := hK.raise_eq hx.inRing v source none
  rw [hlanding] at hraise
  have hcode : CodePushed s none 0 := by
    rw [CodePushed, hdummy]
    rfl
  rw [Stub.entry, if_neg hsyscall]
  exact ⟨_, hraise, hK.entered_through hx.inRing hs hcode hstack⟩

/-! ## Devices -/

/-- **Interrupts are transparent.** The timer and the keyboard interrupt the kernel or the user
anywhere; the handler runs with interrupts disabled. If it returns, the interrupted code goes on
with the registers, the flags and the segments that it had, also those that the handler is free to
change, and the parts of memory are as before, but for the stack that handlers use. -/
theorem interrupts_transparent (hK : Configured K c) (hx : (context c).Valid user)
    (hstack : EntryStack K c user stack) (hs : vectorStub v = some s)
    (hirq : s = .irq0 ∨ s = .irq1) :
    ∃ c₀, c.raise v .hardware none = .entered c₀ ∧ c₀.rip = K.stub s ∧
      (c₀.run (s.entry K)).flag 9 = false ∧
      ∀ c₂, Returned K stack (fun _ => False) (c₀.run (s.entry K)) c₂ →
        ∃ c', (c₂.run stubExit).iretq = .ok c' ∧ context c' = context c ∧ Configured K c' ∧
          ∀ p a, K.In p a → (p = stack → entryTop K c user stack ≤ a.toNat) →
            c'.mem a = c.mem a := by
  obtain ⟨c₀, hraise, hrip, hentered, hnested⟩ := hK.trap hx hstack hs
    (by rcases hirq with rfl | rfl <;> rfl) (by rcases hirq with rfl | rfl <;> simp) (.inl rfl)
  refine ⟨c₀, hraise, hrip, hentered.masked, fun c₂ hret => ?_⟩
  obtain ⟨c', hiretq, hcontext, hK', -, hmem⟩ := hentered.resume hnested hK
    (fun _ h => h.elim) hret (hentered.frame_of_returned hret) hx rfl
  exact ⟨c', hiretq, hcontext, hK', hmem⟩

/-- A tick of the timer in a user program. -/
theorem tick_transparent :
    ∃ c c₀ c' : Core, context c = firstContext ∧ c.raise 0x20 .hardware none = .entered c₀ ∧
      c₀.rip = linkedImage.stub .irq0 ∧
      ((c₀.run (Stub.entry linkedImage .irq0)).run stubExit).iretq = .ok c' ∧
      context c' = firstContext := by
  obtain ⟨c, hK, hc, -⟩ := exists_configured (fun _ _ => rfl) firstContext
  have hx : (context c).Valid true := hc ▸ valid_firstContext
  obtain ⟨c₀, hraise, hrip, -, hreturn⟩ := interrupts_transparent (v := 0x20) hK hx
    ⟨by decide, fun _ => rfl, by simp⟩ rfl (.inl rfl)
  obtain ⟨c', hiretq, hcontext, -⟩ := hreturn _ (Returned.refl ..)
  exact ⟨c, c₀, c', hc, hraise, hrip, hiretq, hcontext.trans hc⟩

/-! ## System calls -/

/-- `Dispatch` looks at four registers and the ring of the caller. -/
theorem dispatch_congr (hooks : Hooks) (tf tf' : TrapFrame) (sys : SysState)
    (hrax : tf'.rax = tf.rax) (hrdi : tf'.rdi = tf.rdi) (hrsi : tf'.rsi = tf.rsi)
    (hrdx : tf'.rdx = tf.rdx) (hcs : tf'.cs = tf.cs) :
    dispatch hooks tf' sys =
      ({ tf' with rax := (dispatch hooks tf sys).1.rax }, (dispatch hooks tf sys).2) := by
  cases tf' with
  | mk r15 r14 r13 r12 r11 r10 r9 r8 rdi rsi rbp rbx rdx rcx rax errorCode rip cs rflags rsp ss =>
    dsimp only at hrax hrdi hrsi hrdx hcs
    subst hrax hrdi hrsi hrdx hcs
    simp only [dispatch]
    -- the branches of `Dispatch`, with those of the closures
    split
    · rfl
    · split
      · split
        · cases hooks.returnToKernel <;> rfl
        · rfl
      · split
        · cases hooks.getTicks <;> rfl
        · rfl

/-- The context with the answer of a system call. -/
def Context.answered (x : Context) (w : UInt64) : Context :=
  { x with regs := Function.update x.regs .rax w }

/-- The answer of a call is in `rax` of the frame. -/
theorem Context.frame_answered (x : Context) (w code : UInt64) :
    (x.answered w).frame code = { x.frame code with rax := w } := rfl

/-- `Int80Handler` or `SyscallHandler` has returned: the frame is what `Dispatch` makes of it. -/
structure Dispatched (K : Image) (stack : Part) (hooks : Hooks) (sys : SysState) (c c' : Core) :
    Prop extends Returned K stack (Entered.InFrame c) c c' where
  frame : StackHolds c'.mem (c.regs .rdi)
    (dispatch hooks (TrapFrame.readFrom c.mem (c.regs .rdi)) sys).1.words

/-- The stores of `Dispatch` stay in the frame, so the handler can return. -/
theorem Entered.exists_dispatched {c' : Core} {code : UInt64}
    (h : Entered K user stack true code c c') (hooks : Hooks) (sys : SysState) :
    ∃ c₂, Dispatched K stack hooks sys c' c₂ := by
  have hrbp := h.rbp_le
  have htop := h.top_le
  have hle := K.high_le stack
  have harg := h.arg rfl
  have hwords : ∀ tf : TrapFrame, tf.words.length = 21 := fun _ => rfl
  have hroom : ∀ tf : TrapFrame, (c'.regs .rdi).toNat + 8 * tf.words.length < 2 ^ 64 := by
    intro tf
    rw [harg, hwords]
    omega
  refine ⟨{ c' with mem := storeAll _ (c'.regs .rdi) c'.mem },
    ⟨⟨⟨rfl, ⟨rfl, rfl, rfl, rfl⟩, fun p a _ ha _ => ?_⟩, rfl, rfl⟩,
      stackHolds_storeAll (hroom _)⟩⟩
  refine sameOutside_storeAll (hroom _) a ?_
  rw [hwords, harg]
  exact ha

/-- The return from a system call, however it was made. -/
theorem Entered.answer {c' c₂ : Core} {hooks : Hooks} {sys : SysState} {answer : UInt64}
    (h : Entered K user stack true 0 c c') (hnested : c'.flag 14 = false) (hK : Configured K c)
    (hx : (context c).Valid user)
    (htf : (dispatch hooks ((context c).frame 0) sys).1 =
      { (context c).frame 0 with rax := answer })
    (hret : Dispatched K stack hooks sys c' c₂) :
    ∃ c₃, (c₂.run stubExit).iretq = .ok c₃ ∧ context c₃ = (context c).answered answer ∧
      Configured K c₃ ∧ SameTables c c₃ ∧
      ∀ p a, K.In p a → (p = stack → entryTop K c user stack ≤ a.toNat) → c₃.mem a = c.mem a := by
  have hframe := hret.frame
  rw [h.arg rfl, TrapFrame.readFrom_eq h.frame, htf, ← Context.frame_answered, ← hret.rbp]
    at hframe
  exact h.resume hnested hK (fun _ ha => ha) hret.toReturned hframe ⟨hx.rip, hx.cs, hx.ss, hx.data⟩
    rfl

/-- A user program in ring 3, which is about to execute a system call that ends at `next`. -/
structure Caller (c : Core) (next : UInt64) : Prop where
  valid : (context c).Valid true
  next : Paging.Canonical next.toNat
  -- neither TF nor NT
  trap : c.flag 8 = false
  nested : c.flag 14 = false

/-- The context after the instruction. -/
def Context.after (x : Context) (next : UInt64) : Context := { x with rip := next }

/-- A call by `int 0x80` enters its stub and returns the answer to the caller. -/
theorem int80_answer {next : UInt64} (hK : Configured K c) (hc : Caller c next) (hooks : Hooks)
    (sys : SysState) :
    ∃ c₀, ({ c with rip := next } : Core).raise 0x80 .software none = .entered c₀ ∧
      c₀.rip = K.stub .int80 ∧
      ∀ c₂, Dispatched K .trapStack hooks sys (c₀.run (Stub.entry K .int80)) c₂ →
        ∃ c', (c₂.run stubExit).iretq = .ok c' ∧
          context c' = ((context c).after next).answered
            (dispatch hooks (((context c).after next).frame 0) sys).1.rax ∧
          Configured K c' ∧ ∀ p a, K.In p a → p ≠ .trapStack → c'.mem a = c.mem a := by
  have hx : (context ({ c with rip := next } : Core)).Valid true :=
    ⟨hc.next, hc.valid.cs, hc.valid.ss, hc.valid.data⟩
  have hK' : Configured K { c with rip := next } :=
    hK.congr ⟨rfl, rfl, rfl, rfl⟩ (fun _ _ => rfl) (fun _ _ => rfl) (fun _ _ => rfl)
  obtain ⟨c₀, hraise, hrip, hentered, hnested⟩ := hK'.trap (v := 0x80) (s := .int80) hx
    ⟨by decide, fun _ => rfl, by simp⟩ rfl rfl (by simp) (.inr (.inr rfl))
  refine ⟨c₀, hraise, hrip, fun c₂ hret => ?_⟩
  obtain ⟨c', hiretq, hcontext, hK', -, hmem⟩ := hentered.answer hnested hK' hx
    (congrArg Prod.fst (dispatch_congr hooks _ _ sys rfl rfl rfl rfl rfl)) hret
  exact ⟨c', hiretq, hcontext, hK', fun p a ha hp => hmem p a ha (absurd · hp)⟩

/-- The stub saves what it needs in slots of its own. -/
theorem sameOutside_afterCall (K : Image) (c : Core) (next : UInt64) :
    SameOutside (K.low .saved + 64) (K.high .saved) c.mem (afterCall K c next).mem := by
  have hhigh : K.high .saved = K.low .saved + 88 := rfl
  have hle := K.high_le .saved
  have hslot : ∀ k < 3, ∀ (w : UInt64) (mem : Memory), SameOutside (K.low .saved + 64)
      (K.high .saved) mem (store (syscallSaved K k) w mem) := by
    intro k hk w mem
    have haddr := toNat_syscallSaved K hk
    exact (sameOutside_store (by omega)).mono (by omega) (by omega)
  exact ((hslot 0 (by omega) _ _).trans (hslot 1 (by omega) _ _)).trans (hslot 2 (by omega) _ _)

/-- The entry by `syscall` saves its registers in slots of its own. -/
theorem keeps_afterCall (K : Image) (c : Core) (next : UInt64) {p : Part} (hp : p ≠ .saved) :
    K.Keeps p c.mem (afterCall K c next).mem :=
  Image.keeps_of_sameOutside (sameOutside_afterCall K c next) (Nat.le_add_right _ _) le_rfl hp

/-- The context after `syscall`. -/
def Context.afterSyscall (x : Context) (next : UInt64) : Context :=
  { x.after next with
    regs := Function.update (Function.update x.regs .rcx next) .r11 x.rflags }

/-- Without the trap flag, `syscall` enters the kernel. -/
theorem Configured.syscall_eq (hK : Configured K c) (htrap : c.flag 8 = false) (next : UInt64) :
    c.syscall next = .entered (c.afterSyscall next) := by
  have htrap' : (c.afterSyscall next).flag 8 = false := by
    rw [Core.flag, Core.afterSyscall, UInt64.toBitVec_and, BitVec.getLsbD_and]
    exact Bool.and_eq_false_iff.mpr (.inl htrap)
  rw [Core.syscall, if_neg (by rw [hK.sce]; decide)]
  exact if_neg (Bool.eq_false_iff.mp htrap')

/-- A call by `syscall` enters its stub and returns the answer to the caller. -/
theorem syscall_answer {next : UInt64} (hK : Configured K c) (hc : Caller c next) (hooks : Hooks)
    (sys : SysState) :
    ∃ c₀, c.syscall next = .entered c₀ ∧ c₀.rip = K.stub .syscallEntry ∧
      ∀ c₂, Dispatched K .syscallStack hooks sys (c₀.run (Stub.entry K .syscallEntry)) c₂ →
        ∃ c', (c₂.run stubExit).iretq = .ok c' ∧
          context c' = ((context c).afterSyscall next).answered
            (dispatch hooks (((context c).after next).frame 0) sys).1.rax ∧
          Configured K c' ∧
          ∀ p a, K.In p a → p ≠ .syscallStack → p ≠ .saved → c'.mem a = c.mem a := by
  have hx : (context (afterCall K c next)).Valid true :=
    ⟨hc.next, hc.valid.cs, hc.valid.ss, hc.valid.data⟩
  have hK' : Configured K (afterCall K c next) :=
    hK.congr ⟨rfl, rfl, rfl, rfl⟩ (keeps_afterCall K c next (by simp))
      (keeps_afterCall K c next (by simp)) (keeps_afterCall K c next (by simp))
  obtain ⟨hentered, hnested⟩ := hK.entered_syscall hc.valid next
  refine ⟨c.afterSyscall next, hK.syscall_eq hc.trap next, hK.lstar, fun c₂ hret => ?_⟩
  have hframe := dispatch_congr hooks (((context c).after next).frame 0)
    (((context c).afterSyscall next).frame 0) sys rfl rfl rfl rfl rfl
  obtain ⟨c', hiretq, hcontext, hK', -, hmem⟩ := hentered.answer
    (hnested.trans hc.nested) hK' hx (congrArg Prod.fst hframe) hret
  refine ⟨c', hiretq, hcontext, hK', fun p a ha hp hsaved => ?_⟩
  exact (hmem p a ha (absurd · hp)).trans (keeps_afterCall K c next hsaved a ha)

/-- **The two ways to make a system call.** `int 0x80` and `syscall` reach their stubs, the handler
has the frame of the caller, and the caller goes on behind the instruction with the answer of
`Dispatch` in RAX. The answer is the same both ways. No other register changes, but for RCX and R11
with `syscall`. Of the parts of memory only the stack of the kernel and the slots of the stub
change. -/
theorem system_calls_agree {next : UInt64} (hK : Configured K c) (hc : Caller c next)
    (hooks : Hooks) (sys : SysState) :
    let answer := (dispatch hooks (((context c).after next).frame 0) sys).1.rax
    (∃ c₀, ({ c with rip := next } : Core).raise 0x80 .software none = .entered c₀ ∧
      c₀.rip = K.stub .int80 ∧
      ∀ c₂, Dispatched K .trapStack hooks sys (c₀.run (Stub.entry K .int80)) c₂ →
        ∃ c', (c₂.run stubExit).iretq = .ok c' ∧
          context c' = ((context c).after next).answered answer ∧ Configured K c' ∧
          ∀ p a, K.In p a → p ≠ .trapStack → c'.mem a = c.mem a) ∧
    ∃ c₀, c.syscall next = .entered c₀ ∧ c₀.rip = K.stub .syscallEntry ∧
      ∀ c₂, Dispatched K .syscallStack hooks sys (c₀.run (Stub.entry K .syscallEntry)) c₂ →
        ∃ c', (c₂.run stubExit).iretq = .ok c' ∧
          context c' = ((context c).afterSyscall next).answered answer ∧ Configured K c' ∧
          ∀ p a, K.In p a → p ≠ .syscallStack → p ≠ .saved → c'.mem a = c.mem a :=
  ⟨int80_answer hK hc hooks sys, syscall_answer hK hc hooks sys⟩

/-- A program makes the same call both ways. -/
theorem both_ways_entered :
    ∃ c c₀ c₁ c₂ c' : Core, context c = firstContext ∧
      ({ c with rip := 0x40000002 } : Core).raise 0x80 .software none = .entered c₀ ∧
      c₀.rip = linkedImage.stub .int80 ∧ c.syscall 0x40000002 = .entered c₁ ∧
      Dispatched linkedImage .syscallStack ⟨none, none⟩ patternState
        (c₁.run (Stub.entry linkedImage .syscallEntry)) c₂ ∧
      (c₂.run stubExit).iretq = .ok c' ∧ c'.rip = 0x40000002 ∧ c'.regs .rax = syscallError := by
  obtain ⟨c, hK, hc, -⟩ := exists_configured (fun _ _ => rfl) firstContext
  have hrflags : c.rflags = 0x202 := congrArg Context.rflags hc
  have hcaller : Caller c 0x40000002 :=
    { valid := hc ▸ valid_firstContext
      next := .inl (by decide)
      trap := by
        rw [Core.flag, hrflags]
        rfl
      nested := by
        rw [Core.flag, hrflags]
        rfl }
  obtain ⟨⟨c₀, hraise, hrip, -⟩, c₁, hsyscall, -, hanswer⟩ :=
    system_calls_agree hK hcaller ⟨none, none⟩ patternState
  have hc₁ : c.afterSyscall 0x40000002 = c₁ :=
    Outcome.entered.inj ((hK.syscall_eq hcaller.trap _).symm.trans hsyscall)
  obtain ⟨c₂, hret⟩ := (hK.entered_syscall hcaller.valid 0x40000002).1.exists_dispatched
    ⟨none, none⟩ patternState
  rw [hc₁] at hret
  obtain ⟨c', hiretq, hcontext, -⟩ := hanswer c₂ hret
  refine ⟨c, c₀, c₁, c₂, c', hc, hraise, hrip, hsyscall, hret, hiretq,
    congrArg Context.rip hcontext, (congrFun (congrArg Context.regs hcontext) .rax).trans ?_⟩
  rw [hc]
  rfl

end DavOS.Kernel
