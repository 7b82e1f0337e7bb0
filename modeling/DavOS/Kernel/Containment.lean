import DavOS.Kernel.UserRuns

/-!
# A user program is contained

Reference: `ExecuteUserTask` and `ReturnToKernel` of `boot/stubs_amd64.s`.

Seen from the kernel, `ExecuteUserTask` is a function that may not return. If it returns, it has
kept what a function keeps.
-/

namespace DavOS.Kernel

open Amd64

/-- The memory that is the same before and after. -/
def Contained (K : Image) (c : Core) (p : Part) (a : UInt64) : Prop :=
  Untouched K c p a ∧ p ∉ [Part.trapStack, .syscallStack, .userStackPage]

/-- `ExecuteUserTask` was called in `c` and has returned in `c'`, as a function returns. -/
structure Back (K : Image) (c c' : Core) : Prop where
  rip : c'.rip = load (c.regs .rsp) c.mem
  rsp : c'.regs .rsp = c.regs .rsp + 8
  regs : ∀ r ∈ [Reg.rbp, .rbx, .r12, .r13, .r14, .r15], c'.regs r = c.regs r
  rflags : c'.rflags = flagsImage c
  cs : c'.seg .cs = kernelCodeSelector
  ss : c'.seg .ss = 0 ∨ c'.seg .ss = kernelDataSelector
  data : ∀ s, s ≠ .cs → s ≠ .ss → c'.seg s = kernelDataSelector
  configured : Configured K c'
  mem : ∀ p a, Contained K c p a → c'.mem a = c.mem a

variable {K : Image} {c c₀ c₂ : Core}

/-- The first context of the user program is valid. -/
theorem valid_userEntry (h : Launching K c) : (userEntry c).Valid true where
  rip := h.entry
  cs := rfl
  ss := rfl
  data _ s hs := by
    have hne : s ≠ .cs := by
      rintro rfl
      exact absurd hs (by decide)
    rw [show (userEntry c).seg s = userDataSelector from if_neg hne]
    decide

/-- A program that leaves is back in the kernel, where it was started. -/
theorem Leaving.back (h : Leaving K c₀ c₂) (hK : Configured K c₀) (hstack : OnBootStack K c)
    (hslots : StackHolds c₀.mem K.saved (keptWords c ++ [flagsImage c]))
    (hmem : ∀ p a, Untouched K c p a → c₀.mem a = c.mem a) :
    Back K c (c₂.run (returnToKernel K)) := by
  have hlow := hstack.low_le
  have hhigh := hstack.le_high
  have hle := K.high_le .bootStack
  have hsaved : K.high .saved = K.saved.toNat + 88 := rfl
  have hstart : K.low .saved = K.saved.toNat := rfl
  have hle' := K.high_le .saved
  have hlength : (keptWords c ++ [flagsImage c]).length = 8 := rfl
  have hmem₂ : ∀ p a, Contained K c p a → c₂.mem a = c.mem a := fun p a ha =>
    (h.mem p a ⟨ha.1.1, ha.2, fun hp => absurd hp ha.1.2.1⟩).trans (hmem p a ha.1)
  have hslots₂ : StackHolds c₂.mem K.saved (keptWords c ++ [flagsImage c]) := by
    refine hslots.congr (by omega) fun a hlow hhigh => h.mem .saved a ⟨?_, by decide, fun _ => ?_⟩
    · exact ⟨by omega, by omega⟩
    · omega
  have hreturn : load (c.regs .rsp) c₂.mem = load (c.regs .rsp) c.mem := by
    refine load_congr fun k hk => hmem₂ .bootStack _ ⟨⟨?_, by simp, fun _ => ?_⟩, by decide⟩
    · rw [Image.In, LittleEndian.toNat_add_ofNat (by omega)]
      omega
    · rw [LittleEndian.toNat_add_ofNat (by omega)]
      omega
  obtain ⟨hrip, hrsp, hregs, hrflags, hseg, htables, hout⟩ := run_returnToKernel hstack hslots₂
  have hboot : ∀ p a, K.In p a → (p = .bootStack → (c.regs .rsp).toNat ≤ a.toNat) →
      (c₂.run (returnToKernel K)).mem a = c₂.mem a := by
    intro p a ha hp
    refine hout a ?_
    rintro ⟨hge, hlt⟩
    by_cases hp' : p = .bootStack
    · have := hp hp'
      omega
    · exact ha.not_in hp' ⟨by omega, by omega⟩
  have hK' : Configured K (c₂.run (returnToKernel K)) := by
    have hkeeps : ∀ p, p ∈ [Part.idt, .gdt, .cpuTSS] →
        K.Keeps p c₀.mem (c₂.run (returnToKernel K)).mem := by
      intro p hp a ha
      refine (hboot p a ha ?_).trans (h.mem p a (survives ha ?_))
      · rintro rfl
        exact absurd hp (by decide)
      · revert hp
        cases p <;> decide
    exact hK.congr (h.tables.trans htables) (hkeeps .idt (by decide)) (hkeeps .gdt (by decide))
      (hkeeps .cpuTSS (by decide))
  exact
    { rip := hrip.trans hreturn
      rsp := hrsp
      regs := hregs
      rflags := hrflags
      cs := by
        rw [hseg]
        exact h.cs
      ss := by
        rw [hseg]
        exact h.ss
      data := fun s hs hs' => by
        rw [hseg]
        exact if_neg (not_or.mpr ⟨hs, hs'⟩)
      configured := hK'
      mem := fun p a ha => (hboot p a ha.1.1 ha.1.2.2).trans (hmem₂ p a ha) }

/-- The program starts with interrupts enabled; the other flags are those of the kernel. -/
theorem flag_of_userEntry (hcontext : context c₀ = userEntry c) :
    c₀.flag 9 = true ∧ ∀ k ∈ [12, 13], c₀.flag k = c.flag k := by
  have hrflags : c₀.rflags = flagsImage c ||| 0x200 := congrArg Context.rflags hcontext
  have hflag : ∀ k, c₀.flag k =
      ((flagsImage c).toBitVec.getLsbD k || (0x200 : UInt64).toBitVec.getLsbD k) := by
    intro k
    rw [Core.flag, hrflags, UInt64.toBitVec_or, BitVec.getLsbD_or]
  refine ⟨(hflag 9).trans (Bool.or_true _), fun k hk => ?_⟩
  rw [hflag, flagsImage, UInt64.toBitVec_and, BitVec.getLsbD_and]
  simp only [List.mem_cons, List.not_mem_nil, or_false] at hk
  rcases hk with rfl | rfl
  · exact (Bool.or_false _).trans (Bool.and_true _)
  · exact (Bool.or_false _).trans (Bool.and_true _)

/-- The first state of a program. -/
theorem Launching.inside (h : Launching K c) (hT : Boot.TablesBuilt K.sym (physical c.mem)) :
    ∃ c₀, (c.run (executeUserTask K)).iretq = .ok c₀ ∧ context c₀ = userEntry c ∧
      Configured K c₀ ∧ Boot.TablesBuilt K.sym (physical c₀.mem) ∧ Inside K c₀ c₀ ∧
      StackHolds c₀.mem K.saved (keptWords c ++ [flagsImage c]) ∧
      ∀ p a, Untouched K c p a → c₀.mem a = c.mem a := by
  obtain ⟨c₀, hiretq, hcontext, hK, -, hslots, hmem⟩ := h.start
  obtain ⟨henabled, hiopl⟩ := flag_of_userEntry hcontext
  have h₀ : Inside K c₀ c₀ :=
    ⟨hcontext ▸ valid_userEntry h, henabled, fun k hk => (hiopl k hk).trans (h.iopl k hk),
      SameTables.refl c₀, fun _ _ _ => rfl⟩
  refine ⟨c₀, hiretq, hcontext, hK, ?_, h₀, hslots, hmem⟩
  refine tablesBuilt_congr hT fun p hp a ha => hmem p a ⟨ha, ?_, ?_⟩
  · rintro rfl
    exact absurd hp (by decide)
  · rintro rfl
    exact absurd hp (by decide)

/-- **A user program is contained.** The kernel starts it in ring 3 with interrupts enabled.
Whatever it does, but for `syscall` with TF set, and whatever interrupts it, as long as the handlers
do what `Ends` says of them: in every state of a run it is in ring 3 with interrupts enabled and the
parts of memory are as before, but for the stacks of the handlers and the slots. If the run returns
to the kernel, it does so as if `ExecuteUserTask` were a function that returns: to its caller, with
the registers that a function keeps, the flags and the stack. -/
theorem user_task_contained (h : Launching K c)
    (hT : Boot.TablesBuilt K.sym (physical c.mem)) :
    ∃ c₀, (c.run (executeUserTask K)).iretq = .ok c₀ ∧ context c₀ = userEntry c ∧
      ∀ t, UserRun K c₀ t →
        (∀ c', t = .running c' → (context c').Valid true ∧ c'.flag 9 = true ∧
          Configured K c' ∧ ∀ p a, Contained K c p a → c'.mem a = c.mem a) ∧
        ∀ c', t = .returned c' → Back K c c' := by
  obtain ⟨c₀, hiretq, hcontext, hK, hT₀, h₀, hslots, hmem⟩ := h.inside hT
  refine ⟨c₀, hiretq, hcontext, fun t hrun => ⟨?_, ?_⟩⟩
  · rintro c' rfl
    have h' := hrun.inside hK hT₀ h₀ c' rfl
    refine ⟨h'.valid, h'.enabled, h'.configured hK, fun p a ha => ?_⟩
    exact (h'.mem p a ⟨ha.1.1, ha.2, fun hp => absurd hp ha.1.2.1⟩).trans (hmem p a ha.1)
  · rintro c' rfl
    obtain ⟨c₁, hrun₁, hstep⟩ := hrun.last (by simp)
    rcases (hrun₁.inside hK hT₀ h₀ c₁ rfl).step_cases hK hT₀ hstep with
      ⟨c₂, heq, -⟩ | ⟨c₂, heq, hleaving⟩ | heq | ⟨heq, -⟩
    · cases heq
    · cases heq
      exact hleaving.back hK h.stack hslots hmem
    · cases heq
    · cases heq

/-! ## A program -/

/-- The kernel calls `ExecuteUserTask` for a program at the start of the window. -/
def launchContext : Context where
  regs r := if r = .rsp then 0x126000 else if r = .rdi then 0x40000000
    else if r = .rsi then 0x40002000 else 0
  rip := 0x101000
  rflags := 0x202
  seg s := if s = .cs then kernelCodeSelector else kernelDataSelector

/-- There is a state in which the kernel can start a program. -/
theorem exists_launching :
    ∃ c, context c = launchContext ∧ Launching linkedImage c ∧
      Boot.TablesBuilt linkedImage.sym (physical c.mem) := by
  obtain ⟨c, hK, hc, hkept⟩ := exists_configured (fun _ ha => pagedMemory_idt ha) launchContext
  have hregs : c.regs = launchContext.regs := congrArg Context.regs hc
  have hrflags : c.rflags = 0x202 := congrArg Context.rflags hc
  have hseg : c.seg = launchContext.seg := congrArg Context.seg hc
  refine ⟨c, hc, ⟨hK, ⟨?_, ?_⟩, ?_, ?_, ?_, ?_⟩, ?_⟩
  · rw [hregs]
    decide
  · rw [hregs]
    decide
  · rw [hseg]
    rfl
  · rw [hregs]
    exact .inl (by decide)
  · rw [Core.flag, hrflags]
    rfl
  · intro k hk
    rw [Core.flag, hrflags]
    revert k
    decide
  · exact tablesBuilt_configured hkept

/-- The program of `launchContext` works, is interrupted by a tick, makes a call that the kernel
does not know, and exits; the kernel is back behind its call of `ExecuteUserTask`. -/
theorem program_contained :
    ∃ c c₀ c₁ c₂ c₃ c₄ c', context c = launchContext ∧
      (c.run (executeUserTask linkedImage)).iretq = .ok c₀ ∧ UserWork linkedImage c₀ c₁ ∧
      UserStep linkedImage c₁ (.running c₂) ∧ context c₂ = context c₁ ∧
      UserStep linkedImage c₂ (.running c₃) ∧ c₃.regs .rax = syscallError ∧
      UserWork linkedImage c₃ c₄ ∧ UserStep linkedImage c₄ (.returned c') ∧
      c'.rip = load 0x126000 c.mem ∧ c'.regs .rsp = 0x126008 := by
  obtain ⟨c, hc, hlaunch, hT⟩ := exists_launching
  obtain ⟨c₀, hiretq, hcontext, hcontained⟩ := user_task_contained hlaunch hT
  obtain ⟨c₀', hiretq', -, hK, hT₀, h₀, -, -⟩ := hlaunch.inside hT
  obtain rfl : c₀ = c₀' := Except.ok.inj (hiretq.symm.trans hiretq')
  have hinside : ∀ {c'}, UserRun linkedImage c₀ (.running c') → Inside linkedImage c₀ c' :=
    fun hrun => hrun.inside hK hT₀ h₀ _ rfl
  have hset : ∀ {c' : Core} (n : UInt64), UserRun linkedImage c₀ (.running c') →
      UserWork linkedImage c' { c' with regs := fun _ => n } :=
    fun n hrun => userWork_regs (hinside hrun).valid _ fun _ _ => rfl
  have hnext : Paging.Canonical (0x40000002 : UInt64).toNat := .inl (by decide)
  have hwork₁ := hset 99 .start
  have hrun₁ := UserRun.next .start (.work hwork₁)
  obtain ⟨c₂, htick, hsame⟩ := (hinside hrun₁).exists_tick hK
  have hrun₂ := UserRun.next hrun₁ htick
  have hrax₂ : c₂.regs .rax = 99 := congrFun (congrArg Context.regs hsame) .rax
  obtain ⟨c₃, hcall, hanswer⟩ := (hinside hrun₂).exists_call hK hnext
    (by rw [hrax₂]; decide) ⟨none, none⟩ patternState
  have hrun₃ := UserRun.next hrun₂ hcall
  have hwork₄ := hset 2 hrun₃
  have hrun₄ := UserRun.next hrun₃ (.work hwork₄)
  obtain ⟨c', hexit⟩ := (hinside hrun₄).exists_exit hK hnext rfl
  have hback := (hcontained _ (hrun₄.next hexit)).2 c' rfl
  have hrsp : c.regs .rsp = 0x126000 := congrFun (congrArg Context.regs hc) .rsp
  refine ⟨c, c₀, _, c₂, c₃, _, c', hc, hiretq, hwork₁, htick, hsame, hcall, ?_, hwork₄, hexit,
    hrsp ▸ hback.rip, ?_⟩
  · have hnumber : (((context c₂).after 0x40000002).frame 0).rax = 99 := hrax₂
    refine (congrFun (congrArg Context.regs hanswer) .rax).trans ?_
    simp only [Context.answered, Function.update_self, dispatch, hnumber]
    rfl
  · rw [hback.rsp, hrsp]
    rfl

end DavOS.Kernel
