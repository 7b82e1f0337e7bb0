import DavOS.Kernel.Containment

/-!
# `syscall` with TF or NT set

Reference: `ksyscall.Init` of `kernel/syscall/runtime.go` and `SyscallEntryStub` of
`boot/stubs_amd64.s`.

`syscall` clears the flags in SFMASK, which is IF alone. A trap or an interrupt also clears TF and
NT. With NT set, the stub of `syscall` cannot return, and of all that the stubs do for a user
program this is the only step that faults. With TF set, the processor traps before the stub has
changed the stack.
-/

namespace DavOS.Kernel

open Amd64

variable {K : Image} {c : Core} {next : UInt64}

/-! ## Runs that are lost -/

/-- `syscall` keeps the tables, and the processor is in ring 0. -/
theorem Configured.afterSyscall (hK : Configured K c) (next : UInt64) :
    Configured K (c.afterSyscall next) ∧ InRing (c.afterSyscall next) false := by
  refine ⟨hK.congr ⟨rfl, rfl, rfl, rfl⟩ (fun _ _ => rfl) (fun _ _ => rfl) (fun _ _ => rfl), ?_⟩
  simp only [InRing, Core.afterSyscall, hK.star]
  rfl

/-- SFMASK leaves TF as it is. -/
theorem Configured.trap_afterSyscall (hK : Configured K c) (htrap : c.flag 8 = true)
    (next : UInt64) : (c.afterSyscall next).flag 8 = true := by
  rw [Core.flag, Core.afterSyscall, UInt64.toBitVec_and, BitVec.getLsbD_and, hK.sfmask]
  exact Bool.and_eq_true_iff.mpr ⟨htrap, rfl⟩

/-- The trap is taken in ring 0, so the stack is not switched. -/
theorem toNat_frameTop_afterSyscall (K : Image) (c : Core) (next : UInt64) :
    (K.frameTop (c.afterSyscall next) false).toNat = 16 * ((c.regs .rsp).toNat / 16) :=
  toNat_and_not_15 (c.regs .rsp)

/-- The handler of a general protection fault in kernel mode loops. -/
theorem ends_of_kernel_frame {c₁ : Core} {x : Context} {w : UInt64} {stack : Part}
    (harg : frameArg c₁ = x.frame w) (hcs : x.seg .cs = kernelCodeSelector) :
    Ends K stack c₁ .gpFault .loops := by
  refine .kernelFault (.inl rfl) ?_
  rw [harg]
  change (x.seg .cs).toUInt64 &&& 3 ≠ 3
  rw [hcs]
  decide

/-- **With TF set and a stack pointer that leads nowhere, `syscall` shuts the processor down.** The
trap, the general protection fault and the page fault in its place, and the double fault all need
the same stack. -/
theorem trapped_syscall_shuts_down (hK : Configured K c)
    (hT : Boot.TablesBuilt K.sym (physical c.mem)) (htrap : c.flag 8 = true)
    (hrsp : 2 ^ 32 + 16 ≤ (c.regs .rsp).toNat) (next : UInt64) :
    c.syscallOn (K.mapped c.mem) next = .shutdown := by
  obtain ⟨hK', hring⟩ := hK.afterSyscall next
  have hframe := toNat_frameTop_afterSyscall K c next
  have hunmapped : K.mapped c.mem (K.frameTop (c.afterSyscall next) false - .ofNat (0 + 1)) =
      false := by
    refine Bool.eq_false_iff.mpr (mt (mapped_iff hT).mp ?_)
    rw [toNat_sub_ofNat (by omega)]
    omega
  rw [Core.syscallOn, if_neg (by rw [hK.sce]; decide)]
  exact (if_pos (hK.trap_afterSyscall htrap next)).trans
    (hK'.unmapped_stack_shuts_down hring (by decide) hunmapped 1 .hardware none)

section Trapped

variable {target : UInt64} {code : UInt64 → Prop}

end Trapped

/-- **With NT set, a system call does not come back.** `iretq` faults in ring 0, on the way back
from the handler, and the handler of that fault loops. -/
theorem nested_syscall_stuck (hK : Configured K c) (hx : (context c).Valid true)
    (htrap : c.flag 8 = false) (hnested : c.flag 14 = true) (next : UInt64) :
    ∃ c₀, c.syscall next = .entered c₀ ∧ c₀.rip = K.stub .syscallEntry ∧
      ∀ hooks sys c₂, Dispatched K .syscallStack hooks sys
          (c₀.run (Stub.entry K .syscallEntry)) c₂ →
        (c₂.run stubExit).iretq = .error ⟨vectorGP, some 0⟩ ∧
        ∃ c₃, (c₂.run stubExit).raise vectorGP .hardware (some 0) = .entered c₃ ∧
          c₃.rip = K.stub .gpFault ∧
          Ends K .syscallStack (c₃.run (Stub.entry K .gpFault)) .gpFault .loops := by
  obtain ⟨hentered, hflag⟩ := hK.entered_syscall hx next
  refine ⟨_, hK.syscall_eq htrap next, hK.lstar, fun hooks sys c₂ hret => ?_⟩
  refine ⟨iretq_nested (hret.nested.trans (hflag.trans hnested)), ?_⟩
  have hframe := hret.frame
  rw [hentered.arg rfl, TrapFrame.readFrom_eq hentered.frame, dispatch_congr hooks _ _ sys rfl rfl
    rfl rfl rfl, ← Context.frame_answered, ← hret.rbp] at hframe
  obtain ⟨-, hrsp, hmem, hseg, htables, -⟩ := run_stubExit hframe
  have hrbp_le := hentered.rbp_le
  have hlt_rbp := hentered.lt_rbp
  have hle := K.high_le .syscallStack
  have hhigh : K.high .syscallStack = K.low .syscallStack + 4096 := rfl
  have htop : entryTop K (afterCall K c next) true .syscallStack = K.high .syscallStack := rfl
  have hK₂ : Configured K (c₂.run stubExit) := by
    have hkeeps : ∀ p, p ≠ .syscallStack → p ≠ .saved → K.Keeps p c.mem (c₂.run stubExit).mem := by
      intro p hp hp' a ha
      rw [hmem, hentered.mem_of_handling (fun _ ha => ha) hret.toHandling ha (absurd · hp)]
      exact keeps_afterCall K c next hp' a ha
    exact hK.congr ((show SameTables c (afterCall K c next) from ⟨rfl, rfl, rfl, rfl⟩).trans
      (hentered.tables.trans (hret.tables.trans htables))) (hkeeps .idt (by simp) (by simp))
      (hkeeps .gdt (by simp) (by simp)) (hkeeps .cpuTSS (by simp) (by simp))
  have hring : InRing (c₂.run stubExit) false := by
    rw [InRing, hseg, hret.seg]
    exact hentered.cs
  have hrsp' : ((c₂.run stubExit).regs .rsp).toNat = (c₂.regs .rbp).toNat + 128 := by
    rw [hrsp]
    exact LittleEndian.toNat_add_ofNat (k := 128) (by rw [hret.rbp]; omega)
  rw [hret.rbp] at hrsp'
  obtain ⟨hrip, hentered₂, -⟩ := hK₂.entered_through (v := vectorGP) (s := .gpFault) hring rfl
    (show CodePushed .gpFault (some 0) 0 from rfl)
    (show EntryStack K _ false .syscallStack from
      ⟨by decide, by simp, fun _ => ⟨by omega, by omega⟩⟩)
  refine ⟨_, hK₂.raise_eq hring vectorGP .hardware (some 0), hrip,
    ends_of_kernel_frame (x := context (c₂.run stubExit)) (w := 0) ?_ hring⟩
  rw [frameArg]
  exact (congrArg _ (hentered₂.arg rfl)).trans (TrapFrame.readFrom_eq hentered₂.frame)

/-- A program at its first instruction, but with NT set. -/
def nestedContext : Context := { firstContext with rflags := 0x4202 }

/-- A program with NT set that makes an unknown call does not get its answer. -/
theorem unknown_call_stuck :
    ∃ c c₀ c₂ : Core, context c = nestedContext ∧ c.syscall 0x40000002 = .entered c₀ ∧
      Dispatched linkedImage .syscallStack ⟨none, none⟩ patternState
        (c₀.run (Stub.entry linkedImage .syscallEntry)) c₂ ∧
      (c₂.run stubExit).iretq = .error ⟨vectorGP, some 0⟩ := by
  obtain ⟨c, hK, hc, -⟩ := exists_configured (fun _ _ => rfl) nestedContext
  have hrflags : c.rflags = 0x4202 := congrArg Context.rflags hc
  have hx : (context c).Valid true := by
    rw [hc]
    exact ⟨valid_firstContext.rip, valid_firstContext.cs, valid_firstContext.ss,
      valid_firstContext.data⟩
  have htrap : c.flag 8 = false := by
    rw [Core.flag, hrflags]
    rfl
  have hnested : c.flag 14 = true := by
    rw [Core.flag, hrflags]
    rfl
  obtain ⟨c₀, hsyscall, -, hstuck⟩ := nested_syscall_stuck hK hx htrap hnested 0x40000002
  have hc₀ : c.afterSyscall 0x40000002 = c₀ :=
    Outcome.entered.inj ((hK.syscall_eq htrap _).symm.trans hsyscall)
  obtain ⟨c₂, hret⟩ := (hK.entered_syscall hx 0x40000002).1.exists_dispatched
    ⟨none, none⟩ patternState
  rw [hc₀] at hret
  exact ⟨c, c₀, c₂, hc, hsyscall, hret, (hstuck _ _ c₂ hret).1⟩

end DavOS.Kernel
