import DavOS.Kernel.Dispatch
import DavOS.Kernel.Vectors

/-!
# Entering and leaving the kernel

Reference: `boot/stubs_amd64.s`.

The stubs save all registers in a trap frame, call a handler, and resume what the frame says. A
handler is compiled code. It is known here by the calling convention and by what it may write: it
leaves alone the parts of memory in `Image`, but for the stack below the stack pointer
(`Returned`).
-/

namespace DavOS.Kernel

open Amd64
open LittleEndian (toNat_add_ofNat)

/-! ## Contexts and trap frames -/

/-- What an interrupt must not change. -/
@[ext] structure Context where
  regs : Reg → UInt64
  rip : UInt64
  rflags : UInt64
  seg : Seg → UInt16

def context (c : Core) : Context := ⟨c.regs, c.rip, c.rflags, c.seg⟩

namespace TrapFrame

/-- The fields in the order of memory. -/
def words (tf : TrapFrame) : List UInt64 :=
  [tf.r15, tf.r14, tf.r13, tf.r12, tf.r11, tf.r10, tf.r9, tf.r8, tf.rdi, tf.rsi, tf.rbp, tf.rbx,
    tf.rdx, tf.rcx, tf.rax, tf.errorCode, tf.rip, tf.cs, tf.rflags, tf.rsp, tf.ss]

/-- The frame that a handler sees behind its argument. -/
def readFrom (mem : Memory) (a : UInt64) : TrapFrame :=
  let word (k : ℕ) := load (a + .ofNat (8 * k)) mem
  ⟨word 0, word 1, word 2, word 3, word 4, word 5, word 6, word 7, word 8, word 9, word 10,
    word 11, word 12, word 13, word 14, word 15, word 16, word 17, word 18, word 19, word 20⟩

/-- A trap frame is read back from the stack. -/
theorem readFrom_eq {mem : Memory} {a : UInt64} {tf : TrapFrame} (h : StackHolds mem a tf.words) :
    readFrom mem a = tf := by
  have hwords : (List.range 21).map (fun k => load (a + .ofNat (8 * k)) mem) = tf.words :=
    h.map_load
  cases tf
  simpa only [List.range_succ, List.range_zero, List.nil_append, List.cons_append, List.map_cons,
    List.map_nil, words, List.cons.injEq, and_true, readFrom, mk.injEq] using hwords

end TrapFrame

namespace Context

/-- The frame of a context. -/
def frame (x : Context) (code : UInt64) : TrapFrame where
  r15 := x.regs .r15
  r14 := x.regs .r14
  r13 := x.regs .r13
  r12 := x.regs .r12
  r11 := x.regs .r11
  r10 := x.regs .r10
  r9 := x.regs .r9
  r8 := x.regs .r8
  rdi := x.regs .rdi
  rsi := x.regs .rsi
  rbp := x.regs .rbp
  rbx := x.regs .rbx
  rdx := x.regs .rdx
  rcx := x.regs .rcx
  rax := x.regs .rax
  errorCode := code
  rip := x.rip
  cs := (x.seg .cs).toUInt64
  rflags := x.rflags
  rsp := x.regs .rsp
  ss := (x.seg .ss).toUInt64

/-- A context that code can have in one of the rings. In ring 3, a data segment register holds a
null selector or one of the two segments of the user. -/
structure Valid (x : Context) (user : Bool) : Prop where
  rip : Paging.Canonical x.rip.toNat
  cs : x.seg .cs = if user then userCodeSelector else kernelCodeSelector
  ss : if user then x.seg .ss = userDataSelector
    else x.seg .ss = 0 ∨ x.seg .ss = kernelDataSelector
  data : user = true → ∀ s ∈ [Seg.ds, .es, .fs, .gs], (x.seg s).toNat / 4 ∈ [0, 6, 8]

end Context

/-! ## The stubs -/

def pushRegs : List Op :=
  [.push .rax, .push .rcx, .push .rdx, .push .rbx, .push .rbp, .push .rsi, .push .rdi, .push .r8,
    .push .r9, .push .r10, .push .r11, .push .r12, .push .r13, .push .r14, .push .r15]

def popRegs : List Op :=
  [.pop .r15, .pop .r14, .pop .r13, .pop .r12, .pop .r11, .pop .r10, .pop .r9, .pop .r8, .pop .rdi,
    .pop .rsi, .pop .rbp, .pop .rbx, .pop .rdx, .pop .rcx, .pop .rax]

/-- The stubs up to the call of the handler. Some push a dummy error code, and some hand the frame
to the handler. -/
def stubEntry (dummy frame : Bool) : List Op :=
  (if dummy then [.pushImm 0] else []) ++ pushRegs ++
    [.mov .rsp .rbp, .alu .and (~~~15) .rsp, .alu .sub 8 .rsp] ++
    (if frame then [.mov .rbp .rdi] else [])

/-- The stubs from the return of the handler to `iretq`. -/
def stubExit : List Op := [.mov .rbp .rsp] ++ popRegs ++ [.alu .add 8 .rsp]

/-- `__syscall_saved_user_rsp`, `__syscall_saved_user_rip` and `__syscall_saved_user_rflags` -/
def syscallSaved (K : Image) (k : ℕ) : UInt64 := K.saved + .ofNat (64 + 8 * k)

/-- The stack switch of `SyscallEntryStub`, and the frame that the processor did not push. -/
def syscallPivot (K : Image) : List Op :=
  [.storeAt .rsp (syscallSaved K 0), .storeAt .rcx (syscallSaved K 1),
    .storeAt .r11 (syscallSaved K 2), .lea (K.syscallStack + 4096) .rsp,
    .pushImm 0x23, .pushAt (syscallSaved K 0), .pushAt (syscallSaved K 2), .pushImm 0x1B,
    .pushAt (syscallSaved K 1)]

namespace Stub

/-- `pushq $0` in place of an error code. -/
def dummy : Stub → Bool
  | .gpFault => false
  | .pFault => false
  | .dFault => false
  | _ => true

/-- `mov %rbp, %rdi`: the handler has the frame as its argument. -/
def pass : Stub → Bool
  | .irq0 => false
  | .irq1 => false
  | _ => true

/-- The code of a stub up to the call. `DFaultStub` is not here: it calls nothing, and stops the
processor. -/
def entry (K : Image) (s : Stub) : List Op :=
  (if s = .syscallEntry then syscallPivot K else []) ++ stubEntry s.dummy s.pass

end Stub

/-! ## Handlers -/

/-- What a handler that was called in `c` has done when it is in `c'`. Of the parts of memory, it
writes only to the stack below the stack pointer and where it `may`. -/
structure Handling (K : Image) (stack : Part) (may : UInt64 → Prop) (c c' : Core) : Prop where
  seg : c'.seg = c.seg
  tables : SameTables c c'
  mem : ∀ p a, K.In p a → ¬may a → (p = stack → (c.regs .rsp).toNat ≤ a.toNat) → c'.mem a = c.mem a

/-- The handler has returned. Of the calling convention, the stubs need only that RBP is kept. -/
structure Returned (K : Image) (stack : Part) (may : UInt64 → Prop) (c c' : Core) : Prop extends
    Handling K stack may c c' where
  rbp : c'.regs .rbp = c.regs .rbp
  nested : c'.flag 14 = c.flag 14

/-- Nothing has changed. -/
theorem Returned.refl (K : Image) (stack : Part) (may : UInt64 → Prop) (c : Core) :
    Returned K stack may c c :=
  ⟨⟨rfl, SameTables.refl c, fun _ _ _ _ _ => rfl⟩, rfl, rfl⟩

/-! ## Entry -/

/-- The registers in the order of `PUSH_REGS`. -/
def savedRegs : List Reg :=
  [.rax, .rcx, .rdx, .rbx, .rbp, .rsi, .rdi, .r8, .r9, .r10, .r11, .r12, .r13, .r14, .r15]

/-- The stub does not save the stack pointer. -/
theorem rsp_not_mem_savedRegs : Reg.rsp ∉ savedRegs := by decide

/-- It saves all others. -/
theorem mem_savedRegs {r : Reg} (hr : r ≠ .rsp) : r ∈ savedRegs := by
  cases r with
  | rsp => exact absurd rfl hr
  | _ => decide

/-- The words that a stub pushes. -/
def stubWords (dummy : Bool) (c : Core) : List UInt64 :=
  (if dummy then [0] else []) ++ savedRegs.map c.regs

/-- The stub pushes 15 registers, and a zero if there is no error code. -/
theorem length_stubWords (dummy : Bool) (c : Core) :
    (stubWords dummy c).length = (if dummy then 1 else 0) + 15 := by
  cases dummy <;> rfl

/-- The first instructions of the stub push `stubWords`. -/
theorem run_pushes_stub (dummy : Bool) (c : Core) :
    c.run ((if dummy then [.pushImm 0] else []) ++ pushRegs) =
      { c with toMachine := c.toMachine.pushAll (stubWords dummy c) } := by
  have hpush : pushRegs = savedRegs.map .push := rfl
  rw [hpush, Core.run_append, Core.run_pushes rsp_not_mem_savedRegs]
  cases dummy with
  | false => rfl
  | true =>
    have hregs : savedRegs.map (c.run [.pushImm 0]).regs = savedRegs.map c.regs := by
      refine List.map_congr_left fun r hr => Function.update_of_ne ?_ ..
      rintro rfl
      exact rsp_not_mem_savedRegs hr
    simp only [if_true, hregs, stubWords]
    generalize savedRegs.map c.regs = ws
    rfl

/-- A stub has run from `c` to the call of its handler, and the frame `tf` is on the stack. -/
structure Calling (dummy pass : Bool) (tf : TrapFrame) (c c' : Core) : Prop where
  frame : StackHolds c'.mem (c'.regs .rbp) tf.words
  rbp : (c'.regs .rbp).toNat + 8 * ((if dummy then 1 else 0) + 15) = (c.regs .rsp).toNat
  rsp_le : (c'.regs .rsp).toNat ≤ (c'.regs .rbp).toNat
  le_rsp : (c'.regs .rbp).toNat ≤ (c'.regs .rsp).toNat + 23
  aligned : (c'.regs .rsp).toNat % 16 = 8
  arg : pass = true → c'.regs .rdi = c'.regs .rbp
  mem : SameOutside (c'.regs .rbp).toNat (c.regs .rsp).toNat c.mem c'.mem
  seg : c'.seg = c.seg
  tables : SameTables c c'
  flag : ∀ k, Alu.statusFlags.toBitVec.getLsbD k = false → c'.flag k = c.flag k

/-- The frame pointer, and a stack pointer of 8 modulo 16 for the call. -/
theorem run_align (pass : Bool) (c : Core) :
    let c' := c.run ([.mov .rsp .rbp, .alu .and (~~~15) .rsp, .alu .sub 8 .rsp] ++
      if pass then [.mov .rbp .rdi] else [])
    c'.mem = c.mem ∧ c'.regs .rbp = c.regs .rsp ∧
      c'.regs .rsp = (c.regs .rsp &&& ~~~15) - 8 ∧ (pass = true → c'.regs .rdi = c.regs .rsp) ∧
      c'.seg = c.seg ∧ SameTables c c' ∧
      ∀ k, Alu.statusFlags.toBitVec.getLsbD k = false → c'.flag k = c.flag k := by
  have hflag : ∀ k, Alu.statusFlags.toBitVec.getLsbD k = false →
      ((((c.exec (.mov .rsp .rbp)).exec (.alu .and (~~~15) .rsp)).exec
        (.alu .sub 8 .rsp)).flag k) = c.flag k := by
    intro k hk
    rw [Core.flag_alu hk, Core.flag_alu hk]
    rfl
  cases pass with
  | false =>
    refine ⟨rfl, ?_, ?_, by simp, rfl, ⟨rfl, rfl, rfl, rfl⟩, hflag⟩
    · simp [Core.run, Core.exec]
    · simp [Core.run, Core.exec, Alu.apply]
  | true =>
    refine ⟨rfl, ?_, ?_, fun _ => ?_, rfl, ⟨rfl, rfl, rfl, rfl⟩, hflag⟩
    · simp [Core.run, Core.exec]
    · simp [Core.run, Core.exec, Alu.apply]
    · simp [Core.run, Core.exec]

/-- The stub calls its handler with the trap frame on the stack. -/
theorem calling_stubEntry {c : Core} {dummy : Bool} {tf : TrapFrame} {ws : List UInt64}
    (pass : Bool) (hwords : (stubWords dummy c).reverse ++ ws = tf.words)
    (hws : StackHolds c.mem (c.regs .rsp) ws) (hroom : 152 ≤ (c.regs .rsp).toNat)
    (hlt : (c.regs .rsp).toNat + 48 < 2 ^ 64) :
    Calling dummy pass tf c (c.run (stubEntry dummy pass)) := by
  have hlength := length_stubWords dummy c
  have hlengths := congrArg List.length hwords
  rw [List.length_append, List.length_reverse, hlength, show tf.words.length = 21 from rfl]
    at hlengths
  have hle : (stubWords dummy c).length ≤ 16 := by rw [hlength]; split <;> decide
  have hge : 15 ≤ (stubWords dummy c).length := by rw [hlength]; omega
  have hpushed : 8 * (stubWords dummy c).length ≤ (c.regs .rsp).toNat := by omega
  have hframe := Machine.stackHolds_pushAll (m := c.toMachine) hpushed hws (by omega)
  have hmem := Machine.sameOutside_pushAll hpushed
  have hrsp := Machine.toNat_rsp_pushAll hpushed
  rw [hwords] at hframe
  have hrun : c.run (stubEntry dummy pass) =
      ({ c with toMachine := c.toMachine.pushAll (stubWords dummy c) } : Core).run
        ([.mov .rsp .rbp, .alu .and (~~~15) .rsp, .alu .sub 8 .rsp] ++
          if pass then [.mov .rbp .rdi] else []) := by
    rw [stubEntry, List.append_assoc, Core.run_append, run_pushes_stub]
  rw [hrun]
  generalize c.toMachine.pushAll (stubWords dummy c) = m at hframe hmem hrsp
  obtain ⟨hmem', hrbp, hrsp', harg, hseg, htables, hflag⟩ :=
    run_align pass { c with toMachine := m }
  generalize ({ c with toMachine := m } : Core).run _ = c' at *
  have hround := toNat_and_not_15 (m.regs .rsp)
  have htop : (c'.regs .rsp).toNat = 16 * ((m.regs .rsp).toNat / 16) - 8 := by
    change c'.regs .rsp = (m.regs .rsp &&& ~~~15) - 8 at hrsp'
    have hsub := toNat_sub_ofNat (a := m.regs .rsp &&& ~~~15) (k := 8) (by omega)
    rw [hround] at hsub
    exact (congrArg UInt64.toNat hrsp').trans hsub
  have hrbp' : (c'.regs .rbp).toNat = (m.regs .rsp).toNat := congrArg UInt64.toNat hrbp
  exact
    { frame := by rw [hmem', hrbp]; exact hframe
      rbp := by omega
      rsp_le := by omega
      le_rsp := by omega
      aligned := by omega
      arg := fun h => (harg h).trans hrbp.symm
      mem := by rw [hrbp', hrsp, hmem']; exact hmem
      seg := hseg
      tables := ⟨htables.gdtr, htables.idtr, htables.tssBase, htables.msr⟩
      flag := hflag }

/-! ## Exit -/

/-- The pops of a stub restore the registers of the frame. -/
theorem run_stubExit {c : Core} {x : Context} {code : UInt64}
    (h : StackHolds c.mem (c.regs .rbp) (x.frame code).words) :
    let c' := c.run stubExit
    (∀ r ≠ .rsp, c'.regs r = x.regs r) ∧ c'.regs .rsp = c.regs .rbp + 128 ∧ c'.mem = c.mem ∧
      c'.seg = c.seg ∧ SameTables c c' ∧ c'.flag 14 = c.flag 14 := by
  have hwords : (x.frame code).words = savedRegs.reverse.map x.regs ++
      [code, x.rip, (x.seg .cs).toUInt64, x.rflags, x.regs .rsp, (x.seg .ss).toUInt64] := rfl
  rw [hwords] at h
  have hrsp : (c.exec (.mov .rbp .rsp)).regs .rsp = c.regs .rbp := by
    simp only [Core.exec, Function.update_self]
  have hpops := Core.run_pops (c := c.exec (.mov .rbp .rsp)) (f := x.regs)
    (show savedRegs.reverse.Nodup by decide) (by decide) (hrsp ▸ h)
  have hpop : popRegs = savedRegs.reverse.map .pop := rfl
  have hrun : c.run stubExit =
      ((c.exec (.mov .rbp .rsp)).run (savedRegs.reverse.map .pop)).exec (.alu .add 8 .rsp) := by
    rw [stubExit, Core.run_append, Core.run_append, hpop, Core.run_singleton, Core.run_singleton]
  rw [hrun, hpops, hrsp]
  refine ⟨?_, ?_, rfl, rfl, ⟨rfl, rfl, rfl, rfl⟩, ?_⟩
  · intro r hr
    have hmem : r ∈ savedRegs.reverse := List.mem_reverse.mpr (mem_savedRegs hr)
    simp only [Core.exec, Function.update_of_ne hr, if_pos hmem]
  · have hmem : Reg.rsp ∉ savedRegs.reverse := by decide
    simp only [Core.exec, Function.update_self, if_neg hmem, if_true, Alu.apply, UInt64.add_assoc]
    rfl
  · rw [Core.flag_alu (by decide)]
    rfl

/-- A stub resumes the context of its frame. -/
theorem iretq_stubExit {K : Image} {c : Core} {x : Context} {code : UInt64} {user : Bool}
    (hK : Configured K c) (h : StackHolds c.mem (c.regs .rbp) (x.frame code).words)
    (hcs : c.seg .cs = kernelCodeSelector) (hnested : c.flag 14 = false) (hx : x.Valid user)
    (hdata : ∀ s, s ≠ .cs → s ≠ .ss → c.seg s = x.seg s) :
    ∃ c', (c.run stubExit).iretq = .ok c' ∧ context c' = x ∧ c'.mem = c.mem ∧ SameTables c c' := by
  obtain ⟨hregs, hrsp, hmem, hseg, htables, hflag⟩ := run_stubExit h
  have hK' : Configured K (c.run stubExit) := by
    refine hK.congr htables ?_ ?_ ?_ <;> exact fun a _ => congrFun hmem a
  have hsplit : (x.frame code).words = (savedRegs.reverse.map x.regs ++ [code]) ++
      [x.rip, (x.seg .cs).toUInt64, x.rflags, x.regs .rsp, (x.seg .ss).toUInt64] := rfl
  rw [hsplit] at h
  have hstack := (StackHolds.append.mp h).2
  have hlevel : (x.seg .cs).toNat % 4 = if user then 3 else 0 := by
    rw [hx.cs]
    cases user <;> rfl
  have hcpl : (c.run stubExit).cpl = 0 := by
    rw [Core.cpl, hseg, hcs]
    rfl
  generalize c.run stubExit = c₁ at *
  have hiretq := @Core.iretq_eq c₁ x.rip x.rflags (x.regs .rsp) (x.seg .cs) (x.seg .ss)
    (by rw [hmem, hrsp]; exact hstack) (hflag.trans hnested)
    (by rw [hlevel, hx.cs]; exact hK'.codeLevel user) (by rw [hcpl]; exact Nat.zero_le _)
    (by
      rw [hlevel]
      have hss := hx.ss
      cases user with
      | false => exact hK'.stackSelector_kernel hss
      | true => rw [show x.seg .ss = userDataSelector from hss]; exact hK'.stackSelector_user)
    hx.rip
  have hvisible : ∀ s, s ≠ .cs → s ≠ .ss →
      (if c₁.cpl < (x.seg .cs).toNat % 4 then c₁.visible ((x.seg .cs).toNat % 4) (c₁.seg s)
        else c₁.seg s) = x.seg s := by
    intro s hs hs'
    rw [hlevel, hcpl, hseg, hdata s hs hs']
    cases user with
    | false => rfl
    | true => exact hK'.visible_user (hx.data rfl s (by cases s <;> first | contradiction | decide))
  refine ⟨_, hiretq, Context.ext ?_ rfl rfl ?_, hmem,
    htables.gdtr, htables.idtr, htables.tssBase, htables.msr⟩
  · funext r
    by_cases hr : r = .rsp
    · rw [hr]
      exact Function.update_self (a := Reg.rsp) (f := c₁.regs) ..
    · exact (Function.update_of_ne hr ..).trans (hregs r hr)
  · funext s
    cases s with
    | cs => rfl
    | ss => rfl
    | _ => exact hvisible _ (by decide) (by decide)

/-! ## From an interrupt to the call -/

/-- The stack on which a handler runs: the trap stack after a trap from ring 3, and else the stack
that is in use. -/
structure EntryStack (K : Image) (c : Core) (user : Bool) (stack : Part) : Prop where
  isStack : stack ∈ [.trapStack, .syscallStack, .bootStack]
  outer : user = true → stack = .trapStack
  inner : user = false → K.low stack + 256 ≤ (c.regs .rsp).toNat ∧
    (c.regs .rsp).toNat ≤ K.high stack

/-- The end of what handlers use of the stack. -/
def entryTop (K : Image) (c : Core) (user : Bool) (stack : Part) : ℕ :=
  if user then K.high stack else (c.regs .rsp).toNat

/-- An interrupt in `c` has led to the call of a handler in `c'`. -/
structure Entered (K : Image) (user : Bool) (stack : Part) (pass : Bool) (code : UInt64)
    (c c' : Core) : Prop where
  isStack : stack ∈ [.trapStack, .syscallStack, .bootStack]
  frame : StackHolds c'.mem (c'.regs .rbp) ((context c).frame code).words
  low_le : K.low stack ≤ (c'.regs .rsp).toNat
  rsp_le : (c'.regs .rsp).toNat ≤ (c'.regs .rbp).toNat
  rbp_le : (c'.regs .rbp).toNat + 168 ≤ entryTop K c user stack
  lt_rbp : entryTop K c user stack < (c'.regs .rbp).toNat + 184
  top_le : entryTop K c user stack ≤ K.high stack
  aligned : (c'.regs .rsp).toNat % 16 = 8
  arg : pass = true → c'.regs .rdi = c'.regs .rbp
  mem : SameOutside (K.low stack) (entryTop K c user stack) c.mem c'.mem
  cs : c'.seg .cs = kernelCodeSelector
  ss : user = true → c'.seg .ss = 0 ∨ c'.seg .ss = kernelDataSelector
  data : ∀ s, s ≠ .cs → s ≠ .ss → c'.seg s = c.seg s
  tables : SameTables c c'
  -- the handler runs with interrupts disabled
  masked : c'.flag 9 = false

variable {K : Image} {c : Core} {user : Bool} {stack : Part} {v : UInt8} {s : Stub}

/-- The processor starts at an aligned address. -/
theorem EntryStack.top (h : EntryStack K c user stack) (hK : Configured K c) (hring : InRing c user)
    (hs : vectorStub v = some s) :
    K.low stack + 240 ≤ (c.stackFor (K.gate v) 0 &&& ~~~15).toNat ∧
      (c.stackFor (K.gate v) 0 &&& ~~~15).toNat ≤ entryTop K c user stack ∧
      entryTop K c user stack < (c.stackFor (K.gate v) 0 &&& ~~~15).toNat + 16 ∧
      entryTop K c user stack ≤ K.high stack := by
  rw [toNat_and_not_15, hK.stackFor_eq hring hs]
  cases user with
  | false =>
    obtain ⟨hlow, hhigh⟩ := h.inner rfl
    simp only [entryTop, Bool.false_eq_true, if_false]
    omega
  | true =>
    obtain rfl := h.outer rfl
    have hhigh : K.high .trapStack = K.low .trapStack + 4096 := rfl
    simp only [entryTop, if_true, toNat_defaultKernelTrapStackTop]
    omega

/-- Exactly one of the processor and the stub pushes an error code. -/
def CodePushed (s : Stub) (code : Option UInt64) (w : UInt64) : Prop :=
  (if s.dummy then [0] else []) ++ code.toList = [w]

/-- Together the processor and the stub push the frame. -/
theorem CodePushed.words {code : Option UInt64} {w : UInt64} (h : CodePushed s code w) {c₀ : Core}
    (hregs : ∀ r ≠ .rsp, c₀.regs r = c.regs r) :
    (stubWords s.dummy c₀).reverse ++ (c.interruptFrame code).reverse =
      ((context c).frame w).words := by
  have hpushed : savedRegs.map c₀.regs = savedRegs.map c.regs := by
    refine List.map_congr_left fun r hr => hregs r ?_
    rintro rfl
    exact rsp_not_mem_savedRegs hr
  have hsplit : (stubWords s.dummy c₀).reverse ++ (c.interruptFrame code).reverse =
      savedRegs.reverse.map c.regs ++ ((if s.dummy then [0] else []) ++ code.toList) ++
        [c.rip, (c.seg .cs).toUInt64, c.rflags, c.regs .rsp, (c.seg .ss).toUInt64] := by
    rw [stubWords, hpushed, Core.interruptFrame]
    cases s.dummy <;> cases code <;> rfl
  rw [hsplit, h]
  rfl

/-- Through the gate, the stub is entered and calls its handler. -/
theorem Configured.entered_through (hK : Configured K c) (hring : InRing c user)
    (hs : vectorStub v = some s) {code : Option UInt64} {w : UInt64} (hcode : CodePushed s code w)
    (hstack : EntryStack K c user stack) :
    (c.through (K.gate v) 0 code).rip = K.stub s ∧
      Entered K user stack s.pass w c
        ((c.through (K.gate v) 0 code).run (stubEntry s.dummy s.pass)) ∧
      ((c.through (K.gate v) 0 code).run (stubEntry s.dummy s.pass)).flag 14 = false := by
  obtain ⟨hlow, htop, hlt_top, hhigh⟩ := hstack.top hK hring hs
  have hlt := K.high_le stack
  obtain ⟨hrsp, hholds, hmem, hregs⟩ := Core.through_frame
    (show c.stackFor (K.gate v) 0 &&& ~~~15 = _ from rfl) (by omega) code
  have hlength : (c.interruptFrame code).length = 5 + code.toList.length := by
    simp [Core.interruptFrame]
    omega
  have hcodes := congrArg List.length hcode
  rw [List.length_append, apply_ite List.length, List.length_singleton] at hcodes
  change (if s.dummy = true then 1 else 0) + _ = 1 at hcodes
  obtain ⟨hrip, hcs, hflags⟩ := through_gate (K := K) hs c code
  have hss : user = true → (c.through (K.gate v) 0 code).seg .ss = 0 := by
    intro huser
    rw [Core.through]
    dsimp only
    rw [if_pos (by rw [hring.cpl, huser]; decide), Function.update_self]
    rfl
  have hdata : ∀ s, s ≠ .cs → s ≠ .ss → (c.through (K.gate v) 0 code).seg s = c.seg s := by
    intro s hs hs'
    rw [Core.through]
    dsimp only
    split
    · rw [Function.update_of_ne hs', Function.update_of_ne hs]
    · rw [Function.update_of_ne hs]
  have htables : SameTables c (c.through (K.gate v) 0 code) := ⟨rfl, rfl, rfl, rfl⟩
  generalize c.through (K.gate v) 0 code = c₀ at *
  have hcalling := calling_stubEntry s.pass (hcode.words hregs) hholds (by omega) (by omega)
  have hrbp := hcalling.rbp
  have hrsp_le := hcalling.rsp_le
  have hle_rsp := hcalling.le_rsp
  refine ⟨hrip,
    { isStack := hstack.isStack
      frame := hcalling.frame
      low_le := by omega
      rsp_le := hrsp_le
      rbp_le := by omega
      lt_rbp := by omega
      top_le := hhigh
      aligned := hcalling.aligned
      arg := hcalling.arg
      mem := (hmem.mono (by omega) htop).trans (hcalling.mem.mono (by omega) (by omega))
      cs := by rw [hcalling.seg, hcs]
      ss := fun huser => .inl (by rw [hcalling.seg, hss huser])
      data := fun s hs hs' => by rw [hcalling.seg, hdata s hs hs']
      tables := htables.trans hcalling.tables
      masked := ?_ }, ?_⟩
  · rw [hcalling.flag 9 (by decide), Core.flag, hflags]
    exact getLsbD_and_not (by decide) _
  · rw [hcalling.flag 14 (by decide), Core.flag, hflags]
    exact getLsbD_and_not (by decide) _

namespace Entered

variable {pass : Bool} {code : UInt64} {c' c₂ : Core} {may : UInt64 → Prop}

/-- The bytes of the frame. -/
def InFrame (c : Core) (a : UInt64) : Prop :=
  (c.regs .rbp).toNat ≤ a.toNat ∧ a.toNat < (c.regs .rbp).toNat + 168

/-- A handler that may not write to the frame leaves it as it is. -/
theorem frame_of_returned (h : Entered K user stack pass code c c')
    (hret : Returned K stack (fun _ => False) c' c₂) :
    StackHolds c₂.mem (c₂.regs .rbp) ((context c).frame code).words := by
  have hlow := h.low_le
  have hrsp := h.rsp_le
  have hrbp := h.rbp_le
  have htop := h.top_le
  have hlt := K.high_le stack
  have hlength : ((context c).frame code).words.length = 21 := rfl
  rw [hret.rbp]
  refine h.frame.congr (by omega) fun a hlow hhigh => ?_
  refine hret.mem stack a ⟨by omega, by omega⟩ not_false fun _ => ?_
  omega

/-- Of the parts of memory, a handler changes only the stack. -/
theorem mem_of_handling (h : Entered K user stack pass code c c')
    (hmay : ∀ a, may a → InFrame c' a) (hret : Handling K stack may c' c₂) {p : Part} {a : UInt64}
    (ha : K.In p a) (hstack : p = stack → entryTop K c user stack ≤ a.toNat) :
    c₂.mem a = c.mem a := by
  have hlow := h.low_le
  have hrsp := h.rsp_le
  have hrbp := h.rbp_le
  have htop := h.top_le
  have hout : ¬(K.low stack ≤ a.toNat ∧ a.toNat < entryTop K c user stack) := by
    intro hin
    by_cases hp : p = stack
    · have := hstack hp
      omega
    · exact ha.not_in hp ⟨hin.1, by rw [Image.high] at *; omega⟩
  refine (hret.mem p a ha ?_ ?_).trans (h.mem a hout)
  · intro hm
    obtain ⟨hge, hle⟩ := hmay a hm
    exact hout ⟨by omega, by omega⟩
  · intro hp
    have := hstack hp
    omega

/-- **The way back.** When the handler returns, the stub resumes the context that the frame holds
then. -/
theorem resume (h : Entered K user stack pass code c c') (hnested : c'.flag 14 = false)
    (hK : Configured K c) (hmay : ∀ a, may a → InFrame c' a)
    (hret : Returned K stack may c' c₂) {x : Context}
    (hframe : StackHolds c₂.mem (c₂.regs .rbp) (x.frame code).words) (hx : x.Valid user)
    (hseg : x.seg = c.seg) :
    ∃ c₃, (c₂.run stubExit).iretq = .ok c₃ ∧ context c₃ = x ∧ Configured K c₃ ∧
      SameTables c c₃ ∧
      ∀ p a, K.In p a → (p = stack → entryTop K c user stack ≤ a.toNat) → c₃.mem a = c.mem a := by
  have hkeeps : ∀ p, p ∉ [Part.trapStack, .syscallStack, .bootStack] → K.Keeps p c.mem c₂.mem := by
    intro p hp a ha
    refine h.mem_of_handling hmay hret.toHandling ha ?_
    rintro rfl
    exact absurd h.isStack hp
  have htables := h.tables.trans hret.tables
  have hK' : Configured K c₂ :=
    hK.congr htables (hkeeps .idt (by decide)) (hkeeps .gdt (by decide))
      (hkeeps .cpuTSS (by decide))
  obtain ⟨c₃, hiretq, hcontext, hmem, htables'⟩ := iretq_stubExit hK' hframe
    (by rw [hret.seg, h.cs]) (hret.nested.trans hnested) hx
    (fun s hs hs' => by rw [hret.seg, h.data s hs hs', hseg])
  have hkept : ∀ p, K.Keeps p c₂.mem c₃.mem := fun p a _ => congrFun hmem a
  refine ⟨c₃, hiretq, hcontext, hK'.congr htables' (hkept _) (hkept _) (hkept _),
    htables.trans htables', fun p a ha hstack => ?_⟩
  exact (congrFun hmem a).trans (h.mem_of_handling hmay hret.toHandling ha hstack)

end Entered

/-! ## A core -/

/-- A core that runs the kernel of the image, in any context. -/
theorem exists_configured {mem : Memory} (hzero : ∀ a, linkedImage.In .idt a → mem a = 0)
    (x : Context) :
    ∃ c : Core, Configured linkedImage c ∧ context c = x ∧
      ∀ p, p ≠ .idt → p ≠ .gdt → p ≠ .cpuTSS → linkedImage.Keeps p mem c.mem := by
  obtain ⟨c, -, hK, hkept⟩ := configured_initTables linkedImage { blankCore with mem } rfl hzero
  exact ⟨{ c with regs := x.regs, rip := x.rip, rflags := x.rflags, seg := x.seg },
    hK.congr ⟨rfl, rfl, rfl, rfl⟩ (fun _ _ => rfl) (fun _ _ => rfl) (fun _ _ => rfl), rfl, hkept⟩

/-- The context of a user program at its first instruction. -/
def firstContext : Context where
  regs r := if r = .rsp then 0x40002000 else 0
  rip := 0x40000000
  rflags := 0x202
  seg s := if s = .cs then userCodeSelector else userDataSelector

/-- The context of the example is one of the user's. -/
theorem valid_firstContext : firstContext.Valid true where
  rip := .inl (by decide)
  cs := rfl
  ss := rfl
  data _ := by decide

end DavOS.Kernel
