import DavOS.Kernel.TrapEntry

/-!
# The `syscall` instruction

Reference: `SyscallEntryStub` of `boot/stubs_amd64.s`.

The instruction switches neither the stack nor saves anything but RIP and RFLAGS, in RCX and R11.
The stub saves the three registers of the user in static slots and builds the frame of an interrupt
on a stack of its own, so that the handler and the way back are those of an interrupt in
`afterCall`.
-/

namespace DavOS.Kernel

open Amd64
open LittleEndian (toNat_add_ofNat)

variable {K : Image} {c : Core}

/-- The memory after `SyscallEntryStub` has saved what the processor left of the user. -/
def syscallSavedMemory (K : Image) (c : Core) (next : UInt64) : Memory :=
  c.mem |> store (syscallSaved K 0) (c.regs .rsp)
    |> store (syscallSaved K 1) next
    |> store (syscallSaved K 2) c.rflags

/-- The state to which a system call should return: right after the instruction, which itself
changes RCX and R11. -/
def afterCall (K : Image) (c : Core) (next : UInt64) : Core :=
  { c with
    regs := Function.update (Function.update c.regs .rcx next) .r11 c.rflags
    rip := next
    mem := syscallSavedMemory K c next }

/-- The slots of the `syscall` entry follow those of the kernel. -/
theorem toNat_syscallSaved (K : Image) {k : ℕ} (hk : k < 3) :
    (syscallSaved K k).toNat = K.low .saved + 64 + 8 * k := by
  have hfits := K.fits .saved
  change K.saved.toNat + 11 * 8 ≤ _ at hfits
  rw [syscallSaved, toNat_add_ofNat (by omega), ← Nat.add_assoc]
  rfl

/-- The slots hold what was stored, whatever is pushed on the stack for system calls. -/
theorem load_syscallSaved (K : Image) (c : Core) (next : UInt64) {mem : Memory}
    (h : SameOutside (K.low .syscallStack) (K.high .syscallStack) (syscallSavedMemory K c next)
      mem) :
    load (syscallSaved K 0) mem = c.regs .rsp ∧ load (syscallSaved K 1) mem = next ∧
      load (syscallSaved K 2) mem = c.rflags := by
  have h0 := toNat_syscallSaved K (k := 0) (by decide)
  have h1 := toNat_syscallSaved K (k := 1) (by decide)
  have h2 := toNat_syscallSaved K (k := 2) (by decide)
  have hhigh : K.high .saved = K.low .saved + 88 := rfl
  have hle := K.high_le .saved
  have hapart := Image.high_le_or (K := K) (p := .saved) (q := .syscallStack) (by decide)
  refine ⟨?_, ?_, ?_⟩
  · rw [h.load_eq (by omega) (by omega), syscallSavedMemory]
    simp (disch := omega) only [load_store_of_disjoint, load_store_self]
  · rw [h.load_eq (by omega) (by omega), syscallSavedMemory]
    simp (disch := omega) only [load_store_of_disjoint, load_store_self]
  · rw [h.load_eq (by omega) (by omega), syscallSavedMemory, load_store_self]

/-- The state when the stack pointer is on the stack for system calls. -/
def pivoted (K : Image) (c : Core) (next : UInt64) : Core :=
  { c.afterSyscall next with
    regs := Function.update (c.afterSyscall next).regs .rsp (K.syscallStack + 4096)
    mem := syscallSavedMemory K c next }

/-- What the stub pushes is what the processor pushes on an interrupt of the user. -/
theorem run_syscallPivot (K : Image) (c : Core) (next : UInt64) :
    (c.afterSyscall next).run (syscallPivot K) =
      (pivoted K c next).pushed [0x23, c.regs .rsp, c.rflags, 0x1B, next] := by
  have hle := K.high_le .syscallStack
  have hhigh : K.high .syscallStack = K.low .syscallStack + 4096 := rfl
  have htop : (K.syscallStack + 4096).toNat = K.high .syscallStack :=
    toNat_add_ofNat (k := 4096) (by
      change K.low .syscallStack + 4096 < _
      omega)
  have hrsp : ((pivoted K c next).regs .rsp).toNat = K.high .syscallStack := by
    simp only [pivoted, Function.update_self, htop]
  have hsaved : ∀ ws : List UInt64, ws.length ≤ 5 →
      load (syscallSaved K 0) ((pivoted K c next).pushed ws).mem = c.regs .rsp ∧
        load (syscallSaved K 1) ((pivoted K c next).pushed ws).mem = next ∧
        load (syscallSaved K 2) ((pivoted K c next).pushed ws).mem = c.rflags := by
    intro ws hws
    have hsame : SameOutside _ _ (pivoted K c next).mem ((pivoted K c next).pushed ws).mem :=
      Core.sameOutside_pushed (by omega)
    rw [hrsp] at hsame
    exact load_syscallSaved K c next (hsame.mono (by omega) le_rfl)
  have hregs : (c.afterSyscall next).regs .rsp = c.regs .rsp ∧
      (c.afterSyscall next).regs .rcx = next ∧ (c.afterSyscall next).regs .r11 = c.rflags := by
    simp [Core.afterSyscall]
  have hstart : (c.afterSyscall next).run [.storeAt .rsp (syscallSaved K 0),
      .storeAt .rcx (syscallSaved K 1), .storeAt .r11 (syscallSaved K 2),
      .lea (K.syscallStack + 4096) .rsp] = (pivoted K c next).pushed [] := by
    simp only [Core.run, List.foldl, Core.exec, hregs]
    rfl
  have hpivot : syscallPivot K = [.storeAt .rsp (syscallSaved K 0),
      .storeAt .rcx (syscallSaved K 1), .storeAt .r11 (syscallSaved K 2),
      .lea (K.syscallStack + 4096) .rsp] ++ [.pushImm 0x23, .pushAt (syscallSaved K 0),
      .pushAt (syscallSaved K 2), .pushImm 0x1B, .pushAt (syscallSaved K 1)] := rfl
  rw [hpivot, Core.run_append, hstart, Core.run_cons, Core.pushed_concat, List.nil_append,
    Core.run_cons, Core.exec_pushAt (hsaved [0x23] (by decide)).1, Core.pushed_concat,
    List.singleton_append, Core.run_cons,
    Core.exec_pushAt (hsaved [0x23, c.regs .rsp] (by simp)).2.2, Core.pushed_concat, Core.run_cons,
    Core.pushed_concat, Core.run_singleton]
  exact (Core.exec_pushAt (hsaved [0x23, c.regs .rsp, c.rflags, 0x1B] (by simp)).2.1).trans
    (Core.pushed_concat ..)

/-- The stub of `syscall` calls its handler on its own stack, with the caller's registers in the
frame. -/
theorem Configured.entered_syscall (hK : Configured K c) (hx : (context c).Valid true)
    (next : UInt64) :
    Entered K true .syscallStack true 0 (afterCall K c next)
        ((c.afterSyscall next).run (Stub.entry K .syscallEntry)) ∧
      ((c.afterSyscall next).run (Stub.entry K .syscallEntry)).flag 14 = c.flag 14 := by
  have hle := K.high_le .syscallStack
  have hhigh : K.high .syscallStack = K.low .syscallStack + 4096 := rfl
  have htop : ((pivoted K c next).regs .rsp).toNat = K.high .syscallStack := by
    simp only [pivoted, Function.update_self]
    exact toNat_add_ofNat (k := 4096) (by change K.low .syscallStack + 4096 < _; omega)
  have hrun : (c.afterSyscall next).run (Stub.entry K .syscallEntry) =
      ((pivoted K c next).pushed [0x23, c.regs .rsp, c.rflags, 0x1B, next]).run
        (stubEntry true true) := by
    rw [← run_syscallPivot, ← Core.run_append]
    rfl
  have hroom : 8 * [0x23, c.regs .rsp, c.rflags, 0x1B, next].length ≤
      ((pivoted K c next).regs .rsp).toNat := by
    rw [htop]
    change 40 ≤ _
    omega
  have hholds := Core.stackHolds_pushed hroom
  have hmem := Core.sameOutside_pushed hroom
  have hrsp := Core.toNat_rsp_pushed hroom
  have hregs := fun r (hr : r ≠ Reg.rsp) =>
    Core.regs_pushed (c := pivoted K c next) [0x23, c.regs .rsp, c.rflags, 0x1B, next] hr
  rw [htop, show [0x23, c.regs .rsp, c.rflags, 0x1B, next].length = 5 from rfl] at hmem hrsp
  have hsame : SameTables c ((pivoted K c next).pushed [0x23, c.regs .rsp, c.rflags, 0x1B, next]) :=
    ⟨rfl, rfl, rfl, rfl⟩
  have hseg : ((pivoted K c next).pushed [0x23, c.regs .rsp, c.rflags, 0x1B, next]).seg =
      (c.afterSyscall next).seg := rfl
  have hflags : ((pivoted K c next).pushed [0x23, c.regs .rsp, c.rflags, 0x1B, next]).rflags =
      c.rflags &&& ~~~c.msr msrSFMASK := rfl
  rw [hrun]
  generalize (pivoted K c next).pushed [0x23, c.regs .rsp, c.rflags, 0x1B, next] = c₀ at *
  have hpushed : savedRegs.map c₀.regs = savedRegs.map (afterCall K c next).regs := by
    refine List.map_congr_left fun r hr => ?_
    have hne : r ≠ .rsp := by
      rintro rfl
      exact rsp_not_mem_savedRegs hr
    exact (hregs r hne).trans (Function.update_of_ne hne ..)
  have hcs : c.seg .cs = 0x1B := hx.cs
  have hss : c.seg .ss = 0x23 := hx.ss
  have hwords : (stubWords true c₀).reverse ++ [0x23, c.regs .rsp, c.rflags, 0x1B, next].reverse =
      ((context (afterCall K c next)).frame 0).words := by
    have hframe : ((context (afterCall K c next)).frame 0).words =
        savedRegs.reverse.map (afterCall K c next).regs ++
          [0, next, (c.seg .cs).toUInt64, c.rflags, c.regs .rsp, (c.seg .ss).toUInt64] := rfl
    rw [stubWords, hpushed, hframe, hcs, hss, List.map_reverse]
    rfl
  have hcalling := calling_stubEntry true hwords hholds (by omega) (by omega)
  have hrbp := hcalling.rbp
  have hrsp_le := hcalling.rsp_le
  have hle_rsp := hcalling.le_rsp
  simp only [if_true] at hrbp
  have hcs' : (c.afterSyscall next).seg .cs = kernelCodeSelector := by
    simp only [Core.afterSyscall, hK.star]
    rfl
  have hss' : (c.afterSyscall next).seg .ss = kernelDataSelector := by
    simp only [Core.afterSyscall, hK.star]
    rfl
  refine ⟨
    { isStack := by decide
      frame := hcalling.frame
      low_le := by omega
      rsp_le := hrsp_le
      rbp_le := by change _ ≤ K.high .syscallStack; omega
      lt_rbp := by change K.high .syscallStack < _; omega
      top_le := le_rfl
      aligned := hcalling.aligned
      arg := hcalling.arg
      mem := (hmem.mono (by omega) le_rfl).trans
        (hcalling.mem.mono (by omega) (by omega))
      cs := by rw [hcalling.seg, hseg, hcs']
      ss := fun _ => .inr (by rw [hcalling.seg, hseg, hss'])
      data := fun s hs hs' => by
        rw [hcalling.seg, hseg]
        exact (Function.update_of_ne hs' ..).trans (Function.update_of_ne hs ..)
      tables := ⟨hcalling.tables.gdtr.trans hsame.gdtr, hcalling.tables.idtr.trans hsame.idtr,
        hcalling.tables.tssBase.trans hsame.tssBase, hcalling.tables.msr.trans hsame.msr⟩
      masked := by
        rw [hcalling.flag 9 (by decide), Core.flag, hflags, hK.sfmask]
        exact getLsbD_and_not (by decide) _ }, ?_⟩
  rw [hcalling.flag 14 (by decide), Core.flag, hflags, hK.sfmask, UInt64.toBitVec_and,
    BitVec.getLsbD_and]
  exact Bool.and_true _

end DavOS.Kernel
