import DavOS.Kernel.SystemCalls

/-!
# Starting and leaving a user program

Reference: `ExecuteUserTask` and `ReturnToKernel` of `boot/stubs_amd64.s`.

`ExecuteUserTask` keeps what a function must keep in static slots and goes to ring 3 with `iretq`.
`ReturnToKernel`, which handlers call and which does not return to them, reads the slots and returns
in place of `ExecuteUserTask`. The two are a pair around whatever the user does.
-/

namespace DavOS.Kernel

open Amd64
open LittleEndian (toNat_add_ofNat)

/-- `__kernel_saved_rsp` to `__kernel_saved_rflags` -/
def kernelSaved (K : Image) (k : ℕ) : UInt64 := K.saved + .ofNat (8 * k)

def saveKernel (K : Image) : List Op :=
  [.storeAt .rsp (kernelSaved K 0), .storeAt .rbp (kernelSaved K 1),
    .storeAt .rbx (kernelSaved K 2), .storeAt .r12 (kernelSaved K 3),
    .storeAt .r13 (kernelSaved K 4), .storeAt .r14 (kernelSaved K 5),
    .storeAt .r15 (kernelSaved K 6), .pushf, .popAt (kernelSaved K 7)]

def loadSegments (sel : UInt16) : List Op :=
  [.imm16 sel .rax, .toSeg .rax .ds, .toSeg .rax .es, .toSeg .rax .fs, .toSeg .rax .gs]

/-- The frame for `iretq`. -/
def pushUserFrame : List Op :=
  [.pushImm 0x23, .push .rsi, .pushf, .pop .rax, .alu .or 0x200 .rax, .push .rax, .pushImm 0x1B,
    .push .rdi]

/-- `ExecuteUserTask` up to `iretq`. -/
def executeUserTask (K : Image) : List Op :=
  saveKernel K ++ loadSegments 0x23 ++ pushUserFrame

def returnToKernel (K : Image) : List Op :=
  loadSegments 0x10 ++
    [.loadAt (kernelSaved K 0) .rsp, .loadAt (kernelSaved K 1) .rbp,
      .loadAt (kernelSaved K 2) .rbx, .loadAt (kernelSaved K 3) .r12,
      .loadAt (kernelSaved K 4) .r13, .loadAt (kernelSaved K 5) .r14,
      .loadAt (kernelSaved K 6) .r15, .pushAt (kernelSaved K 7), .popf, .ret]

variable {K : Image} {c : Core}

/-! ## The slots -/

/-- What `pushfq` pushes. -/
def flagsImage (c : Core) : UInt64 := c.rflags &&& ~~~0x30000

/-- The registers that a function keeps. -/
def keptWords (c : Core) : List UInt64 :=
  [c.regs .rsp, c.regs .rbp, c.regs .rbx, c.regs .r12, c.regs .r13, c.regs .r14, c.regs .r15]

/-- The memory when the slots are filled. The flags go through the stack. -/
def kernelSavedMemory (K : Image) (c : Core) : Memory :=
  storeAll (keptWords c) K.saved c.mem |> store (c.regs .rsp - 8) (flagsImage c)
    |> store (kernelSaved K 7) (flagsImage c)

/-- The first instructions save the kernel's registers and flags. -/
theorem run_saveKernel (K : Image) (c : Core) :
    c.run (saveKernel K) = { c with mem := kernelSavedMemory K c } := by
  have hregs : Function.update (Function.update c.regs .rsp (c.regs .rsp - 8)) .rsp
      (c.regs .rsp - 8 + 8) = c.regs := by
    rw [Function.update_idem, UInt64.sub_add_cancel, Function.update_eq_self]
  have hfirst : kernelSaved K 0 = K.saved := UInt64.add_zero _
  have hnext : ∀ k, kernelSaved K (k + 1) = kernelSaved K k + 8 := by
    intro k
    rw [kernelSaved, kernelSaved, Nat.mul_succ, UInt64.ofNat_add, UInt64.add_assoc]
    rfl
  simp only [saveKernel, Core.run, List.foldl, Core.exec, Machine.pushWord, Function.update_self,
    load_store_self, hregs, kernelSavedMemory, keptWords, storeAll, ← hfirst, ← hnext]
  rfl

/-- The slots of the saved registers follow each other. -/
theorem toNat_kernelSaved (K : Image) {k : ℕ} (hk : k < 8) :
    (kernelSaved K k).toNat = K.low .saved + 8 * k := by
  have hfits := K.fits .saved
  change K.saved.toNat + 11 * 8 ≤ _ at hfits
  rw [kernelSaved, toNat_add_ofNat (by omega)]
  rfl

/-- The stack of the kernel when it starts a user program: the return address is on top, and there
is room for the frame. -/
structure OnBootStack (K : Image) (c : Core) : Prop where
  low_le : K.low .bootStack + 64 ≤ (c.regs .rsp).toNat
  le_high : (c.regs .rsp).toNat + 8 ≤ K.high .bootStack

/-- There is room on the boot stack. -/
theorem OnBootStack.toNat_sub (h : OnBootStack K c) {k : ℕ} (hk : k ≤ 64) :
    (c.regs .rsp - .ofNat k).toNat = (c.regs .rsp).toNat - k := by
  have hlow := h.low_le
  exact toNat_sub_ofNat (by omega)

/-- The slots hold the registers and the flags of the kernel. -/
theorem stackHolds_kernelSavedMemory (h : OnBootStack K c) :
    StackHolds (kernelSavedMemory K c) K.saved (keptWords c ++ [flagsImage c]) := by
  have hlow := h.low_le
  have hhigh := h.le_high
  have hrsp : (c.regs .rsp - 8).toNat = (c.regs .rsp).toNat - 8 := h.toNat_sub (k := 8) (by omega)
  have hslot := toNat_kernelSaved K (k := 7) (by omega)
  have hsaved : K.high .saved = K.saved.toNat + 88 := rfl
  have hstart : K.low .saved = K.saved.toNat := rfl
  have hle := K.high_le .saved
  have hle' := K.high_le .bootStack
  have hapart := Image.high_le_or (K := K) (p := .saved) (q := .bootStack) (by simp)
  have hlength : (keptWords c).length = 7 := rfl
  have hkept : StackHolds (storeAll (keptWords c) K.saved c.mem) K.saved (keptWords c) :=
    stackHolds_storeAll (by omega)
  refine StackHolds.append.mpr ⟨?_, load_store_self _ _ _, trivial⟩
  exact (hkept.of_sameOutside (sameOutside_store (by omega)) (by omega) (by omega)).of_sameOutside
    (sameOutside_store (by omega)) (by omega) (by omega)

/-- Nothing else is written, but for the boot stack below the stack pointer. -/
theorem keeps_kernelSavedMemory (h : OnBootStack K c) {p : Part} {a : UInt64} (ha : K.In p a)
    (hp : p ≠ .saved) (hstack : p = .bootStack → (c.regs .rsp).toNat ≤ a.toNat) :
    kernelSavedMemory K c a = c.mem a := by
  have hlow := h.low_le
  have hhigh := h.le_high
  have hrsp : (c.regs .rsp - 8).toNat = (c.regs .rsp).toNat - 8 := h.toNat_sub (k := 8) (by omega)
  have hslot := toNat_kernelSaved K (k := 7) (by omega)
  have hsaved : K.high .saved = K.saved.toNat + 88 := rfl
  have hstart : K.low .saved = K.saved.toNat := rfl
  have hle := K.high_le .saved
  have hle' := K.high_le .bootStack
  have hlength : (keptWords c).length = 7 := rfl
  have hnot : ¬K.In .saved a := ha.not_in hp
  have hboot : ¬((c.regs .rsp - 8).toNat ≤ a.toNat ∧ a.toNat < (c.regs .rsp - 8).toNat + 8) := by
    intro hin
    by_cases hp' : p = .bootStack
    · have := hstack hp'
      omega
    · exact ha.not_in hp' ⟨by omega, by omega⟩
  rw [Image.In] at hnot
  have hslots : SameOutside _ _ c.mem (storeAll (keptWords c) K.saved c.mem) :=
    sameOutside_storeAll (by omega)
  refine Eq.trans ?_ (hslots a (by omega))
  exact (sameOutside_store (by omega) a (by omega)).trans (sameOutside_store (by omega) a hboot)

/-! ## The segments and the frame -/

/-- Loading the data segments changes `ax` and the four selectors. -/
theorem run_loadSegments (sel : UInt16) (c : Core) :
    c.run (loadSegments sel) =
      { c with
        regs := Function.update c.regs .rax (c.regs .rax &&& ~~~0xFFFF ||| sel.toUInt64)
        seg := fun s => if s = .cs ∨ s = .ss then c.seg s else sel } := by
  have hlow : (c.regs .rax &&& ~~~0xFFFF ||| sel.toUInt64).toUInt16 = sel := by
    have hmask : (~~~0xFFFF : UInt64).toUInt16 = 0 := rfl
    rw [UInt64.toUInt16_or, UInt64.toUInt16_and, hmask, UInt16.and_zero, UInt16.zero_or,
      UInt16.toUInt16_toUInt64]
  have hseg : Function.update (Function.update (Function.update (Function.update c.seg .ds sel) .es
      sel) .fs sel) .gs sel = fun s => if s = .cs ∨ s = .ss then c.seg s else sel := by
    funext s
    cases s <;> rfl
  simp only [loadSegments, Core.run, List.foldl, Core.exec, Function.update_self, hlow, hseg]

/-- What `pushUserFrame` leaves. -/
structure FramePushed (c c' : Core) : Prop where
  frame : StackHolds c'.mem (c'.regs .rsp)
    [c.regs .rdi, 0x1B, flagsImage c ||| 0x200, c.regs .rsi, 0x23]
  mem : SameOutside ((c.regs .rsp).toNat - 40) (c.regs .rsp).toNat c.mem c'.mem
  rax : c'.regs .rax = flagsImage c ||| 0x200
  regs : ∀ r, r ≠ .rsp → r ≠ .rax → c'.regs r = c.regs r
  seg : c'.seg = c.seg
  tables : SameTables c c'
  nested : c'.flag 14 = c.flag 14

/-- `pushf` and `pop` leave their word below the stack pointer. -/
theorem run_userFlags (c : Core) :
    let c' := c.run [.pushf, .pop .rax, .alu .or 0x200 .rax]
    c'.regs = Function.update c.regs .rax (flagsImage c ||| 0x200) ∧
      c'.mem = store (c.regs .rsp - 8) (flagsImage c) c.mem ∧ c'.seg = c.seg ∧ SameTables c c' ∧
      c'.flag 14 = c.flag 14 := by
  have hrun : c.run [.pushf, .pop .rax] =
      { c with
        mem := store (c.regs .rsp - 8) (flagsImage c) c.mem
        regs := Function.update c.regs .rax (flagsImage c) } := by
    simp only [Core.run, List.foldl, Core.exec, Machine.pushWord, Function.update_self,
      UInt64.sub_add_cancel, Function.update_idem, Function.update_eq_self]
    rw [show c.rflags &&& ~~~0x30000 = flagsImage c from rfl, load_store_self]
  have hsplit : c.run [.pushf, .pop .rax, .alu .or 0x200 .rax] =
      (c.run [.pushf, .pop .rax]).exec (.alu .or 0x200 .rax) := rfl
  have hflag := Core.flag_alu (k := 14) (by decide) .or 0x200 .rax (c.run [.pushf, .pop .rax])
  rw [hsplit]
  refine ⟨?_, ?_, ?_, ?_, ?_⟩
  · rw [hrun]
    simp only [Core.exec, Function.update_self, Function.update_idem, Alu.apply]
  · rw [hrun]
    rfl
  · rw [hrun]
    rfl
  · rw [hrun]
    exact ⟨rfl, rfl, rfl, rfl⟩
  · rw [hflag, hrun]
    rfl

/-- The frame of the user task is pushed. -/
theorem framePushed (h : 40 ≤ (c.regs .rsp).toNat) : FramePushed c (c.run pushUserFrame) := by
  have hlt := (c.regs .rsp).toNat_lt
  have hroom : 8 * [0x23, c.regs .rsi].length ≤ (c.regs .rsp).toNat := by
    change 16 ≤ _
    omega
  have hholds := Core.stackHolds_pushed hroom
  have hmem := Core.sameOutside_pushed hroom
  have hrsp := Core.toNat_rsp_pushed hroom
  have hregs := fun r (hr : r ≠ Reg.rsp) => Core.regs_pushed (c := c) [0x23, c.regs .rsi] hr
  have hflags : flagsImage (c.pushed [0x23, c.regs .rsi]) = flagsImage c := rfl
  have htables : SameTables c (c.pushed [0x23, c.regs .rsi]) := ⟨rfl, rfl, rfl, rfl⟩
  have hseg : (c.pushed [0x23, c.regs .rsi]).seg = c.seg := rfl
  have hnested : (c.pushed [0x23, c.regs .rsi]).flag 14 = c.flag 14 := rfl
  have hblocks : pushUserFrame = [.pushImm 0x23, .push .rsi] ++
      ([.pushf, .pop .rax, .alu .or 0x200 .rax] ++ [.push .rax, .pushImm 0x1B, .push .rdi]) := rfl
  have hfirst : c.run [.pushImm 0x23, .push .rsi] = c.pushed [0x23, c.regs .rsi] := rfl
  rw [hblocks, Core.run_append, Core.run_append, hfirst]
  rw [show [0x23, c.regs .rsi].length = 2 from rfl] at hmem hrsp
  clear hfirst
  generalize c.pushed [0x23, c.regs .rsi] = d at *
  have htop : (d.regs .rsp - 8).toNat = (d.regs .rsp).toNat - 8 :=
    toNat_sub_ofNat (k := 8) (by omega)
  obtain ⟨hregs', hmem', hseg', htables', hflag⟩ := run_userFlags d
  generalize d.run [.pushf, .pop .rax, .alu .or 0x200 .rax] = e at *
  have hbelow : SameOutside ((d.regs .rsp).toNat - 8) (d.regs .rsp).toNat d.mem e.mem := by
    rw [hmem']
    exact (sameOutside_store (by omega)).mono (by omega) (by omega)
  have hrax : e.regs .rax = flagsImage c ||| 0x200 := by
    rw [hregs', Function.update_self, hflags]
  have hrsp' : e.regs .rsp = d.regs .rsp := by
    rw [hregs', Function.update_of_ne (show Reg.rsp ≠ .rax by simp)]
  have hother : ∀ r, r ≠ .rsp → r ≠ .rax → e.regs r = c.regs r := by
    intro r hr hr'
    rw [hregs', Function.update_of_ne hr', hregs r hr]
  have hpushes : e.run [.push .rax, .pushImm 0x1B, .push .rdi] =
      e.pushed [e.regs .rax, 0x1B, e.regs .rdi] := rfl
  have hroom' : 8 * [e.regs .rax, 0x1B, e.regs .rdi].length ≤ (e.regs .rsp).toNat := by
    rw [hrsp']
    change 24 ≤ _
    omega
  have hframe : StackHolds e.mem (e.regs .rsp) [c.regs .rsi, 0x23] := by
    rw [hrsp']
    exact hholds.of_sameOutside hbelow (by change _ + 16 < _; omega) (.inr le_rfl)
  have hpushed := Machine.stackHolds_pushAll hroom' hframe (by rw [hrsp']; change _ + 16 < _; omega)
  have hmem'' := Core.sameOutside_pushed hroom'
  have hreg := fun r (hr : r ≠ Reg.rsp) =>
    Core.regs_pushed (c := e) [e.regs .rax, 0x1B, e.regs .rdi] hr
  rw [hrsp', show [e.regs .rax, 0x1B, e.regs .rdi].length = 3 from rfl] at hmem''
  have hflag' : (e.pushed [e.regs .rax, 0x1B, e.regs .rdi]).flag 14 = e.flag 14 := rfl
  rw [hpushes]
  exact
    { frame := by
        rw [← hother .rdi (by simp) (by simp), ← hrax]
        exact hpushed
      mem := ((hmem.mono (by omega) le_rfl).trans (hbelow.mono (by omega) (by omega))).trans
        (hmem''.mono (by omega) (by omega))
      rax := by rw [hreg .rax (by simp), hrax]
      regs := fun r hr hr' => by rw [hreg r hr, hother r hr hr']
      seg := hseg'.trans hseg
      tables := (htables.trans htables').trans ⟨rfl, rfl, rfl, rfl⟩
      nested := hflag'.trans (hflag.trans hnested) }

/-! ## Into ring 3 -/

/-- The kernel calls `ExecuteUserTask`. -/
structure Launching (K : Image) (c : Core) : Prop where
  configured : Configured K c
  stack : OnBootStack K c
  cs : c.seg .cs = kernelCodeSelector
  entry : Paging.Canonical (c.regs .rdi).toNat
  nested : c.flag 14 = false
  -- IOPL is 0
  iopl : ∀ k ∈ [12, 13], c.flag k = false

/-- The first context of the user program. Registers of the kernel are still there. -/
def userEntry (c : Core) : Context where
  regs := Function.update (Function.update c.regs .rax (flagsImage c ||| 0x200)) .rsp (c.regs .rsi)
  rip := c.regs .rdi
  rflags := flagsImage c ||| 0x200
  seg s := if s = .cs then userCodeSelector else userDataSelector

/-- The memory that a run of the kernel's own code between the call of `ExecuteUserTask` and its
return may not change. -/
def Untouched (K : Image) (c : Core) (p : Part) (a : UInt64) : Prop :=
  K.In p a ∧ p ≠ .saved ∧ (p = .bootStack → (c.regs .rsp).toNat ≤ a.toNat)

/-- What `ExecuteUserTask` leaves for `iretq`. -/
structure Prepared (K : Image) (c c' : Core) : Prop where
  frame : StackHolds c'.mem (c'.regs .rsp)
    [c.regs .rdi, 0x1B, flagsImage c ||| 0x200, c.regs .rsi, 0x23]
  slots : StackHolds c'.mem K.saved (keptWords c ++ [flagsImage c])
  mem : ∀ p a, Untouched K c p a → c'.mem a = c.mem a
  rax : c'.regs .rax = flagsImage c ||| 0x200
  regs : ∀ r, r ≠ .rsp → r ≠ .rax → c'.regs r = c.regs r
  seg : c'.seg = fun s => if s = .cs ∨ s = .ss then c.seg s else userDataSelector
  tables : SameTables c c'
  nested : c'.flag 14 = c.flag 14

/-- `ExecuteUserTask` leaves the frame of the program for `iretq`. -/
theorem prepared (h : OnBootStack K c) : Prepared K c (c.run (executeUserTask K)) := by
  have hlow := h.low_le
  have hhigh := h.le_high
  have hle := K.high_le .bootStack
  have hle' := K.high_le .saved
  have hsaved : K.high .saved = K.saved.toNat + 88 := rfl
  have hstart : K.low .saved = K.saved.toNat := rfl
  have hlength : (keptWords c ++ [flagsImage c]).length = 8 := rfl
  have hapart := Image.high_le_or (K := K) (p := .saved) (q := .bootStack) (by simp)
  have hslots := stackHolds_kernelSavedMemory h
  have hkeeps := fun p (a : UInt64) (ha : Untouched K c p a) =>
    keeps_kernelSavedMemory h ha.1 ha.2.1 ha.2.2
  rw [executeUserTask, Core.run_append, Core.run_append, run_saveKernel, run_loadSegments]
  generalize hd : ({ c with
    mem := kernelSavedMemory K c
    regs := Function.update c.regs .rax (c.regs .rax &&& ~~~0xFFFF ||| UInt16.toUInt64 0x23)
    seg := fun s => if s = .cs ∨ s = .ss then c.seg s else 0x23 } : Core) = d
  have hmem : d.mem = kernelSavedMemory K c := by rw [← hd]
  have hregs : ∀ r, r ≠ .rax → d.regs r = c.regs r := by
    intro r hr
    rw [← hd]
    exact Function.update_of_ne hr ..
  have hseg : d.seg = fun s => if s = .cs ∨ s = .ss then c.seg s else 0x23 := by rw [← hd]
  have hflags : flagsImage d = flagsImage c ∧ d.flag 14 = c.flag 14 := by
    rw [← hd]
    exact ⟨rfl, rfl⟩
  have htables : SameTables c d := by
    rw [← hd]
    exact ⟨rfl, rfl, rfl, rfl⟩
  clear hd
  have hrsp := hregs .rsp (by simp)
  have hpushed := framePushed (c := d) (by rw [hrsp]; omega)
  generalize d.run pushUserFrame = e at *
  have hframe := hpushed.frame
  have hout := hpushed.mem
  rw [hregs .rdi (by simp), hregs .rsi (by simp), hflags.1] at hframe
  rw [hrsp, hmem] at hout
  refine
    { frame := hframe
      slots := hslots.of_sameOutside hout (by omega) (by omega)
      mem := fun p a ha => (hout a ?_).trans (hkeeps p a ha)
      rax := by rw [hpushed.rax, hflags.1]
      regs := fun r hr hr' => by rw [hpushed.regs r hr hr', hregs r hr']
      seg := hpushed.seg.trans hseg
      tables := htables.trans hpushed.tables
      nested := hpushed.nested.trans hflags.2 }
  intro hin
  by_cases hp : p = .bootStack
  · have := ha.2.2 hp
    omega
  · exact ha.1.not_in hp ⟨by omega, by omega⟩

/-- `iretq` enters the user task at its entry point, in the user's segments, with interrupts on. -/
theorem Launching.start (h : Launching K c) :
    ∃ c₀, (c.run (executeUserTask K)).iretq = .ok c₀ ∧ context c₀ = userEntry c ∧
      Configured K c₀ ∧ SameTables c c₀ ∧
      StackHolds c₀.mem K.saved (keptWords c ++ [flagsImage c]) ∧
      ∀ p a, Untouched K c p a → c₀.mem a = c.mem a := by
  have hprepared := prepared h.stack
  generalize c.run (executeUserTask K) = e at *
  have hK : Configured K e :=
    h.configured.congr hprepared.tables (fun a ha => hprepared.mem .idt a ⟨ha, by simp, by simp⟩)
      (fun a ha => hprepared.mem .gdt a ⟨ha, by simp, by simp⟩)
      (fun a ha => hprepared.mem .cpuTSS a ⟨ha, by simp, by simp⟩)
  have hcpl : e.cpl = 0 := by
    rw [Core.cpl, hprepared.seg]
    exact congrArg (fun sel : UInt16 => sel.toNat % 4) h.cs
  have hiretq := @Core.iretq_eq e (c.regs .rdi) (flagsImage c ||| 0x200) (c.regs .rsi)
    userCodeSelector userDataSelector hprepared.frame (hprepared.nested.trans h.nested)
    (hK.codeLevel true) (by rw [hcpl]; exact Nat.zero_le _) hK.stackSelector_user h.entry
  have htables := hprepared.tables
  refine ⟨_, hiretq, Context.ext ?_ rfl rfl ?_, ?_, ?_, hprepared.slots, hprepared.mem⟩
  · funext r
    rw [context, userEntry]
    by_cases hr : r = .rsp
    · simp only [hr, Function.update_self]
    · by_cases hr' : r = .rax
      · simp only [hr', Function.update_of_ne (show Reg.rax ≠ .rsp by simp),
          Function.update_self, hprepared.rax]
      · simp only [Function.update_of_ne hr, Function.update_of_ne hr', hprepared.regs r hr hr']
  · have hvisible : e.visible 3 userDataSelector = userDataSelector :=
      hK.visible_user (by decide)
    have hlevel : e.cpl < userCodeSelector.toNat % 4 := by
      rw [hcpl]
      decide
    funext s
    cases s with
    | cs => rfl
    | ss => rfl
    | _ => exact (if_pos hlevel).trans ((congrArg (e.visible 3) (congrFun hprepared.seg _)).trans
        hvisible)
  · exact hK.congr ⟨rfl, rfl, rfl, rfl⟩ (fun _ _ => rfl) (fun _ _ => rfl) (fun _ _ => rfl)
  · exact ⟨htables.gdtr, htables.idtr, htables.tssBase, htables.msr⟩

/-! ## Back to the kernel -/

/-- `ReturnToKernel` restores the saved registers and flags and returns to the caller of
`ExecuteUserTask`. -/
theorem run_returnToKernel {c₂ : Core} (hstack : OnBootStack K c)
    (hslots : StackHolds c₂.mem K.saved (keptWords c ++ [flagsImage c])) :
    let c' := c₂.run (returnToKernel K)
    c'.rip = load (c.regs .rsp) c₂.mem ∧ c'.regs .rsp = c.regs .rsp + 8 ∧
      (∀ r ∈ [Reg.rbp, .rbx, .r12, .r13, .r14, .r15], c'.regs r = c.regs r) ∧
      c'.rflags = flagsImage c ∧
      c'.seg = (fun s => if s = .cs ∨ s = .ss then c₂.seg s else kernelDataSelector) ∧
      SameTables c₂ c' ∧
      SameOutside ((c.regs .rsp).toNat - 8) (c.regs .rsp).toNat c₂.mem c'.mem := by
  have hslot : ∀ (k : ℕ) (hk : k < 8),
      load (kernelSaved K k) c₂.mem = (keptWords c ++ [flagsImage c])[k] :=
    fun k hk => hslots.load_eq hk
  have h0 : load (kernelSaved K 0) c₂.mem = c.regs .rsp := hslot 0 (by decide)
  have h1 : load (kernelSaved K 1) c₂.mem = c.regs .rbp := hslot 1 (by decide)
  have h2 : load (kernelSaved K 2) c₂.mem = c.regs .rbx := hslot 2 (by decide)
  have h3 : load (kernelSaved K 3) c₂.mem = c.regs .r12 := hslot 3 (by decide)
  have h4 : load (kernelSaved K 4) c₂.mem = c.regs .r13 := hslot 4 (by decide)
  have h5 : load (kernelSaved K 5) c₂.mem = c.regs .r14 := hslot 5 (by decide)
  have h6 : load (kernelSaved K 6) c₂.mem = c.regs .r15 := hslot 6 (by decide)
  have h7 : load (kernelSaved K 7) c₂.mem = flagsImage c := hslot 7 (by decide)
  have hrsp : (c.regs .rsp - 8).toNat = (c.regs .rsp).toNat - 8 :=
    hstack.toNat_sub (k := 8) (by decide)
  have hlow := hstack.low_le
  have hhigh := hstack.le_high
  have hle := K.high_le .bootStack
  have hidem : flagsImage c &&& ~~~0x30000 = flagsImage c := by
    rw [flagsImage, UInt64.and_assoc, UInt64.and_self]
  rw [returnToKernel, Core.run_append, run_loadSegments]
  simp only [Core.run, List.foldl, Core.exec, Machine.pushWord, h0, h1, h2, h3, h4, h5, h6, h7,
    Function.update_apply, reduceCtorEq, if_false, if_true, load_store_self, hidem,
    UInt64.sub_add_cancel, List.forall_mem_cons]
  refine ⟨load_store_of_disjoint (by omega) (by omega) (by omega), trivial, ?_, trivial, trivial,
    ⟨rfl, rfl, rfl, rfl⟩, (sameOutside_store (by omega)).mono (by omega) (by omega)⟩
  simp only [List.not_mem_nil, false_implies, implies_true, and_self]

end DavOS.Kernel
