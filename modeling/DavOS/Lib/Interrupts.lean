import DavOS.Lib.ByteImage
import DavOS.Lib.Paging

/-!
# Interrupts and privilege levels of an amd64 machine

Long mode: how the processor enters the code behind a gate, how `iretq` and `syscall` change the
privilege level, and what becomes of an interrupt that finds no gate. Gates, segment descriptors and
the stack for a privilege level are read from memory, where the table registers point to. Addresses
are those of the supervisor, and the accesses to memory do not fault. The flag RF is saved as it is.
-/

namespace Amd64

open LittleEndian (toNat_add_ofNat)

inductive Seg
  | cs | ss | ds | es | fs | gs
deriving DecidableEq

structure TableRegister where
  base : UInt64
  limit : UInt16
deriving DecidableEq

/-- The operand of `lgdt` and `lidt`: two bytes of limit and eight of base. -/
def TableRegister.ofPacked (bs : List UInt8) : TableRegister where
  base := .ofNat (LittleEndian.value (bs.drop 2))
  limit := .ofNat (LittleEndian.value (bs.take 2))

structure Core extends Machine where
  rflags : UInt64
  seg : Seg → UInt16
  gdtr : TableRegister
  idtr : TableRegister
  /-- The address of the task state segment, in the hidden part of TR. -/
  tssBase : UInt64
  msr : UInt32 → UInt64

/-- The registers that say where the tables are. -/
structure SameTables (c c' : Core) : Prop where
  gdtr : c'.gdtr = c.gdtr
  idtr : c'.idtr = c.idtr
  tssBase : c'.tssBase = c.tssBase
  msr : c'.msr = c.msr

/-- Nothing has changed. -/
theorem SameTables.refl (c : Core) : SameTables c c := ⟨rfl, rfl, rfl, rfl⟩

/-- Steps that keep the tables compose. -/
theorem SameTables.trans {c c' c'' : Core} (h : SameTables c c') (h' : SameTables c' c'') :
    SameTables c c'' :=
  ⟨h'.gdtr.trans h.gdtr, h'.idtr.trans h.idtr, h'.tssBase.trans h.tssBase, h'.msr.trans h.msr⟩

/-- A field of a word: `n` bits from bit `low` on. -/
def bits (low n : ℕ) (w : UInt64) : ℕ := w.toNat / 2 ^ low % 2 ^ n

namespace Core

/-- The current privilege level. -/
def cpl (c : Core) : ℕ := (c.seg .cs).toNat % 4

def flag (k : ℕ) (c : Core) : Bool := c.rflags.toBitVec.getLsbD k

end Core

/-- A flag under a mask is cleared. -/
theorem getLsbD_and_not {mask : UInt64} {k : ℕ} (hk : mask.toBitVec.getLsbD k = true)
    (w : UInt64) : (w &&& ~~~mask).toBitVec.getLsbD k = false := by
  rw [UInt64.toBitVec_and, UInt64.toBitVec_not, BitVec.getLsbD_and, BitVec.getLsbD_not, hk,
    Bool.not_true, Bool.and_false, Bool.and_false]

/-! ## Descriptors -/

/-- The privilege level of a 64-bit code segment, present and not conforming. -/
def codeLevel? (d : UInt64) : Option ℕ :=
  if bits 42 3 d = 6 ∧ bits 47 1 d = 1 ∧ bits 53 2 d = 1 then some (bits 45 2 d) else none

/-- The privilege level of a writable data segment that is present. -/
def stackLevel? (d : UInt64) : Option ℕ :=
  if bits 41 1 d = 1 ∧ bits 43 2 d = 2 ∧ bits 47 1 d = 1 then some (bits 45 2 d) else none

structure Gate where
  offset : UInt64
  selector : UInt16
  ist : ℕ
  type : ℕ
  dpl : ℕ
  present : Bool
deriving DecidableEq

/-- The two words of a gate. -/
def gateOf (low high : UInt64) : Gate where
  offset := .ofNat (bits 0 16 low + 2 ^ 16 * bits 48 16 low + 2 ^ 32 * bits 0 32 high)
  selector := .ofNat (bits 16 16 low)
  ist := bits 32 3 low
  type := bits 40 4 low
  dpl := bits 45 2 low
  present := bits 47 1 low = 1

namespace Core

/-- The entry of the GDT that a selector names. -/
def descriptor? (c : Core) (sel : UInt16) : Option UInt64 :=
  let index := sel.toNat / 8
  -- a null selector, one for the LDT, or one behind the limit
  if index = 0 ∨ sel.toNat / 4 % 2 = 1 ∨ c.gdtr.limit.toNat < 8 * index + 7 then none
  else some (load (c.gdtr.base + .ofNat (8 * index)) c.mem)

def gate (c : Core) (v : UInt8) : Gate :=
  let a := c.idtr.base + .ofNat (16 * v.toNat)
  gateOf (load a c.mem) (load (a + 8) c.mem)

end Core

structure Fault where
  vector : UInt8
  code : Option UInt64
deriving DecidableEq

abbrev vectorDF : UInt8 := 8

abbrev vectorNP : UInt8 := 11

abbrev vectorGP : UInt8 := 13

abbrev vectorPF : UInt8 := 14

/-- The error code that names a selector. -/
def selectorCode (sel : UInt16) : UInt64 := .ofNat (sel.toNat / 4 * 4)

/-- `ltr`: the descriptor of a task state segment has two words, and becomes busy. -/
def Core.ltr (c : Core) (sel : UInt16) : Except Fault Core :=
  let a := c.gdtr.base + .ofNat (8 * (sel.toNat / 8))
  match c.descriptor? sel with
  | none => .error ⟨vectorGP, some (selectorCode sel)⟩
  | some low =>
    let high := load (a + 8) c.mem
    if c.gdtr.limit.toNat < 8 * (sel.toNat / 8) + 15 ∨ bits 40 5 low ≠ 9 then
      .error ⟨vectorGP, some (selectorCode sel)⟩
    else if bits 47 1 low ≠ 1 then .error ⟨vectorNP, some (selectorCode sel)⟩
    else
      .ok { c with
        tssBase := .ofNat (bits 16 24 low + 2 ^ 24 * bits 56 8 low + 2 ^ 32 * bits 0 32 high)
        mem := store a (low ||| 0x20000000000) c.mem }

/-- A selector inside the limit of the GDT finds its descriptor. -/
theorem Core.descriptor?_eq {c : Core} {sel : UInt16} {i : ℕ} (hi : sel.toNat / 8 = i)
    (hpos : i ≠ 0) (htable : sel.toNat / 4 % 2 = 0) (hlimit : 8 * i + 7 ≤ c.gdtr.limit.toNat) :
    c.descriptor? sel = some (load (c.gdtr.base + .ofNat (8 * i)) c.mem) := by
  rw [descriptor?, hi, if_neg]
  omega

/-- `ltr` loads the descriptor of an available TSS. -/
theorem Core.ltr_eq {c : Core} {sel : UInt16} {i : ℕ} {low high : UInt64} (hi : sel.toNat / 8 = i)
    (hpos : i ≠ 0) (htable : sel.toNat / 4 % 2 = 0) (hlimit : 8 * i + 15 ≤ c.gdtr.limit.toNat)
    (hlow : load (c.gdtr.base + .ofNat (8 * i)) c.mem = low)
    (hhigh : load (c.gdtr.base + .ofNat (8 * i) + 8) c.mem = high)
    (htype : bits 40 5 low = 9) (hpresent : bits 47 1 low = 1) :
    c.ltr sel = .ok
      { c with
        tssBase := .ofNat (bits 16 24 low + 2 ^ 24 * bits 56 8 low + 2 ^ 32 * bits 0 32 high)
        mem := store (c.gdtr.base + .ofNat (8 * i)) (low ||| 0x20000000000) c.mem } := by
  have hdescriptor := descriptor?_eq (c := c) hi hpos htable (by omega)
  rw [hlow] at hdescriptor
  simp only [ltr, hdescriptor, hi, hhigh]
  rw [if_neg (by omega), if_neg (not_not.mpr hpresent)]

/-! ## Entering a gate -/

inductive Source
  /-- The instruction `int`. -/
  | software
  /-- An exception, or an interrupt from a device. -/
  | hardware
deriving DecidableEq

/-- The error code that names a gate. -/
def gateCode (v : UInt8) (source : Source) : UInt64 :=
  .ofNat (8 * v.toNat + 2 + if source = .software then 0 else 1)

/-- Bits 8 (TF), 14 (NT), 16 (RF) and 17 (VM). -/
abbrev trapFlags : UInt64 := 0x34100

abbrev interruptFlag : UInt64 := 0x200

namespace Core

/-- The stack pointer for the code behind a gate. -/
def stackFor (c : Core) (g : Gate) (level : ℕ) : UInt64 :=
  if g.ist ≠ 0 then load (c.tssBase + .ofNat (28 + 8 * g.ist)) c.mem
  else if level < c.cpl then load (c.tssBase + .ofNat (4 + 8 * level)) c.mem
  else c.regs .rsp

/-- What the processor pushes, the last word on top. -/
def interruptFrame (c : Core) (code : Option UInt64) : List UInt64 :=
  [(c.seg .ss).toUInt64, c.regs .rsp, c.rflags, (c.seg .cs).toUInt64, c.rip] ++ code.toList

/-- The first instruction behind a gate is next. -/
def through (c : Core) (g : Gate) (level : ℕ) (code : Option UInt64) : Core :=
  let sp := c.stackFor g level &&& ~~~15
  let m := { c.toMachine with regs := Function.update c.regs .rsp sp }.pushAll
    (c.interruptFrame code)
  let seg := Function.update c.seg .cs (.ofNat (g.selector.toNat / 4 * 4 + level))
  { c with
    toMachine := { m with rip := g.offset }
    seg := if level < c.cpl then Function.update seg .ss (.ofNat level) else seg
    rflags := c.rflags &&& ~~~(if g.type = 0xE then trapFlags ||| interruptFlag else trapFlags) }

/-- The processor looks up a gate and enters it, or faults. -/
def enter (c : Core) (v : UInt8) (source : Source) (code : Option UInt64) : Except Fault Core :=
  let g := c.gate v
  if c.idtr.limit.toNat < 16 * v.toNat + 15 then .error ⟨vectorGP, some (gateCode v source)⟩
  else if g.type ≠ 0xE ∧ g.type ≠ 0xF then .error ⟨vectorGP, some (gateCode v source)⟩
  else if source = .software ∧ g.dpl < c.cpl then .error ⟨vectorGP, some (gateCode v source)⟩
  else if ¬ g.present then .error ⟨vectorNP, some (gateCode v source)⟩
  else
    match (c.descriptor? g.selector).bind codeLevel? with
    | none => .error ⟨vectorGP, some (selectorCode g.selector)⟩
    | some level =>
      if c.cpl < level then .error ⟨vectorGP, some (selectorCode g.selector)⟩
      else .ok (c.through g level code)

section

variable {c : Core} {v : UInt8} {source : Source} {code : Option UInt64} {g : Gate} {level : ℕ}

/-- A gate of the type for interrupts, that leads to code of an equal or inner level. -/
theorem enter_eq_through (hg : c.gate v = g) (hlimit : 16 * v.toNat + 15 ≤ c.idtr.limit.toNat)
    (htype : g.type = 0xE) (hpresent : g.present = true)
    (hdpl : source = .software → c.cpl ≤ g.dpl)
    (hlevel : (c.descriptor? g.selector).bind codeLevel? = some level) (hle : level ≤ c.cpl) :
    c.enter v source code = .ok (c.through g level code) := by
  simp only [enter, hg, hlevel]
  rw [if_neg (by omega), if_neg (by omega), if_neg, if_neg (not_not.mpr hpresent),
    if_neg (by omega)]
  rintro ⟨hsource, hlt⟩
  have := hdpl hsource
  omega

/-- An entry of the IDT that is not a gate, or a gate that is not open to `int`. -/
theorem enter_eq_error (hg : c.gate v = g)
    (h : g.type = 0 ∨ source = .software ∧ g.dpl < c.cpl) :
    c.enter v source code = .error ⟨vectorGP, some (gateCode v source)⟩ := by
  simp only [enter, hg]
  split
  · rfl
  split
  · rfl
  case isFalse hgate =>
    rw [if_pos (h.resolve_left (by omega))]

/-- The frame that the processor pushes, from the aligned top of the stack on. -/
theorem toMachine_through {top : UInt64} (htop : c.stackFor g level &&& ~~~15 = top) :
    (c.through g level code).toMachine =
      { ({ c.toMachine with regs := Function.update c.regs .rsp top } : Machine).pushAll
          (c.interruptFrame code) with rip := g.offset } := by
  rw [← htop]
  rfl

/-- The frame of an interrupt: where the stack pointer goes, and what stands there. -/
theorem through_frame {top : UInt64} (htop : c.stackFor g level &&& ~~~15 = top)
    (hroom : 48 ≤ top.toNat) (code : Option UInt64) :
    ((c.through g level code).regs .rsp).toNat =
        top.toNat - 8 * (c.interruptFrame code).length ∧
      StackHolds (c.through g level code).mem ((c.through g level code).regs .rsp)
        (c.interruptFrame code).reverse ∧
      SameOutside (top.toNat - 8 * (c.interruptFrame code).length) top.toNat c.mem
        (c.through g level code).mem ∧
      ∀ r ≠ .rsp, (c.through g level code).regs r = c.regs r := by
  have hlength : (c.interruptFrame code).length ≤ 6 := by
    cases code <;> simp [interruptFrame]
  rw [toMachine_through htop]
  generalize hm : ({ c.toMachine with regs := Function.update c.regs .rsp top } : Machine) = m
  have hrsp : m.regs .rsp = top := by
    rw [← hm]
    simp only [Function.update_self]
  have hmem : m.mem = c.mem := by rw [← hm]
  have hpushed : 8 * (c.interruptFrame code).length ≤ (m.regs .rsp).toNat := by
    rw [hrsp]
    omega
  have hholds : StackHolds _ _ (_ ++ []) := Machine.stackHolds_pushAll hpushed trivial
    (by rw [List.length_nil, Nat.mul_zero, Nat.add_zero]; exact UInt64.toNat_lt _)
  have hsame := Machine.sameOutside_pushAll hpushed
  rw [List.append_nil] at hholds
  rw [hrsp, hmem] at hsame
  refine ⟨?_, hholds, hsame, ?_⟩
  · exact (Machine.toNat_rsp_pushAll hpushed).trans (by rw [hrsp])
  · intro r hr
    simp only [Machine.regs_pushAll, Function.update_of_ne hr, ← hm]

end

end Core

/-- The exceptions after which a fault on the way to the handler is a double fault: `#DE`, `#TS`,
`#NP`, `#SS`, `#GP` and `#PF`. -/
def doubles (v : UInt8) (source : Source) : Bool :=
  source = .hardware ∧ v ∈ [0, 10, 11, 12, 13, 14]

inductive Outcome
  | entered (c : Core)
  /-- A triple fault. -/
  | shutdown

namespace Core

def enterDoubleFault (c : Core) : Outcome :=
  match c.enter vectorDF .hardware (some 0) with
  | .ok c' => .entered c'
  | .error _ => .shutdown

/-- An interrupt or exception, with the faults on the way to its handler. -/
def raise (c : Core) (v : UInt8) (source : Source) (code : Option UInt64) : Outcome :=
  match c.enter v source code with
  | .ok c' => .entered c'
  | .error f =>
    if doubles v source then c.enterDoubleFault
    else
      match c.enter f.vector .hardware f.code with
      | .ok c' => .entered c'
      | .error _ => c.enterDoubleFault

/-! ## `iretq` -/

/-- A selector that SS may hold at a privilege level. -/
def stackSelector (c : Core) (sel : UInt16) (level : ℕ) : Bool :=
  if sel.toNat / 4 = 0 then level ≠ 3
  else (c.descriptor? sel).bind stackLevel? = some level ∧ sel.toNat % 4 = level

/-- A data segment that the new privilege level may not see is taken away. -/
def visible (c : Core) (level : ℕ) (sel : UInt16) : UInt16 :=
  match c.descriptor? sel with
  | none => sel
  | some d => if bits 45 2 d < level then 0 else sel

def iretq (c : Core) : Except Fault Core :=
  let word (k : ℕ) := load (c.regs .rsp + .ofNat (8 * k)) c.mem
  let cs := (word 1).toUInt16
  let ss := (word 4).toUInt16
  let level := cs.toNat % 4
  -- a nested task, which long mode does not have
  if c.flag 14 then .error ⟨vectorGP, some 0⟩
  else if (c.descriptor? cs).bind codeLevel? ≠ some level ∨ level < c.cpl then
    .error ⟨vectorGP, some (selectorCode cs)⟩
  else if ¬ c.stackSelector ss level then .error ⟨vectorGP, some (selectorCode ss)⟩
  else if ¬ Paging.Canonical (word 0).toNat then .error ⟨vectorGP, some 0⟩
  else
    .ok { c with
      regs := Function.update c.regs .rsp (word 3)
      rip := word 0
      rflags := word 2
      seg := fun s =>
        match s with
        | .cs => cs
        | .ss => ss
        | s => if c.cpl < level then c.visible level (c.seg s) else c.seg s }

/-- `iretq` pops five words. -/
theorem iretq_eq {c : Core} {rip rflags rsp : UInt64} {cs ss : UInt16}
    (hstack : StackHolds c.mem (c.regs .rsp) [rip, cs.toUInt64, rflags, rsp, ss.toUInt64])
    (hnested : c.flag 14 = false)
    (hcs : (c.descriptor? cs).bind codeLevel? = some (cs.toNat % 4)) (hle : c.cpl ≤ cs.toNat % 4)
    (hss : c.stackSelector ss (cs.toNat % 4) = true) (hrip : Paging.Canonical rip.toNat) :
    c.iretq = .ok { c with
      regs := Function.update c.regs .rsp rsp
      rip
      rflags
      seg := fun s =>
        match s with
        | .cs => cs
        | .ss => ss
        | s => if c.cpl < cs.toNat % 4 then c.visible (cs.toNat % 4) (c.seg s) else c.seg s } := by
  have hword := fun (k : ℕ) (hk : k < 5) => hstack.load_eq (k := k) hk
  have h0 := hword 0 (by decide)
  have h1 := hword 1 (by decide)
  have h2 := hword 2 (by decide)
  have h3 := hword 3 (by decide)
  have h4 := hword 4 (by decide)
  simp only [List.getElem_cons_zero, List.getElem_cons_succ] at h0 h1 h2 h3 h4
  simp only [iretq, h0, h1, h2, h3, h4, UInt16.toUInt16_toUInt64, hnested, hcs, hss]
  rw [if_neg (by decide), if_neg (not_or.mpr ⟨not_not.mpr rfl, Nat.not_lt.mpr hle⟩),
    if_neg (by decide), if_neg (not_not.mpr hrip)]

/-! ## `syscall` -/

end Core

abbrev msrEFER : UInt32 := 0xC0000080

abbrev msrSTAR : UInt32 := 0xC0000081

abbrev msrLSTAR : UInt32 := 0xC0000082

abbrev msrSFMASK : UInt32 := 0xC0000084

namespace Core

/-- The state after `syscall`, which ends at `next`. -/
def afterSyscall (c : Core) (next : UInt64) : Core :=
  let sel := bits 32 16 (c.msr msrSTAR)
  { c with
    regs := Function.update (Function.update c.regs .rcx next) .r11 c.rflags
    rip := c.msr msrLSTAR
    rflags := c.rflags &&& ~~~c.msr msrSFMASK
    seg := Function.update (Function.update c.seg .cs (.ofNat (sel / 4 * 4))) .ss
      (.ofNat (sel + 8)) }

/-- `syscall`. With TF set, the trap comes after the instruction, at the new privilege level. -/
def syscall (c : Core) (next : UInt64) : Outcome :=
  if bits 0 1 (c.msr msrEFER) = 0 then c.raise 6 .hardware none
  else
    let c' := c.afterSyscall next
    if c'.flag 8 then c'.raise 1 .hardware none else .entered c'

end Core

end Amd64
