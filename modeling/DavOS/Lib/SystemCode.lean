import DavOS.Lib.Interrupts

/-!
# Straight-line system code

The instructions that entry code needs besides `syscall` and `iretq`, and what a block of pushes and
a block of pops do. Addresses of variables are constants, as relative addressing gives them. The
code here runs in ring 0 and loads selectors of segments that exist.
-/

namespace Amd64

inductive Alu
  | add | sub | and | or
deriving DecidableEq

namespace Alu

def apply : Alu → UInt64 → UInt64 → UInt64
  | .add, a, b => a + b
  | .sub, a, b => a - b
  | .and, a, b => a &&& b
  | .or, a, b => a ||| b

/-- CF, PF, AF, ZF, SF and OF. -/
abbrev statusFlags : UInt64 := 0x8D5

/-- The bits on which carry, adjust and overflow depend. -/
def carries : Alu → UInt64 → UInt64 → Bool × UInt64 × UInt64
  | .add, a, b => (a + b < a, a ^^^ b ^^^ (a + b), (a ^^^ (a + b)) &&& (b ^^^ (a + b)))
  | .sub, a, b => (a < b, a ^^^ b ^^^ (a - b), (a ^^^ b) &&& (a ^^^ (a - b)))
  | .and, _, _ => (false, 0, 0)
  | .or, _, _ => (false, 0, 0)

def status (op : Alu) (a b : UInt64) : UInt64 :=
  let w := op.apply a b
  let (carry, adjust, overflow) := op.carries a b
  let ones := ((List.range 8).filter fun k => bits k 1 w = 1).length
  (if carry then 0x1 else 0) ||| (if ones % 2 = 0 then 0x4 else 0) ||| (adjust &&& 0x10) |||
    (if w = 0 then 0x40 else 0) ||| (if bits 63 1 w = 1 then 0x80 else 0) |||
    (if bits 63 1 overflow = 1 then 0x800 else 0)

/-- Bits within a mask. -/
theorem getLsbD_of_and_eq {x mask : UInt64} {k : ℕ} (h : x &&& mask = x)
    (hk : mask.toBitVec.getLsbD k = false) : x.toBitVec.getLsbD k = false := by
  rw [← h, UInt64.toBitVec_and, BitVec.getLsbD_and, hk, Bool.and_false]

/-- Arithmetic sets no flag but the status flags. -/
theorem getLsbD_status {k : ℕ} (hk : statusFlags.toBitVec.getLsbD k = false) (op : Alu)
    (a b : UInt64) : (op.status a b).toBitVec.getLsbD k = false := by
  have hadjust : ∀ w : UInt64, (w &&& 0x10).toBitVec.getLsbD k = false := by
    intro w
    refine getLsbD_of_and_eq ?_ hk
    rw [UInt64.and_assoc]
    rfl
  have hif : ∀ (p : Prop) [Decidable p] (x : UInt64), x &&& statusFlags = x →
      (if p then x else 0).toBitVec.getLsbD k = false := by
    intro p _ x hx
    split
    · exact getLsbD_of_and_eq hx hk
    · exact BitVec.getLsbD_zero
  simp only [status, UInt64.toBitVec_or, BitVec.getLsbD_or, hadjust, Bool.or_eq_false_iff, and_true]
  exact ⟨⟨⟨⟨hif _ _ rfl, hif _ _ rfl⟩, hif _ _ rfl⟩, hif _ _ rfl⟩, hif _ _ rfl⟩

end Alu

inductive Op
  | push (src : Reg)
  | pop (dst : Reg)
  | mov (src dst : Reg)
  | pushImm (w : UInt64)
  | pushAt (a : UInt64)
  | popAt (a : UInt64)
  | storeAt (src : Reg) (a : UInt64)
  | loadAt (a : UInt64) (dst : Reg)
  /-- `leaq a(%rip), %dst` -/
  | lea (a : UInt64) (dst : Reg)
  /-- A move of a constant to the low 16 bits of a register. -/
  | imm16 (w : UInt16) (dst : Reg)
  /-- A move of the low 16 bits of a register to a segment register. -/
  | toSeg (src : Reg) (s : Seg)
  | alu (op : Alu) (w : UInt64) (dst : Reg)
  | pushf
  | popf
  | ret

namespace Core

def exec (c : Core) : Op → Core
  | .push src => { c with toMachine := c.toMachine.pushWord (c.regs src) }
  | .pop dst =>
    { c with
      regs := Function.update (Function.update c.regs .rsp (c.regs .rsp + 8)) dst
        (load (c.regs .rsp) c.mem) }
  | .mov src dst => { c with regs := Function.update c.regs dst (c.regs src) }
  | .pushImm w => { c with toMachine := c.toMachine.pushWord w }
  | .pushAt a => { c with toMachine := c.toMachine.pushWord (load a c.mem) }
  | .popAt a =>
    { c with
      regs := Function.update c.regs .rsp (c.regs .rsp + 8)
      mem := store a (load (c.regs .rsp) c.mem) c.mem }
  | .storeAt src a => { c with mem := store a (c.regs src) c.mem }
  | .loadAt a dst => { c with regs := Function.update c.regs dst (load a c.mem) }
  | .lea a dst => { c with regs := Function.update c.regs dst a }
  | .imm16 w dst =>
    { c with regs := Function.update c.regs dst (c.regs dst &&& ~~~0xFFFF ||| w.toUInt64) }
  | .toSeg src s => { c with seg := Function.update c.seg s (c.regs src).toUInt16 }
  | .alu op w dst =>
    { c with
      regs := Function.update c.regs dst (op.apply (c.regs dst) w)
      rflags := c.rflags &&& ~~~Alu.statusFlags ||| op.status (c.regs dst) w }
  -- RF and VM are neither saved nor restored
  | .pushf => { c with toMachine := c.toMachine.pushWord (c.rflags &&& ~~~0x30000) }
  | .popf =>
    { c with
      regs := Function.update c.regs .rsp (c.regs .rsp + 8)
      rflags := load (c.regs .rsp) c.mem &&& ~~~0x30000 }
  | .ret =>
    { c with
      regs := Function.update c.regs .rsp (c.regs .rsp + 8)
      rip := load (c.regs .rsp) c.mem }

def run (code : List Op) (c : Core) : Core := code.foldl exec c

variable {c : Core}

@[simp] theorem run_nil (c : Core) : c.run [] = c := rfl

theorem run_cons (op : Op) (code : List Op) (c : Core) :
    c.run (op :: code) = (c.exec op).run code := rfl

@[simp] theorem run_singleton (op : Op) (c : Core) : c.run [op] = c.exec op := rfl

/-- Code runs piece by piece. -/
theorem run_append (code code' : List Op) (c : Core) :
    c.run (code ++ code') = (c.run code).run code' := by
  rw [run, List.foldl_append]
  rfl

/-- Arithmetic leaves the other flags alone. -/
theorem flag_alu {k : ℕ} (hk : Alu.statusFlags.toBitVec.getLsbD k = false) (op : Alu) (w : UInt64)
    (dst : Reg) (c : Core) : (c.exec (.alu op w dst)).flag k = c.flag k := by
  have hstatus := Alu.getLsbD_status hk op (c.regs dst) w
  by_cases hlt : k < 64
  · simp only [flag, exec, UInt64.toBitVec_or, UInt64.toBitVec_and, UInt64.toBitVec_not,
      BitVec.getLsbD_or, BitVec.getLsbD_and, BitVec.getLsbD_not, hk, hstatus, hlt, decide_true,
      Bool.not_false, Bool.and_true, Bool.or_false]
  · rw [flag, flag, BitVec.getLsbD_of_ge _ _ (by omega), BitVec.getLsbD_of_ge _ _ (by omega)]

/-! ## Blocks of pushes and pops -/

/-- Pushing registers other than the stack pointer is pushing their values. -/
theorem run_pushes {rs : List Reg} (h : Reg.rsp ∉ rs) (c : Core) :
    c.run (rs.map .push) = { c with toMachine := c.toMachine.pushAll (rs.map c.regs) } := by
  induction rs generalizing c with
  | nil => rfl
  | cons r rs ih =>
    have hregs : rs.map (c.exec (.push r)).regs = rs.map c.regs := by
      refine List.map_congr_left fun r' hr' => Function.update_of_ne ?_ ..
      rintro rfl
      exact h (List.mem_cons_of_mem _ hr')
    rw [List.map_cons, run_cons, ih (List.not_mem_of_not_mem_cons h), hregs]
    rfl

/-- The state with words pushed. -/
def pushed (c : Core) (ws : List UInt64) : Core := { c with toMachine := c.toMachine.pushAll ws }

/-- One more word is pushed. -/
theorem pushed_concat (c : Core) (ws : List UInt64) (w : UInt64) :
    (c.pushed ws).exec (.pushImm w) = c.pushed (ws ++ [w]) := by
  rw [pushed, pushed, Machine.pushAll_concat]
  rfl

/-- Pushes change no register but the stack pointer. -/
theorem regs_pushed (ws : List UInt64) {r : Reg} (hr : r ≠ .rsp) :
    (c.pushed ws).regs r = c.regs r := by
  rw [pushed, Machine.regs_pushAll, Function.update_of_ne hr]

section

variable {ws : List UInt64} (h : 8 * ws.length ≤ (c.regs .rsp).toNat)

include h

/-- Where the stack pointer is after the pushes. -/
theorem toNat_rsp_pushed :
    ((c.pushed ws).regs .rsp).toNat = (c.regs .rsp).toNat - 8 * ws.length :=
  Machine.toNat_rsp_pushAll h

/-- The pushes change the words below the old stack pointer only. -/
theorem sameOutside_pushed :
    SameOutside ((c.regs .rsp).toNat - 8 * ws.length) (c.regs .rsp).toNat c.mem (c.pushed ws).mem :=
  Machine.sameOutside_pushAll h

/-- The stack holds the words, the last one on top. -/
theorem stackHolds_pushed : StackHolds (c.pushed ws).mem ((c.pushed ws).regs .rsp) ws.reverse := by
  have hholds : StackHolds (c.pushed ws).mem ((c.pushed ws).regs .rsp) (ws.reverse ++ []) :=
    Machine.stackHolds_pushAll h trivial (UInt64.toNat_lt _)
  rwa [List.append_nil] at hholds

end

/-- Pushing a word of memory is pushing its value. -/
theorem exec_pushAt {a w : UInt64} (h : load a c.mem = w) :
    c.exec (.pushAt a) = c.exec (.pushImm w) := by
  rw [← h]
  rfl

/-- Pops load the registers from the words on the stack. -/
theorem run_pops {rs : List Reg} {f : Reg → UInt64} {ws : List UInt64} (hrs : rs.Nodup)
    (hrsp : Reg.rsp ∉ rs) (h : StackHolds c.mem (c.regs .rsp) (rs.map f ++ ws)) :
    c.run (rs.map .pop) =
      { c with
        regs := fun r => if r ∈ rs then f r else
          if r = .rsp then c.regs .rsp + .ofNat (8 * rs.length) else c.regs r } := by
  induction rs generalizing c with
  | nil =>
    have hregs : c.regs = fun r => if r = .rsp then c.regs .rsp + .ofNat (8 * 0) else c.regs r := by
      funext r
      split
      case isTrue hr => rw [hr]; exact (UInt64.add_zero _).symm
      case isFalse => rfl
    simp only [List.map_nil, run_nil, List.not_mem_nil, if_false, List.length_nil, ← hregs]
  | cons r rs ih =>
    have hne : r ≠ .rsp := fun heq => hrsp (heq ▸ List.mem_cons_self)
    have hword : load (c.regs .rsp) c.mem = f r := h.1
    have hrsp' : (c.exec (.pop r)).regs .rsp = c.regs .rsp + 8 := by
      simp only [exec, Function.update_of_ne hne.symm, Function.update_self]
    have hrest : StackHolds (c.exec (.pop r)).mem ((c.exec (.pop r)).regs .rsp)
        (rs.map f ++ ws) := by
      rw [hrsp']
      exact h.2
    have hshift : c.regs .rsp + 8 + .ofNat (8 * rs.length) =
        c.regs .rsp + .ofNat (8 * (r :: rs).length) := by
      rw [List.length_cons, Nat.mul_succ, Nat.add_comm, UInt64.ofNat_add, UInt64.add_assoc]
      rfl
    rw [List.map_cons, run_cons, ih (List.nodup_cons.mp hrs).2 (List.not_mem_of_not_mem_cons hrsp)
      hrest, hrsp', hshift]
    simp only [exec, hword]
    congr 2
    funext r'
    by_cases hr : r' = r
    · subst hr
      rw [if_neg (List.nodup_cons.mp hrs).1, if_neg hne, if_pos List.mem_cons_self,
        Function.update_self]
    · simp only [List.mem_cons, hr, false_or, Function.update_of_ne hr]
      split
      · rfl
      · split
        · rfl
        case isFalse hr' => rw [Function.update_of_ne hr']

end Core

end Amd64
