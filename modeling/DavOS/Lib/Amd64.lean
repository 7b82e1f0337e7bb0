import DavOS.Lib.LittleEndian
import Mathlib.Data.Nat.Digits.Defs
import Mathlib.Logic.Function.Basic

/-!
# A few instructions of an amd64 machine

The general registers, memory as bytes, and the instructions that move words between the registers
and a stack. Words are stored with the low byte first. The instruction pointer is set by returns
only: code here is a list of instructions that ends with one.
-/

namespace Amd64

open LittleEndian (toNat_add_ofNat)

inductive Reg
  | rax | rbx | rcx | rdx | rsi | rdi | rbp | rsp
  | r8 | r9 | r10 | r11 | r12 | r13 | r14 | r15
deriving DecidableEq

abbrev Memory := UInt64 → UInt8

/-! ## Words in memory -/

/-- Byte `k` of a word. -/
def byteOf (w : UInt64) (k : ℕ) : UInt8 := .ofNat (w.toNat / 256 ^ k)

def store (a w : UInt64) (mem : Memory) : Memory := fun b =>
  if (b - a).toNat < 8 then byteOf w (b - a).toNat else mem b

def load (a : UInt64) (mem : Memory) : UInt64 :=
  .ofNat (Nat.ofDigits 256 ((List.range 8).map fun k => (mem (a + .ofNat k)).toNat))

/-- The first `n` bytes of a number give it back, modulo `256 ^ n`. -/
theorem ofDigits_bytes (x n : ℕ) :
    Nat.ofDigits 256 ((List.range n).map fun k => x / 256 ^ k % 256) = x % 256 ^ n := by
  induction n generalizing x with
  | zero => simp [Nat.mod_one]
  | succ n ih =>
    have hshift : ((List.range n).map fun k => x / 256 ^ (k + 1) % 256) =
        (List.range n).map fun k => x / 256 / 256 ^ k % 256 := by
      refine List.map_congr_left fun k _ => ?_
      rw [pow_succ', Nat.div_div_eq_div_mul]
    rw [List.range_succ_eq_map, List.map_cons, List.map_map, Nat.ofDigits_cons, pow_zero,
      Nat.div_one]
    change x % 256 + 256 * Nat.ofDigits 256 ((List.range n).map fun k => x / 256 ^ (k + 1) % 256) =
      x % 256 ^ (n + 1)
    rw [hshift, ih, pow_succ', Nat.mod_mul]

@[simp] theorem load_store_self (a w : UInt64) (mem : Memory) : load a (store a w mem) = w := by
  have hbytes : ((List.range 8).map fun k => (store a w mem (a + .ofNat k)).toNat) =
      (List.range 8).map fun k => w.toNat / 256 ^ k % 256 := by
    refine List.map_congr_left fun k hk => ?_
    have hlt := List.mem_range.mp hk
    have hdist : (a + .ofNat k - a).toNat = k := by
      rw [UInt64.add_comm, UInt64.add_sub_cancel, UInt64.toNat_ofNat_of_lt' (hlt.trans (by decide))]
    rw [store, hdist, if_pos hlt, byteOf, UInt8.toNat_ofNat']
  rw [load, hbytes, ofDigits_bytes]
  have := w.toNat_lt
  rw [Nat.mod_eq_of_lt (by omega), UInt64.ofNat_toNat]

/-- A word is in its eight bytes. -/
theorem load_congr {a : UInt64} {mem mem' : Memory}
    (h : ∀ k < 8, mem' (a + .ofNat k) = mem (a + .ofNat k)) : load a mem' = load a mem := by
  have hbytes : ((List.range 8).map fun k => (mem' (a + .ofNat k)).toNat) =
      (List.range 8).map fun k => (mem (a + .ofNat k)).toNat :=
    List.map_congr_left fun k hk => by rw [h k (List.mem_range.mp hk)]
  rw [load, hbytes, load]

/-- A difference does not wrap if it is not negative. -/
theorem toNat_sub_ofNat {a : UInt64} {k : ℕ} (h : k ≤ a.toNat) :
    (a - .ofNat k).toNat = a.toNat - k := by
  have ha := a.toNat_lt
  rw [UInt64.toNat_sub, UInt64.toNat_ofNat_of_lt' (h.trans_lt ha)]
  omega

/-- A store leaves the other bytes. -/
theorem store_of_disjoint {a w b : UInt64} {mem : Memory} (ha : a.toNat + 8 ≤ 2 ^ 64)
    (h : b.toNat < a.toNat ∨ a.toNat + 8 ≤ b.toNat) : store a w mem b = mem b := by
  have hb := b.toNat_lt
  rw [store, if_neg]
  rw [UInt64.toNat_sub]
  omega

/-- A store leaves the words that it does not overlap with. -/
theorem load_store_of_disjoint {a b w : UInt64} {mem : Memory} (ha : a.toNat + 8 ≤ 2 ^ 64)
    (hb : b.toNat + 8 ≤ 2 ^ 64) (h : b.toNat + 8 ≤ a.toNat ∨ a.toNat + 8 ≤ b.toNat) :
    load b (store a w mem) = load b mem := by
  refine load_congr fun k hk => store_of_disjoint ha ?_
  rw [toNat_add_ofNat (by omega)]
  omega

/-! ## Instructions -/

structure Machine where
  regs : Reg → UInt64
  rip : UInt64
  mem : Memory

inductive Instr
  | push (src : Reg)
  | pop (dst : Reg)
  /-- `movq %src, (%base)` -/
  | save (src base : Reg)
  /-- `movq %src, %dst` -/
  | mov (src dst : Reg)
  | ret
deriving DecidableEq

namespace Machine

def pushWord (w : UInt64) (m : Machine) : Machine :=
  let sp := m.regs .rsp - 8
  { m with regs := Function.update m.regs .rsp sp, mem := store sp w m.mem }

def popWord (m : Machine) : UInt64 × Machine :=
  (load (m.regs .rsp) m.mem, { m with regs := Function.update m.regs .rsp (m.regs .rsp + 8) })

def exec (m : Machine) : Instr → Machine
  | .push src => m.pushWord (m.regs src)
  | .pop dst =>
    let (w, m) := m.popWord
    { m with regs := Function.update m.regs dst w }
  | .save src base => { m with mem := store (m.regs base) (m.regs src) m.mem }
  | .mov src dst => { m with regs := Function.update m.regs dst (m.regs src) }
  | .ret =>
    let (w, m) := m.popWord
    { m with rip := w }

def run (code : List Instr) (m : Machine) : Machine := code.foldl exec m

/-- `call`: the code that is called starts with the return address on the stack. -/
def call (returnAddress : UInt64) (code : List Instr) (m : Machine) : Machine :=
  (m.pushWord returnAddress).run code

end Machine

/-- The registers that an instruction may change. -/
def Instr.writes : Instr → List Reg
  | .push _ => [.rsp]
  | .pop dst => [.rsp, dst]
  | .save _ _ => []
  | .mov _ dst => [dst]
  | .ret => [.rsp]

namespace Machine

variable {m : Machine} {r : Reg}

/-- An instruction leaves the registers that it does not write. -/
theorem regs_exec {i : Instr} (h : r ∉ i.writes) : (m.exec i).regs r = m.regs r := by
  cases i with
  | push src => exact Function.update_of_ne (List.ne_of_not_mem_cons h) ..
  | pop dst =>
    have hdst := List.ne_of_not_mem_cons (List.not_mem_of_not_mem_cons h)
    exact (Function.update_of_ne hdst ..).trans
      (Function.update_of_ne (List.ne_of_not_mem_cons h) ..)
  | save src base => rfl
  | mov src dst => exact Function.update_of_ne (List.ne_of_not_mem_cons h) ..
  | ret => exact Function.update_of_ne (List.ne_of_not_mem_cons h) ..

/-- A register that no instruction writes is kept. -/
theorem regs_run {code : List Instr} (h : ∀ i ∈ code, r ∉ i.writes) :
    (m.run code).regs r = m.regs r := by
  induction code generalizing m with
  | nil => rfl
  | cons i rest ih =>
    rw [run, List.foldl_cons]
    exact (ih fun j hj => h j (List.mem_cons_of_mem i hj)).trans
      (regs_exec (h i List.mem_cons_self))

/-- So does a call of code that does not write them. -/
theorem regs_call {returnAddress : UInt64} {code : List Instr} (hr : r ≠ .rsp)
    (h : ∀ i ∈ code, r ∉ i.writes) : (m.call returnAddress code).regs r = m.regs r :=
  (regs_run h).trans (Function.update_of_ne hr ..)

end Machine

end Amd64
