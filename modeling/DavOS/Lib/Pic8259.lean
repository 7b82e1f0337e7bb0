import Mathlib.Data.List.TakeWhile
import Mathlib.Data.Nat.Notation
import Mathlib.Logic.Function.Basic

/-!
# The interrupt controller 8259A

Two chips, of which the second one is behind an input of the first. A chip keeps the requests of its
inputs, masks them and orders them by priority; a level in service holds back the levels behind it.
The inputs are edge-triggered. A line that falls before its request is acknowledged takes the
request back, and if the processor has seen the request by then, it is given input 7, as the data
sheet says. A line that rises again without a fall in between models a chip that keeps the request.
The rotation of priorities, polling and the special mask mode are left out.
-/

namespace Pic8259

/-- The word that the next write to the data port is. -/
inductive Expecting
  | mask | icw2 | icw3 | icw4
deriving DecidableEq

/-- The inputs of a chip are 0 to 7. -/
structure Chip where
  irr : ℕ → Bool
  isr : ℕ → Bool
  imr : UInt8
  /-- The vector of input 0. -/
  offset : UInt8
  /-- The inputs with another chip behind them. -/
  cascade : UInt8
  single : Bool
  needsICW4 : Bool
  autoEOI : Bool
  expecting : Expecting

/-- Bit `n` of a register. -/
def bit (w : UInt8) (n : ℕ) : Bool := w.toBitVec.getLsbD n

namespace Chip

/-- The end of the interrupt with the highest priority. -/
def endOfInterrupt (c : Chip) : Chip :=
  match (List.range 8).find? c.isr with
  | some n => { c with isr := Function.update c.isr n false }
  | none => c

/-- A write to the command port: the start of an initialisation, or the end of an interrupt. -/
def command (w : UInt8) (c : Chip) : Chip :=
  if bit w 4 then
    { c with
      irr := fun _ => false
      isr := fun _ => false
      imr := 0
      single := bit w 1
      needsICW4 := bit w 0
      autoEOI := false
      expecting := .icw2 }
  else if bit w 3 then c
  else if w >>> 5 = 1 then c.endOfInterrupt
  else if w >>> 5 = 3 then
    { c with isr := fun n => c.isr n && n ≠ (w &&& 7).toNat }
  else c

/-- A write to the data port. -/
def data (w : UInt8) (c : Chip) : Chip :=
  let last : Expecting := if c.needsICW4 then .icw4 else .mask
  match c.expecting with
  | .mask => { c with imr := w }
  | .icw2 =>
    { c with
      offset := w &&& 0xF8
      expecting := if c.single then last else .icw3 }
  | .icw3 =>
    { c with
      cascade := w
      expecting := last }
  | .icw4 =>
    { c with
      autoEOI := bit w 1
      expecting := .mask }

/-- The request that the chip passes on. -/
def pending (requests : ℕ → Bool) (c : Chip) : Option ℕ :=
  ((List.range 8).takeWhile fun n => !c.isr n).find? fun n => requests n && !bit c.imr n

def vector (n : ℕ) (c : Chip) : UInt8 := c.offset + .ofNat n

/-- Input `n` is acknowledged. -/
def take (n : ℕ) (c : Chip) : Chip :=
  { c with
    irr := Function.update c.irr n false
    isr := if c.autoEOI then c.isr else Function.update c.isr n true }

variable {c : Chip} {requests : ℕ → Bool} {n : ℕ}

/-- With nothing in service the first request that is not masked is pending. -/
theorem pending_of_idle (h : ∀ n, c.isr n = false) :
    c.pending requests = (List.range 8).find? fun n => requests n && !bit c.imr n := by
  have hall : (List.range 8).takeWhile (fun n => !c.isr n) = List.range 8 := by
    refine List.takeWhile_eq_self_iff.mpr fun n _ => ?_
    rw [h n]
    rfl
  rw [pending, hall]

/-- The only level in service is the one that ends. -/
theorem isr_endOfInterrupt (hn : n < 8) (h : ∀ k, c.isr k = true ↔ k = n) (k : ℕ) :
    c.endOfInterrupt.isr k = false := by
  rw [endOfInterrupt]
  cases hfind : (List.range 8).find? c.isr with
  | none => exact absurd ((h n).mpr rfl) (List.find?_eq_none.mp hfind n (List.mem_range.mpr hn))
  | some m =>
    obtain rfl : m = n := (h m).mp (List.find?_some hfind)
    by_cases hk : k = m
    · rw [hk]
      exact Function.update_self ..
    · exact (Function.update_of_ne hk ..).trans (Bool.eq_false_iff.mpr (mt (h k).mp hk))

/-- Only the levels in service change. -/
theorem endOfInterrupt_eq (c : Chip) :
    c.endOfInterrupt = { c with isr := c.endOfInterrupt.isr } := by
  rw [endOfInterrupt]
  cases (List.range 8).find? c.isr with
  | none => rfl
  | some n => rfl

@[simp] theorem irr_endOfInterrupt (c : Chip) : c.endOfInterrupt.irr = c.irr := by
  rw [endOfInterrupt_eq]

end Chip

/-- The chips of a PC. -/
structure Pair where
  master : Chip
  slave : Chip

namespace Pair

/-- A line goes up, which is a request, or down, which takes it back. -/
def drive (line : ℕ) (up : Bool) (p : Pair) : Pair :=
  if line < 8 then { p with master.irr := Function.update p.master.irr line up }
  else { p with slave.irr := Function.update p.slave.irr (line - 8) up }

/-- Only the requests change. -/
theorem master_drive (line : ℕ) (up : Bool) (p : Pair) :
    (p.drive line up).master = { p.master with irr := (p.drive line up).master.irr } := by
  rw [drive]
  split_ifs with h
  · rfl
  · rfl

/-- The lines of the first chip are its inputs. -/
theorem irr_drive (line : ℕ) (up : Bool) (p : Pair) {n : ℕ} (hn : n < 8) :
    (p.drive line up).master.irr n = if line = n then up else p.master.irr n := by
  rw [drive]
  split_ifs with h hline hline
  · rw [hline]
    exact Function.update_self ..
  · exact Function.update_of_ne (Ne.symm hline) ..
  · omega
  · rfl

/-- The requests at the first chip. -/
def requests (p : Pair) (n : ℕ) : Bool :=
  p.master.irr n || bit p.master.cascade n && (p.slave.pending p.slave.irr).isSome

/-- The line from the chips to the processor. -/
def intr (p : Pair) : Bool := (p.master.pending p.requests).isSome

/-- The processor acknowledges an interrupt: the vector that it is given, and the chips then. -/
def acknowledge (p : Pair) : UInt8 × Pair :=
  match p.master.pending p.requests with
  -- the request is gone: input 7, which is not in service then
  | none => (p.master.vector 7, p)
  | some n =>
    if bit p.master.cascade n then
      match p.slave.pending p.slave.irr with
      | some k => (p.slave.vector k, ⟨p.master.take n, p.slave.take k⟩)
      -- the request at the second chip is gone
      | none => (p.slave.vector 7, ⟨p.master.take n, p.slave⟩)
    else (p.master.vector n, ⟨p.master.take n, p.slave⟩)

end Pair

end Pic8259
