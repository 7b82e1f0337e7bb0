import DavOS.Lib.Ring
import DavOS.Lib.Runs
import Mathlib.Data.Nat.Bits
import Mathlib.Tactic.Common

/-!
# The keyboard buffer

Reference: `keyboard/irq.go` and `keyboard/keyboard.go`.

The interrupt handler translates a scancode and pushes the rune into a buffer of 256 slots, the main
loop reads runes from it with interrupts disabled. One slot is kept empty, so that equal indices
mean an empty buffer.

A `Trace` is the buffer together with the runes that have been read and those that have been pushed
while fewer than 255 were pending. `bounded_fifo` says that the two differ by what the buffer holds.
-/

namespace DavOS.Keyboard

/-! ## Scancodes -/

/-- The interface `Layout`; `none` is the result `false`. -/
structure Layout where
  getKey : UInt8 → Option Int32
  getShiftDigitSymbol : Int32 → Option Int32

structure Modifiers where
  leftShiftDown : Bool
  rightShiftDown : Bool
  capsLockOn : Bool

def Modifiers.shiftActive (m : Modifiers) : Bool := m.leftShiftDown || m.rightShiftDown

/-- `handleModifier`; `none` is the result `false`. -/
def handleModifier (sc : UInt8) (m : Modifiers) : Option Modifiers :=
  if sc = 0x2A then some { m with leftShiftDown := true }
  else if sc = 0xAA then some { m with leftShiftDown := false }
  else if sc = 0x36 then some { m with rightShiftDown := true }
  else if sc = 0xB6 then some { m with rightShiftDown := false }
  else if sc = 0x3A then some { m with capsLockOn := !m.capsLockOn }
  else none

def isASCIILetter (r : Int32) : Bool := (97 ≤ r && r ≤ 122) || (65 ≤ r && r ≤ 90)

def isASCIIDigit (r : Int32) : Bool := 48 ≤ r && r ≤ 57

def toUpperASCII (r : Int32) : Int32 := if 97 ≤ r ∧ r ≤ 122 then r - 97 + 65 else r

def toLowerASCII (r : Int32) : Int32 := if 65 ≤ r ∧ r ≤ 90 then r - 65 + 97 else r

/-- `translateScancode`; `none` is the result `false`. -/
def translateScancode (layout : Layout) (sc : UInt8) (m : Modifiers) : Option Int32 × Modifiers :=
  match handleModifier sc m with
  | some m => (none, m)
  | none =>
    if sc &&& 0x80 ≠ 0 then (none, m)
    else
      match layout.getKey sc with
      | none => (none, m)
      | some r =>
        if isASCIILetter r then
          (some (if m.shiftActive ≠ m.capsLockOn then toUpperASCII r else toLowerASCII r), m)
        else if isASCIIDigit r ∧ m.shiftActive then
          match layout.getShiftDigitSymbol r with
          | some sym => (some sym, m)
          | none => (some r, m)
        else (some r, m)

/-! ## The buffer -/

abbrev bufSize : ℕ := 256

structure Buffer where
  buf : Vector Int32 bufSize
  head : UInt32
  tail : UInt32

namespace Buffer

def push (r : Int32) (b : Buffer) : Buffer :=
  let next := (b.head + 1) &&& 255
  if next = b.tail then b
  else { b with
    buf := b.buf.set! b.head.toNat r
    head := next }

def tryRead (b : Buffer) : (Int32 × Bool) × Buffer :=
  if b.tail = b.head then ((0, false), b)
  else ((b.buf[b.tail.toNat]!, true), { b with tail := (b.tail + 1) &&& 255 })

/-- The number of slots from `tail` up to `head`. -/
def pending (b : Buffer) : ℕ := (b.head.toNat + bufSize - b.tail.toNat) % bufSize

/-- What the buffer holds, oldest first. -/
def buffered (b : Buffer) : List Int32 :=
  Ring.contents (fun i => b.buf[i]!) bufSize b.tail.toNat b.pending

end Buffer

/-- The variables of the package. -/
structure State where
  modifiers : Modifiers
  currentLayout : Layout
  buffer : Buffer

/-- `IRQHandler`, for the scancode at the data port. -/
def irqHandler (sc : UInt8) (st : State) : State :=
  let (r, modifiers) := translateScancode st.currentLayout sc st.modifiers
  match r with
  | some r => { st with
    modifiers
    buffer := st.buffer.push r }
  | none => { st with modifiers }

inductive Event
  | setLayout (l : Layout)
  | irq (sc : UInt8)
  | tryRead

def State.step (st : State) : Event → State
  | .setLayout l => { st with currentLayout := l }
  | .irq sc => irqHandler sc st
  | .tryRead => { st with buffer := st.buffer.tryRead.2 }

/-! ## One operation -/

namespace Buffer

variable {b : Buffer}

/-- The indices are slots. -/
structure InRange (b : Buffer) : Prop where
  head_lt : b.head.toNat < 256
  tail_lt : b.tail.toNat < 256

/-- The mask of the indices is a remainder. -/
theorem toNat_next (i : UInt32) : ((i + 1) &&& 255).toNat = (i.toNat + 1) % 256 := by
  rw [UInt32.toNat_and, UInt32.toNat_add]
  change (i.toNat + 1) % 2 ^ 32 &&& (2 ^ 8 - 1) = _
  rw [Nat.and_two_pow_sub_one_eq_mod, Nat.mod_mod_of_dvd _ (by decide)]

@[simp] theorem length_buffered : b.buffered.length = b.pending := Ring.length_contents

/-- The number of runes in the ring is the distance of its indices. -/
theorem pending_eq : b.pending = (b.head.toNat + 256 - b.tail.toNat) % 256 := rfl

/-- The ring is never completely full. -/
theorem pending_lt : b.pending < 256 := Nat.mod_lt _ (by decide)

/-- The head is as far ahead of the tail as there are runes. -/
theorem InRange.tail_add_pending (h : b.InRange) :
    (b.tail.toNat + b.pending) % 256 = b.head.toNat := by
  obtain ⟨hhead, htail⟩ := h
  rw [pending_eq]
  omega

/-- A push is lost when 255 runes are pending, and else comes behind them. -/
theorem InRange.push (h : b.InRange) (r : Int32) :
    (b.push r).InRange ∧ (b.push r).buffered =
      if b.pending = 255 then b.buffered else b.buffered ++ [r] := by
  have hslot := h.tail_add_pending
  obtain ⟨hhead, htail⟩ := h
  have hfull : (b.head + 1) &&& 255 = b.tail ↔ b.pending = 255 := by
    rw [← UInt32.toNat_inj, toNat_next, pending_eq]
    omega
  rw [Buffer.push]
  by_cases hnext : (b.head + 1) &&& 255 = b.tail
  · rw [if_pos hnext, if_pos (hfull.mp hnext)]
    exact ⟨⟨hhead, htail⟩, rfl⟩
  rw [if_neg hnext, if_neg (mt hfull.mpr hnext)]
  have hpending : (⟨b.buf.set! b.head.toNat r, (b.head + 1) &&& 255, b.tail⟩ : Buffer).pending =
      b.pending + 1 := by
    have hroom := mt hfull.mpr hnext
    rw [pending_eq] at hroom
    rw [pending_eq, pending_eq, toNat_next]
    dsimp only
    omega
  refine ⟨⟨?_, htail⟩, ?_⟩
  · rw [toNat_next]
    exact Nat.mod_lt _ (by decide)
  · have hroom : b.pending < 256 := pending_lt
    rw [buffered, hpending, buffered, ← Ring.contents_push hroom, hslot, Ring.slots_set! _ hhead]

/-- A read finds nothing when nothing is pending, and else the oldest rune. -/
theorem InRange.tryRead_cases (h : b.InRange) :
    (b.buffered = [] ∧ b.tryRead = ((0, false), b)) ∨
    ∃ r b', b.tryRead = ((r, true), b') ∧ b'.InRange ∧ b.buffered = r :: b'.buffered := by
  obtain ⟨hhead, htail⟩ := h
  have hempty : b.tail = b.head ↔ b.pending = 0 := by
    rw [← UInt32.toNat_inj, pending_eq]
    omega
  rw [tryRead]
  by_cases heq : b.tail = b.head
  · rw [if_pos heq]
    refine .inl ⟨?_, rfl⟩
    rw [buffered, hempty.mp heq, Ring.contents_zero]
  rw [if_neg heq]
  refine .inr ⟨_, _, rfl, ⟨hhead, ?_⟩, ?_⟩
  · rw [toNat_next]
    exact Nat.mod_lt _ (by decide)
  · have hpending : b.pending =
        (⟨b.buf, b.head, (b.tail + 1) &&& 255⟩ : Buffer).pending + 1 := by
      have hsome := mt hempty.mpr heq
      rw [pending_eq] at hsome
      rw [pending_eq, pending_eq, toNat_next]
      dsimp only
      omega
    rw [buffered, hpending, Ring.contents_cons, Nat.mod_eq_of_lt htail, buffered, toNat_next,
      Ring.contents_mod]

end Buffer

/-! ## Runs -/

inductive Op
  | push (r : Int32)
  | tryRead

/-- The buffer, what `TryRead` has returned, and what has been pushed while fewer than 255 runes
were pending. -/
structure Trace where
  buffer : Buffer
  returned : List Int32
  kept : List Int32

namespace Trace

def start (b : Buffer) : Trace := ⟨b, [], []⟩

/-- The number of runes that have been pushed and kept, and not been returned yet. -/
def pending (t : Trace) : ℕ := t.kept.length - t.returned.length

def step (t : Trace) : Op → Trace
  | .push r =>
    { buffer := t.buffer.push r
      returned := t.returned
      kept := if t.pending = 255 then t.kept else t.kept ++ [r] }
  | .tryRead =>
    let ((r, ok), buffer) := t.buffer.tryRead
    { buffer
      returned := if ok then t.returned ++ [r] else t.returned
      kept := t.kept }

/-- What the operations keep. -/
structure Inv (t : Trace) : Prop where
  inRange : t.buffer.InRange
  kept_eq : t.returned ++ t.buffer.buffered = t.kept

variable {t : Trace}

/-- The runes that were kept and not yet returned are those in the ring. -/
theorem Inv.pending_eq (h : t.Inv) : t.pending = t.buffer.pending := by
  rw [pending, ← h.kept_eq, List.length_append, Nat.add_sub_cancel_left, Buffer.length_buffered]

/-- An empty buffer, wherever its indices are. -/
theorem Inv.start {b : Buffer} (hempty : b.head = b.tail) (htail : b.tail.toNat < 256) :
    (start b).Inv := by
  have hpending : b.pending = 0 := by
    rw [Buffer.pending_eq, hempty]
    omega
  refine ⟨⟨hempty ▸ htail, htail⟩, ?_⟩
  rw [Trace.start, List.nil_append, Buffer.buffered, hpending, Ring.contents_zero]

/-- One operation keeps the invariant. -/
theorem Inv.step (h : t.Inv) (op : Op) : (t.step op).Inv := by
  cases op with
  | push r =>
    obtain ⟨hrange, hbuffered⟩ := h.inRange.push r
    refine ⟨hrange, ?_⟩
    simp only [Trace.step, hbuffered, h.pending_eq, ← h.kept_eq]
    split <;> simp
  | tryRead =>
    obtain ⟨-, hread⟩ | ⟨r, b', hread, hrange, hbuffered⟩ := h.inRange.tryRead_cases
    · simp only [Trace.step, hread]
      exact h
    · simp only [Trace.step, hread]
      refine ⟨hrange, ?_⟩
      rw [← h.kept_eq, hbuffered]
      simp

/-- Any sequence of operations keeps it. -/
theorem Inv.run (h : t.Inv) (ops : List Op) : (Runs.run Trace.step t ops).Inv := by
  induction ops generalizing t with
  | nil => exact h
  | cons op ops ih => exact ih (h.step op)

end Trace

/-- **The keyboard buffer is a bounded queue.** After any operations on an empty buffer, what has
been returned followed by what is buffered is what was pushed while fewer than 255 runes were
pending, and a read reports no key exactly if nothing is pending. -/
theorem bounded_fifo (b : Buffer) (hempty : b.head = b.tail) (htail : b.tail.toNat < 256)
    (ops : List Op) :
    let t := Runs.run Trace.step (Trace.start b) ops
    t.buffer.head.toNat < 256 ∧ t.buffer.tail.toNat < 256 ∧
      t.returned ++ t.buffer.buffered = t.kept ∧
      (t.buffer.tryRead.1.2 = false ↔ t.pending = 0) := by
  intro t
  have hinv : t.Inv := (Trace.Inv.start hempty htail).run ops
  refine ⟨hinv.inRange.head_lt, hinv.inRange.tail_lt, hinv.kept_eq, ?_⟩
  rw [hinv.pending_eq, ← Buffer.length_buffered]
  obtain ⟨hnil, hread⟩ | ⟨r, b', hread, -, hcons⟩ := hinv.inRange.tryRead_cases
  · simp [hnil, hread]
  · simp [hcons, hread]

/-- The buffer of the package before the first interrupt. -/
def Buffer.empty : Buffer := ⟨Vector.replicate bufSize 0, 0, 0⟩

/-- The first key is read, the second one waits. -/
theorem key_read_back :
    let t := Runs.run Trace.step (Trace.start Buffer.empty) [.push 97, .tryRead, .push 98]
    t.returned ++ t.buffer.buffered = t.kept :=
  (bounded_fifo Buffer.empty rfl (by decide) _).2.2.1

/-- Interrupts and reads do nothing else to the buffer than the operations do. -/
theorem State.exists_ops (st : State) (t : Trace) (h : t.buffer = st.buffer) (events : List Event) :
    ∃ ops, (Runs.run Trace.step t ops).buffer = (Runs.run State.step st events).buffer := by
  induction events generalizing st t with
  | nil => exact ⟨[], h⟩
  | cons e events ih =>
    -- each event is at most one operation
    have hstep : ∃ ops, (Runs.run Trace.step t ops).buffer = (st.step e).buffer := by
      cases e with
      | setLayout l => exact ⟨[], h⟩
      | irq sc =>
        simp only [State.step, irqHandler]
        cases (translateScancode st.currentLayout sc st.modifiers).1 with
        | none => exact ⟨[], h⟩
        | some r => exact ⟨[.push r], congrArg (Buffer.push r) h⟩
      | tryRead => exact ⟨[.tryRead], congrArg (fun b => b.tryRead.2) h⟩
    obtain ⟨ops, hops⟩ := hstep
    obtain ⟨rest, hrest⟩ := ih (st.step e) _ hops
    refine ⟨ops ++ rest, ?_⟩
    rw [Runs.run, List.foldl_append]
    exact hrest

end DavOS.Keyboard
