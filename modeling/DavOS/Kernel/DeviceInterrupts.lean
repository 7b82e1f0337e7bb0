import DavOS.Kernel.Vectors
import DavOS.Lib.Pic8259
import DavOS.Lib.Runs

/-!
# Interrupts of devices

Reference: `kernel/pic.go`, and `IRQ0Handler` and `IRQ1Handler` of `kernel/irq.go`.

The two handlers end their interrupt with a command that does not name it: the controller takes the
level of the highest priority in service. Nothing here depends on when the devices raise their
lines. It does matter when they lower them, which the timer does by itself, since `PITInit` programs
a square wave: a line that falls too early takes its request back, and the processor may be given
a vector that has no gate.
-/

namespace DavOS.Kernel

open Pic8259

/-! ## The controller -/

def pic1Cmd : UInt16 := 0x20

def pic1Data : UInt16 := 0x21

def pic2Cmd : UInt16 := 0xA0

def pic2Data : UInt16 := 0xA1

def icw1Init : UInt8 := 0x11

def icw4_8086 : UInt8 := 0x01

def eoi : UInt8 := 0x20

/-- `outb` to the ports of the controller. -/
def picOutb (port : UInt16) (w : UInt8) (p : Pair) : Pair :=
  if port = pic1Cmd then { p with master := p.master.command w }
  else if port = pic1Data then { p with master := p.master.data w }
  else if port = pic2Cmd then { p with slave := p.slave.command w }
  else if port = pic2Data then { p with slave := p.slave.data w }
  else p

def picRemap (offset1 offset2 : UInt8) (p : Pair) : Pair :=
  p |> picOutb pic1Cmd icw1Init
    |> picOutb pic2Cmd icw1Init
    |> picOutb pic1Data offset1
    |> picOutb pic2Data offset2
    -- the second chip is behind input 2
    |> picOutb pic1Data 0x04
    |> picOutb pic2Data 0x02
    |> picOutb pic1Data icw4_8086
    |> picOutb pic2Data icw4_8086

def picSetMask (masterMask slaveMask : UInt8) (p : Pair) : Pair :=
  p |> picOutb pic1Data masterMask |> picOutb pic2Data slaveMask

def picEOI (irq : UInt8) (p : Pair) : Pair :=
  (if irq ≥ 8 then picOutb pic2Cmd eoi p else p) |> picOutb pic1Cmd eoi

/-- What `Main` does to the controller. -/
def initPIC (p : Pair) : Pair := picSetMask 0xFC 0xFF (picRemap 0x20 0x28 p)

/-! ## Runs -/

/-- What the processor does. -/
inductive Activity
  /-- Code of the kernel or of a user program, with IF. -/
  | code (enabled : Bool)
  /-- It has seen a request, and acknowledges it next. -/
  | accepted
  /-- A handler, before or after the end of the interrupt. -/
  | handler (s : Stub) (ended : Bool)
  /-- There was no handler. -/
  | stuck
deriving DecidableEq

structure IrqState where
  pics : Pair
  activity : Activity
  ticks : UInt64
  /-- The edges of the timer so far. -/
  edges : ℕ
  /-- Those that came while there was a request already. -/
  missed : ℕ
  /-- Those whose request was taken back. -/
  dropped : ℕ

inductive IrqEvent
  /-- A device raises its line. -/
  | raise (line : ℕ)
  /-- A device lowers its line. -/
  | lower (line : ℕ)
  /-- `cli` and `sti` -/
  | setEnabled (enabled : Bool)
  /-- The processor sees a request, at the end of an instruction. -/
  | accept
  /-- It acknowledges the request and goes to the handler. -/
  | interrupt
  /-- The body of the handler. -/
  | handle
  | iret

namespace IrqState

/-- `Schedule` returns at once, since there is one task. -/
def irq0Handler (s : IrqState) : IrqState :=
  { s with ticks := s.ticks + 1, pics := picEOI 0 s.pics, activity := .handler .irq0 true }

/-- `keyboard.IRQHandler` touches neither the controller nor the ticks. -/
def irq1Handler (s : IrqState) : IrqState :=
  { s with pics := picEOI 1 s.pics, activity := .handler .irq1 true }

def step (s : IrqState) : IrqEvent → IrqState
  | .raise line =>
    { s with
      pics := s.pics.drive line true
      edges := if line = 0 then s.edges + 1 else s.edges
      missed := if line = 0 ∧ s.pics.master.irr 0 = true then s.missed + 1 else s.missed }
  | .lower line =>
    { s with
      pics := s.pics.drive line false
      dropped := if line = 0 ∧ s.pics.master.irr 0 = true then s.dropped + 1 else s.dropped }
  | .setEnabled enabled => { s with activity := .code enabled }
  | .accept => { s with activity := .accepted }
  | .interrupt =>
    { s with
      pics := s.pics.acknowledge.2
      activity :=
        match vectorStub s.pics.acknowledge.1 with
        | some stub => .handler stub false
        | none => .stuck }
  | .handle =>
    match s.activity with
    | .handler .irq0 false => s.irq0Handler
    | .handler .irq1 false => s.irq1Handler
    | _ => s
  | .iret => { s with activity := .code true }

/-- When an event can happen. -/
def Permits (s : IrqState) : IrqEvent → Prop
  | .raise line => line < 16
  | .lower line => line < 16
  | .setEnabled _ => ∃ enabled, s.activity = .code enabled
  | .accept => s.activity = .code true ∧ s.pics.intr = true
  | .interrupt => s.activity = .accepted
  | .handle => ∃ stub, s.activity = .handler stub false
  | .iret => ∃ stub, s.activity = .handler stub true

/-- The timer and the keyboard do not lower their line after the processor has seen a request and
before it acknowledges it. -/
def Steady (s : IrqState) : IrqEvent → Prop
  | .lower line => s.activity = .accepted → 2 ≤ line
  | _ => True

/-- After `Main` has set up the controller, with interrupts disabled. -/
def start (p : Pair) : IrqState := ⟨initPIC p, .code false, 0, 0, 0, 0⟩

/-- The edges that will be counted: the one that the controller holds, and the one whose handler has
begun. -/
def waiting (s : IrqState) : ℕ :=
  (if s.pics.master.irr 0 = true then 1 else 0) + if s.activity = .handler .irq0 false then 1 else 0

/-! ## The invariant -/

/-- The first chip as `Main` sets it up. -/
structure Remapped (c : Chip) : Prop where
  imr : c.imr = 0xFC
  offset : c.offset = 0x20
  cascade : c.cascade = 0x04
  autoEOI : c.autoEOI = false

structure Inv (s : IrqState) : Prop where
  remapped : Remapped s.pics.master
  -- the level in service is that of the handler
  service : ∀ n, s.pics.master.isr n = true ↔
    n = 0 ∧ s.activity = .handler .irq0 false ∨ n = 1 ∧ s.activity = .handler .irq1 false
  handlers : ∀ stub b, s.activity = .handler stub b → stub = .irq0 ∨ stub = .irq1
  count : ∃ n, s.ticks = .ofNat n ∧ n + s.waiting + s.missed + s.dropped = s.edges

/-- The processor has not been given a vector without a gate, and is not about to be. -/
structure Served (s : IrqState) : Prop where
  handled : s.activity ≠ .stuck
  request : s.activity = .accepted → s.pics.master.irr 0 = true ∨ s.pics.master.irr 1 = true

variable {s : IrqState} {p : Pair}

/-- The invariant holds after `Main` has set up the controller. -/
theorem inv_start (p : Pair) : (start p).Inv where
  remapped := ⟨rfl, rfl, rfl, rfl⟩
  service n := by
    constructor
    · intro h
      cases h
    · rintro (⟨-, h⟩ | ⟨-, h⟩) <;> cases h
  handlers stub b h := by cases h
  count := ⟨0, rfl, rfl⟩

/-- No request has been accepted at the start. -/
theorem served_start (p : Pair) : (start p).Served := ⟨by simp [start], by simp [start]⟩

/-- The end of the only interrupt in service; the second chip is not asked. -/
theorem picEOI_eq {irq : UInt8} (hirq : ¬irq ≥ 8) (p : Pair) :
    picEOI irq p = { p with master := p.master.endOfInterrupt } := by
  rw [picEOI, if_neg hirq]
  rfl

/-- Between the handlers nothing is in service. -/
theorem Inv.idle (h : s.Inv) (hstub : ∀ stub, s.activity ≠ .handler stub false) (n : ℕ) :
    s.pics.master.isr n = false := by
  refine Bool.eq_false_iff.mpr fun hn => ?_
  rcases (h.service n).mp hn with ⟨-, hactivity⟩ | ⟨-, hactivity⟩
  · exact hstub _ hactivity
  · exact hstub _ hactivity

/-- Between the handlers the controller passes on the timer, then the keyboard, and nothing else. -/
theorem Inv.pending_eq (h : s.Inv) (hstub : ∀ stub, s.activity ≠ .handler stub false) :
    s.pics.master.pending s.pics.requests =
      if s.pics.master.irr 0 = true then some 0
      else if s.pics.master.irr 1 = true then some 1 else none := by
  have hcascade : bit s.pics.master.cascade 0 = false ∧ bit s.pics.master.cascade 1 = false := by
    rw [h.remapped.cascade]
    decide
  have hopen : bit 0xFC 0 = false ∧ bit 0xFC 1 = false := by decide
  have hmasked : bit 0xFC 2 = true ∧ bit 0xFC 3 = true ∧ bit 0xFC 4 = true ∧ bit 0xFC 5 = true ∧
      bit 0xFC 6 = true ∧ bit 0xFC 7 = true := by decide
  rw [Chip.pending_of_idle (h.idle hstub), h.remapped.imr,
    show List.range 8 = [0, 1, 2, 3, 4, 5, 6, 7] from rfl]
  cases h0 : s.pics.master.irr 0 <;> cases h1 : s.pics.master.irr 1 <;>
    simp [Pair.requests, hcascade, hopen, hmasked, h0, h1]

/-- Outside the handlers the controller asks for an interrupt if the timer or the keyboard does. -/
theorem Inv.intr_iff (h : s.Inv) (hstub : ∀ stub, s.activity ≠ .handler stub false) :
    s.pics.intr = true ↔ s.pics.master.irr 0 = true ∨ s.pics.master.irr 1 = true := by
  rw [Pair.intr, h.pending_eq hstub]
  split_ifs with h0 h1
  · simp [h0]
  · simp [h1]
  · simp [h0, h1]

/-- If the request is gone, the vector is that of input 7. -/
theorem Inv.acknowledge_eq (h : s.Inv) (hstub : ∀ stub, s.activity ≠ .handler stub false) :
    s.pics.acknowledge =
      if s.pics.master.irr 0 = true then (0x20, { s.pics with master := s.pics.master.take 0 })
      else if s.pics.master.irr 1 = true then
        (0x21, { s.pics with master := s.pics.master.take 1 })
      else (0x27, s.pics) := by
  have hcascade : bit s.pics.master.cascade 0 = false ∧ bit s.pics.master.cascade 1 = false := by
    rw [h.remapped.cascade]
    decide
  have hvector : ∀ n, s.pics.master.vector n = 0x20 + .ofNat n := by
    intro n
    rw [Chip.vector, h.remapped.offset]
  rw [Pair.acknowledge, h.pending_eq hstub]
  by_cases h0 : s.pics.master.irr 0 = true
  · simp only [if_pos h0, hcascade, hvector]
    rfl
  · by_cases h1 : s.pics.master.irr 1 = true
    · simp only [if_neg h0, if_pos h1, hcascade, hvector]
      rfl
    · simp only [if_neg h0, if_neg h1, hvector]
      rfl

/-! ## The steps -/

/-- What a line does to the invariant, if the request that it leaves is accounted for. -/
theorem Inv.drive (h : s.Inv) (line : ℕ) (up : Bool) {edges missed dropped : ℕ}
    (hbalance : (if (if line = 0 then up else s.pics.master.irr 0) = true then 1 else 0) + missed +
        dropped + s.edges =
      (if s.pics.master.irr 0 = true then 1 else 0) + s.missed + s.dropped + edges) :
    ({ s with pics := s.pics.drive line up, edges, missed, dropped } : IrqState).Inv where
  remapped := by
    change Remapped (s.pics.drive line up).master
    rw [Pair.master_drive]
    exact ⟨h.remapped.imr, h.remapped.offset, h.remapped.cascade, h.remapped.autoEOI⟩
  service n := by
    change (s.pics.drive line up).master.isr n = true ↔ _
    rw [Pair.master_drive]
    exact h.service n
  handlers := h.handlers
  count := by
    obtain ⟨n, hticks, hcount⟩ := h.count
    refine ⟨n, hticks, ?_⟩
    rw [← Pair.irr_drive line up s.pics (n := 0) (by decide)] at hbalance
    simp only [waiting] at hcount ⊢
    omega

/-- A line that rises: the edge becomes a request, or is missed. -/
theorem Inv.raise (h : s.Inv) (line : ℕ) : (s.step (.raise line)).Inv := by
  refine h.drive line true ?_
  by_cases hzero : line = 0
  · cases s.pics.master.irr 0 with
    | false =>
      simp only [hzero, if_true, Bool.false_eq_true, if_false, and_false]
      omega
    | true =>
      simp only [hzero, if_true, and_self]
      omega
  · simp [hzero]

/-- A line that falls: a request that was there is dropped. -/
theorem Inv.lower (h : s.Inv) (line : ℕ) : (s.step (.lower line)).Inv := by
  refine h.drive line false ?_
  by_cases hzero : line = 0
  · cases s.pics.master.irr 0 with
    | false => simp [hzero]
    | true =>
      simp only [hzero, if_true, Bool.false_eq_true, if_false, and_self]
      omega
  · simp [hzero]

/-- The processor does something else, and is not in a handler before or after it. -/
theorem Inv.setActivity (h : s.Inv) (hstub : ∀ stub, s.activity ≠ .handler stub false)
    {activity : Activity} (hactivity : ∀ stub b, activity ≠ .handler stub b) :
    ({ s with activity } : IrqState).Inv where
  remapped := h.remapped
  service n := by
    have hn := h.idle hstub n
    simp [hn, hactivity]
  handlers stub b hb := absurd hb (hactivity stub b)
  count := by
    obtain ⟨n, hticks, hcount⟩ := h.count
    refine ⟨n, hticks, ?_⟩
    simpa [waiting, hstub, hactivity] using hcount

/-- The processor acknowledges input `n`, and its handler begins. -/
theorem Inv.taken (h : s.Inv) (haccepted : s.activity = .accepted) {n : ℕ} {stub : Stub}
    (hn : s.pics.master.irr n = true) (hstub : n = 0 ∧ stub = .irq0 ∨ n = 1 ∧ stub = .irq1) :
    ({ s with
        pics := { s.pics with master := s.pics.master.take n }
        activity := .handler stub false } : IrqState).Inv where
  remapped := ⟨h.remapped.imr, h.remapped.offset, h.remapped.cascade, h.remapped.autoEOI⟩
  service k := by
    have hidle := h.idle (by simp [haccepted])
    have htake : (s.pics.master.take n).isr = Function.update s.pics.master.isr n true := by
      rw [Chip.take, h.remapped.autoEOI]
      rfl
    change (s.pics.master.take n).isr k = true ↔ _
    rw [htake]
    rcases hstub with ⟨rfl, rfl⟩ | ⟨rfl, rfl⟩
    · by_cases hk : k = 0 <;> simp [hk, hidle]
    · by_cases hk : k = 1 <;> simp [hk, hidle]
  handlers stub' b hb := by
    cases hb
    exact hstub.imp And.right And.right
  count := by
    obtain ⟨m, hticks, hcount⟩ := h.count
    refine ⟨m, hticks, ?_⟩
    rcases hstub with ⟨rfl, rfl⟩ | ⟨rfl, rfl⟩
    · simpa [waiting, haccepted, hn, Chip.take] using hcount
    · simpa [waiting, haccepted, Chip.take] using hcount

/-- The three things that the processor can be given. -/
theorem Inv.interrupt_eq (h : s.Inv) (haccepted : s.activity = .accepted) :
    s.step .interrupt =
      if s.pics.master.irr 0 = true then
        { s with
          pics := { s.pics with master := s.pics.master.take 0 }
          activity := .handler .irq0 false }
      else if s.pics.master.irr 1 = true then
        { s with
          pics := { s.pics with master := s.pics.master.take 1 }
          activity := .handler .irq1 false }
      else { s with activity := .stuck } := by
  rw [IrqState.step, h.acknowledge_eq (by simp [haccepted])]
  split_ifs with h0 h1
  · rfl
  · rfl
  · rfl

/-- The acknowledgement keeps the invariant, whichever vector the controller gives. -/
theorem Inv.interrupt (h : s.Inv) (haccepted : s.activity = .accepted) :
    (s.step .interrupt).Inv := by
  rw [h.interrupt_eq haccepted]
  split_ifs with h0 h1
  · exact h.taken haccepted h0 (.inl ⟨rfl, rfl⟩)
  · exact h.taken haccepted h1 (.inr ⟨rfl, rfl⟩)
  · exact h.setActivity (by simp [haccepted]) (by simp)

/-- The end of the interrupt of the handler. -/
theorem Inv.ended (h : s.Inv) {n : ℕ} {stub : Stub}
    (hactivity : s.activity = .handler stub false)
    (hstub : n = 0 ∧ stub = .irq0 ∨ n = 1 ∧ stub = .irq1) {ticks : UInt64}
    (hticks : ticks = if stub = .irq0 then s.ticks + 1 else s.ticks) :
    ({ s with
        ticks
        pics := { s.pics with master := s.pics.master.endOfInterrupt }
        activity := .handler stub true } : IrqState).Inv where
  remapped := by
    change Remapped s.pics.master.endOfInterrupt
    rw [Chip.endOfInterrupt_eq]
    exact ⟨h.remapped.imr, h.remapped.offset, h.remapped.cascade, h.remapped.autoEOI⟩
  service k := by
    have hn : n < 8 := by rcases hstub with ⟨rfl, -⟩ | ⟨rfl, -⟩ <;> decide
    have hservice : ∀ k, s.pics.master.isr k = true ↔ k = n := by
      intro k
      rw [h.service k, hactivity]
      rcases hstub with ⟨rfl, rfl⟩ | ⟨rfl, rfl⟩ <;> simp
    change s.pics.master.endOfInterrupt.isr k = true ↔ _
    simp [Chip.isr_endOfInterrupt hn hservice k]
  handlers stub' b hb := by
    cases hb
    exact hstub.imp And.right And.right
  count := by
    obtain ⟨m, hm, hcount⟩ := h.count
    rcases hstub with ⟨-, rfl⟩ | ⟨-, rfl⟩
    · refine ⟨m + 1, ?_, ?_⟩
      · rw [hticks, if_pos rfl, hm, UInt64.ofNat_add]
        rfl
      · simp only [waiting, hactivity, Chip.irr_endOfInterrupt, if_true] at hcount ⊢
        simp only [Activity.handler.injEq, and_false, if_false, reduceCtorEq]
        omega
    · refine ⟨m, ?_, ?_⟩
      · rw [hticks, if_neg (by simp), hm]
      · simpa [waiting, hactivity] using hcount

/-- The two handlers differ in the ticks only. -/
theorem Inv.handle_eq (h : s.Inv) {stub : Stub} (hactivity : s.activity = .handler stub false) :
    (∃ n : ℕ, n = 0 ∧ stub = .irq0 ∨ n = 1 ∧ stub = .irq1) ∧
      s.step .handle =
        { s with
          ticks := if stub = .irq0 then s.ticks + 1 else s.ticks
          pics := { s.pics with master := s.pics.master.endOfInterrupt }
          activity := .handler stub true } := by
  rcases h.handlers stub false hactivity with rfl | rfl
  · refine ⟨⟨0, .inl ⟨rfl, rfl⟩⟩, ?_⟩
    rw [IrqState.step, hactivity]
    change irq0Handler s = _
    rw [irq0Handler, picEOI_eq (by decide), if_pos rfl]
  · refine ⟨⟨1, .inr ⟨rfl, rfl⟩⟩, ?_⟩
    rw [IrqState.step, hactivity]
    change irq1Handler s = _
    rw [irq1Handler, picEOI_eq (by decide), if_neg (by simp)]

/-- The body of a handler keeps the invariant. -/
theorem Inv.handle (h : s.Inv) {stub : Stub} (hactivity : s.activity = .handler stub false) :
    (s.step .handle).Inv := by
  obtain ⟨⟨n, hstub⟩, heq⟩ := h.handle_eq hactivity
  rw [heq]
  exact h.ended hactivity hstub rfl

/-- **One step.** -/
theorem Inv.step (h : s.Inv) {e : IrqEvent} (he : s.Permits e) : (s.step e).Inv := by
  cases e with
  | raise line => exact h.raise line
  | lower line => exact h.lower line
  | setEnabled enabled =>
    obtain ⟨b, hcode⟩ := he
    exact h.setActivity (by simp [hcode]) (by simp)
  | accept => exact h.setActivity (by simp [he.1]) (by simp)
  | interrupt => exact h.interrupt he
  | handle =>
    obtain ⟨stub, hactivity⟩ := he
    exact h.handle hactivity
  | iret =>
    obtain ⟨stub, hactivity⟩ := he
    exact h.setActivity (by simp [hactivity]) (by simp)

/-- **All runs.** -/
theorem inv_run {events : List IrqEvent} (h : Runs.AllSteps step Permits (start p) events) :
    (Runs.run step (start p) events).Inv :=
  h.invariant (fun _ _ hs he => hs.step he) (inv_start p)

/-- **One step** of lines that are steady. A request that the processor has seen is still there when
it is acknowledged. -/
theorem Served.step (h : s.Served) (hinv : s.Inv) {e : IrqEvent} (he : s.Permits e)
    (hsteady : s.Steady e) : (s.step e).Served := by
  cases e with
  | raise line =>
    refine ⟨h.handled, fun haccepted => (h.request haccepted).imp ?_ ?_⟩
    · intro hrequest
      refine (Pair.irr_drive line true s.pics (by decide)).trans ?_
      rw [hrequest, ite_self]
    · intro hrequest
      refine (Pair.irr_drive line true s.pics (by decide)).trans ?_
      rw [hrequest, ite_self]
  | lower line =>
    refine ⟨h.handled, fun haccepted => ?_⟩
    have hline : 2 ≤ line := hsteady haccepted
    refine (h.request haccepted).imp ?_ ?_
    · intro hrequest
      exact ((Pair.irr_drive line false s.pics (by decide)).trans (if_neg (by omega))).trans
        hrequest
    · intro hrequest
      exact ((Pair.irr_drive line false s.pics (by decide)).trans (if_neg (by omega))).trans
        hrequest
  | setEnabled enabled => exact ⟨by simp [IrqState.step], by simp [IrqState.step]⟩
  | accept =>
    refine ⟨by simp [IrqState.step], fun _ => ?_⟩
    exact (hinv.intr_iff (by simp [he.1])).mp he.2
  | interrupt =>
    rw [hinv.interrupt_eq he]
    split_ifs with h0 h1
    · exact ⟨by simp, by simp⟩
    · exact ⟨by simp, by simp⟩
    · exact absurd (h.request he) (by simp [h0, h1])
  | handle =>
    obtain ⟨stub, hactivity⟩ := he
    rw [(hinv.handle_eq hactivity).2]
    exact ⟨by simp, by simp⟩
  | iret => exact ⟨by simp [IrqState.step], by simp [IrqState.step]⟩

/-- **All runs** of lines that are steady. -/
theorem served_run {events : List IrqEvent}
    (h : Runs.AllSteps step (fun s e => s.Permits e ∧ s.Steady e) (start p) events) :
    (Runs.run step (start p) events).Inv ∧ (Runs.run step (start p) events).Served :=
  h.invariant (I := fun s => s.Inv ∧ s.Served)
    (fun _ _ hs he => ⟨hs.1.step he.1, hs.2.step hs.1 he.1 he.2⟩) ⟨inv_start p, served_start p⟩

/-! ## Requests are served -/

/-- The processor can bring about `s'`, without the devices. -/
def Reaches (s s' : IrqState) : Prop :=
  ∃ events, (∀ line, .raise line ∉ events ∧ .lower line ∉ events) ∧
    Runs.AllSteps step Permits s events ∧ Runs.run step s events = s'

/-- Continuations compose. -/
theorem Reaches.trans {s' s'' : IrqState} (h : s.Reaches s') (h' : s'.Reaches s'') :
    s.Reaches s'' := by
  obtain ⟨events, hline, hevents, rfl⟩ := h
  obtain ⟨rest, hline', hrest, rfl⟩ := h'
  refine ⟨events ++ rest, fun line => ⟨?_, ?_⟩, hevents.append hrest,
    Runs.run_append s events rest⟩
  · exact fun hmem => (List.mem_append.mp hmem).elim (hline line).1 (hline' line).1
  · exact fun hmem => (List.mem_append.mp hmem).elim (hline line).2 (hline' line).2

/-- A permitted event that is no change of a line is a continuation. -/
theorem Reaches.single {e : IrqEvent} (he : s.Permits e)
    (hline : ∀ line, e ≠ .raise line ∧ e ≠ .lower line) : s.Reaches (s.step e) :=
  ⟨[e], fun line => ⟨fun hmem => (hline line).1 (List.mem_singleton.mp hmem).symm,
    fun hmem => (hline line).2 (List.mem_singleton.mp hmem).symm⟩, ⟨he, trivial⟩, rfl⟩

/-- A continuation keeps the invariant. -/
theorem Reaches.inv {s' : IrqState} (h : s.Reaches s') (hs : s.Inv) : s'.Inv := by
  obtain ⟨events, -, hevents, rfl⟩ := h
  exact hevents.invariant (fun _ _ hs he => hs.step he) hs

/-- The processor comes to accept a request: a handler comes to its end, and interrupts are
enabled. -/
theorem Inv.reaches_accepted (h : s.Inv) (hhandled : s.activity ≠ .stuck)
    (hrequest : s.pics.master.irr 0 = true ∨ s.pics.master.irr 1 = true) :
    ∃ s', s.Reaches s' ∧ s'.activity = .accepted ∧ s'.pics.master.irr = s.pics.master.irr := by
  have hcode : ∀ {s' : IrqState}, s.Reaches s' → s'.activity = .code true →
      s'.pics.master.irr = s.pics.master.irr →
      ∃ s', s.Reaches s' ∧ s'.activity = .accepted ∧ s'.pics.master.irr = s.pics.master.irr := by
    intro s' hreaches hcode hirr
    have hintr := ((hreaches.inv h).intr_iff (by simp [hcode])).mpr (by rwa [hirr])
    exact ⟨_, hreaches.trans (.single (e := .accept) ⟨hcode, hintr⟩ (by simp)), rfl, hirr⟩
  have hended : ∀ {s' : IrqState} {stub : Stub}, s.Reaches s' →
      s'.activity = .handler stub true → s'.pics.master.irr = s.pics.master.irr →
      ∃ s', s.Reaches s' ∧ s'.activity = .accepted ∧ s'.pics.master.irr = s.pics.master.irr := by
    intro s' stub hreaches hactivity hirr
    exact hcode (hreaches.trans (.single (e := .iret) ⟨stub, hactivity⟩ (by simp))) rfl hirr
  have hself : s.Reaches s := ⟨[], by simp, trivial, rfl⟩
  cases hactivity : s.activity with
  | code enabled =>
    exact hcode (.single (e := .setEnabled true) ⟨enabled, hactivity⟩ (by simp)) rfl rfl
  | accepted => exact ⟨s, hself, hactivity, rfl⟩
  | handler stub ended =>
    cases ended with
    | true => exact hended hself hactivity rfl
    | false =>
      obtain ⟨-, heq⟩ := h.handle_eq hactivity
      refine hended (.single (e := .handle) ⟨stub, hactivity⟩ (by simp))
        (congrArg IrqState.activity heq) ?_
      rw [heq]
      exact Chip.irr_endOfInterrupt _
  | stuck => exact absurd hactivity hhandled

/-- A request of the timer reaches its handler without a further change of the lines. -/
theorem Inv.reaches_irq0 (h : s.Inv) (hhandled : s.activity ≠ .stuck)
    (hrequest : s.pics.master.irr 0 = true) :
    ∃ s', s.Reaches s' ∧ s'.activity = .handler .irq0 false ∧
      s'.pics.master.irr = Function.update s.pics.master.irr 0 false := by
  obtain ⟨s₁, hreaches, haccepted, hirr⟩ := h.reaches_accepted hhandled (.inl hrequest)
  have heq := (hreaches.inv h).interrupt_eq haccepted
  rw [hirr, if_pos hrequest] at heq
  refine ⟨s₁.step .interrupt, hreaches.trans (.single haccepted (by simp)), ?_⟩
  rw [heq, ← hirr]
  exact ⟨rfl, rfl⟩

/-- A request of the keyboard reaches its handler, behind that of the timer if there is one. -/
theorem Inv.reaches_irq1 (h : s.Inv) (hhandled : s.activity ≠ .stuck)
    (hrequest : s.pics.master.irr 1 = true) :
    ∃ s', s.Reaches s' ∧ s'.activity = .handler .irq1 false := by
  -- a request of the timer goes first
  obtain ⟨s₁, hreaches₁, hhandled₁, h0, h1⟩ : ∃ s₁, s.Reaches s₁ ∧ s₁.activity ≠ .stuck ∧
      s₁.pics.master.irr 0 = false ∧ s₁.pics.master.irr 1 = true := by
    cases hzero : s.pics.master.irr 0 with
    | false => exact ⟨s, ⟨[], by simp, trivial, rfl⟩, hhandled, hzero, hrequest⟩
    | true =>
      obtain ⟨s₁, hreaches, hactivity, hirr⟩ := h.reaches_irq0 hhandled hzero
      refine ⟨s₁, hreaches, by simp [hactivity], ?_, ?_⟩
      · rw [hirr, Function.update_self]
      · rw [hirr, Function.update_of_ne (by decide), hrequest]
  obtain ⟨s₂, hreaches₂, haccepted, hirr⟩ :=
    (hreaches₁.inv h).reaches_accepted hhandled₁ (.inr h1)
  have hreaches := hreaches₁.trans hreaches₂
  have heq := (hreaches.inv h).interrupt_eq haccepted
  rw [hirr, h0, h1, if_neg (by simp), if_pos rfl] at heq
  refine ⟨s₂.step .interrupt, hreaches.trans (.single haccepted (by simp)), ?_⟩
  rw [heq]

end IrqState

open IrqState in
/-- **The devices are served.** Whatever lines are raised, and whenever, and if the timer and the
keyboard hold their line until the processor has acknowledged what it has seen: the processor gets
no vector but those of the two handlers, the level in service is that of the handler which has not
ended its interrupt, so that it ends its own, and a request of the timer or the keyboard is never
stuck. -/
theorem device_interrupts_served {p : Pair} {events : List IrqEvent}
    (h : Runs.AllSteps step (fun s e => s.Permits e ∧ s.Steady e) (start p) events) :
    let s := Runs.run step (start p) events
    s.activity ≠ .stuck ∧
      (∀ n, s.pics.master.isr n = true ↔ n = 0 ∧ s.activity = .handler .irq0 false ∨
        n = 1 ∧ s.activity = .handler .irq1 false) ∧
      (s.activity = .code true →
        (s.pics.intr = true ↔ s.pics.master.irr 0 = true ∨ s.pics.master.irr 1 = true)) ∧
      (s.activity = .accepted →
        s.pics.acknowledge.1 = if s.pics.master.irr 0 = true then 0x20 else 0x21) ∧
      (s.pics.master.irr 0 = true → ∃ s', s.Reaches s' ∧ s'.activity = .handler .irq0 false) ∧
      (s.pics.master.irr 1 = true → ∃ s', s.Reaches s' ∧ s'.activity = .handler .irq1 false) := by
  intro s
  obtain ⟨hinv, hserved⟩ : s.Inv ∧ s.Served := served_run h
  refine ⟨hserved.handled, hinv.service, fun hcode => hinv.intr_iff (by simp [hcode]),
    fun haccepted => ?_, fun hrequest => ?_, hinv.reaches_irq1 hserved.handled⟩
  · rw [hinv.acknowledge_eq (by simp [haccepted])]
    split_ifs with h0 h1
    · rfl
    · rfl
    · exact absurd (hserved.request haccepted) (by simp [h0, h1])
  · obtain ⟨s', hreaches, hactivity, -⟩ := hinv.reaches_irq0 hserved.handled hrequest
    exact ⟨s', hreaches, hactivity⟩

/-- Chips with nothing set. -/
def blankPair : Pair :=
  let chip : Chip := ⟨fun _ => false, fun _ => false, 0, 0, 0, false, false, false, .mask⟩
  ⟨chip, chip⟩

/-- A key is pressed while the timer is handled, and the line of the timer falls. -/
def keyInTick : List IrqEvent :=
  [.setEnabled true, .raise 0, .accept, .interrupt, .raise 1, .lower 0, .handle, .iret, .accept,
    .interrupt]

/-- After the tick the key is served. -/
theorem keyInTick_served :
    (Runs.run IrqState.step (.start blankPair) keyInTick).pics.master.isr 1 = true := by
  have hevents : Runs.AllSteps IrqState.step (fun s e => s.Permits e ∧ s.Steady e)
      (.start blankPair) keyInTick :=
    ⟨⟨⟨false, rfl⟩, trivial⟩, ⟨show 0 < 16 by decide, trivial⟩, ⟨⟨rfl, rfl⟩, trivial⟩,
      ⟨rfl, trivial⟩, ⟨show 1 < 16 by decide, trivial⟩,
      ⟨show 0 < 16 by decide, fun haccepted => by cases haccepted⟩, ⟨⟨.irq0, rfl⟩, trivial⟩,
      ⟨⟨.irq0, rfl⟩, trivial⟩, ⟨⟨rfl, rfl⟩, trivial⟩, ⟨rfl, trivial⟩, trivial⟩
  exact ((device_interrupts_served hevents).2.1 1).mpr (.inr ⟨rfl, rfl⟩)

/-- The line of the timer falls after the processor has seen the request. -/
def fallenTick : List IrqEvent := [.setEnabled true, .raise 0, .accept, .lower 0, .interrupt]

/-- The lines must be steady: input 7 has no handler. -/
theorem fallenTick_stuck :
    Runs.AllSteps IrqState.step IrqState.Permits (.start blankPair) fallenTick ∧
      (Runs.run IrqState.step (.start blankPair) fallenTick).activity = .stuck :=
  ⟨⟨⟨false, rfl⟩, show 0 < 16 by decide, ⟨rfl, rfl⟩, show 0 < 16 by decide, rfl, trivial⟩, rfl⟩

open IrqState in
/-- **Ticks are counted once.** The ticks are the edges of the timer without those that came too
early, those whose line fell before they were acknowledged, and the at most two that are on their
way. -/
theorem ticks_counted_once {p : Pair} {events : List IrqEvent}
    (h : Runs.AllSteps step Permits (start p) events) :
    let s := Runs.run step (start p) events
    s.waiting ≤ 2 ∧ s.missed + s.dropped + s.waiting ≤ s.edges ∧
      s.ticks = .ofNat (s.edges - s.missed - s.dropped - s.waiting) := by
  intro s
  have hinv : s.Inv := inv_run h
  obtain ⟨n, hticks, hcount⟩ := hinv.count
  have hwaiting : s.waiting ≤ 2 := by
    rw [waiting]
    split_ifs <;> omega
  refine ⟨hwaiting, by omega, ?_⟩
  rw [hticks, ← hcount]
  congr 1
  omega

/-- An edge is over before interrupts are enabled, and the next one is counted. -/
def droppedTick : List IrqEvent :=
  [.raise 0, .lower 0, .setEnabled true, .raise 0, .accept, .interrupt, .handle]

/-- Of the two edges one is dropped and one counted. -/
theorem droppedTick_counted :
    let s := Runs.run IrqState.step (.start blankPair) droppedTick
    s.edges = 2 ∧ s.dropped = 1 ∧ s.ticks = 1 := by
  have hevents : Runs.AllSteps IrqState.step IrqState.Permits (.start blankPair) droppedTick :=
    ⟨show 0 < 16 by decide, show 0 < 16 by decide, ⟨false, rfl⟩, show 0 < 16 by decide, ⟨rfl, rfl⟩,
      rfl, ⟨.irq0, rfl⟩, trivial⟩
  exact ⟨rfl, rfl, (ticks_counted_once hevents).2.2⟩

end DavOS.Kernel
