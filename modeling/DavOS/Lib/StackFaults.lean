import DavOS.Lib.Interrupts

/-!
# Interrupts on a stack that may not be mapped

`Core.raise` pushes the frame of an interrupt wherever the stack pointer leads. Here a push faults
where memory is not mapped, and the faults on the way to a handler follow one another as the
processor orders them: a fault after a benign exception is delivered in its place, and so is a page
fault after a contributory one; other pairs are a double fault, and a fault on the way to the
handler of that is a shutdown. Where the frame is mapped, nothing differs from `Core.raise`
(`Core.raiseOn_eq_raise`); where it is mapped for no gate, every interrupt is a shutdown
(`Core.raiseOn_eq_shutdown`). The tables of the processor are always readable.
-/

namespace Amd64

abbrev vectorSS : UInt8 := 12

/-- How an exception counts when a fault comes on the way to its handler. -/
inductive FaultClass
  | benign | contributory | page
deriving DecidableEq

def faultClass (v : UInt8) (source : Source) : FaultClass :=
  if source = .hardware ∧ v = vectorPF then .page
  else if doubles v source then .contributory
  else .benign

/-- The second fault, on the way to the handler of the first, makes a double fault. -/
def FaultClass.doubled (first second : FaultClass) : Bool :=
  first = .contributory ∧ second = .contributory ∨ first = .page ∧ second ≠ .benign

namespace Core

/-- The bytes of the frame on top of the stack, in the order of the pushes. -/
def frameBytes (code : Option UInt64) (c : Core) : List UInt64 :=
  ((List.range (8 * (5 + code.toList.length))).map fun i => c.regs .rsp + .ofNat i).reverse

/-- The fault of a push: a stack fault at an address that is not canonical, and else a page fault
for a write of the supervisor. -/
def pushFault (a : UInt64) : Fault :=
  if Paging.Canonical a.toNat then ⟨vectorPF, some 2⟩ else ⟨vectorSS, some 0⟩

/-- As `enter`, with pushes that fault where memory is not mapped. -/
def enterOn (mapped : UInt64 → Bool) (c : Core) (v : UInt8) (source : Source)
    (code : Option UInt64) : Except Fault Core :=
  match c.enter v source code with
  | .error f => .error f
  | .ok c' =>
    match (c'.frameBytes code).find? fun a => !mapped a with
    | none => .ok c'
    | some a => .error (pushFault a)

/-- The delivery of an exception, with at most `n` others in its place. -/
def deliver (mapped : UInt64 → Bool) (c : Core) :
    ℕ → UInt8 → Source → Option UInt64 → Outcome
  | 0, _, _, _ => .shutdown
  | n + 1, v, source, code =>
    match c.enterOn mapped v source code with
    | .ok c' => .entered c'
    | .error f =>
      if (faultClass v source).doubled (faultClass f.vector .hardware) then
        match c.enterOn mapped vectorDF .hardware (some 0) with
        | .ok c' => .entered c'
        | .error _ => .shutdown
      else c.deliver mapped n f.vector .hardware f.code

/-- As `raise`, with pushes that can fault. A benign exception, a contributory one and a page fault
can be delivered one in place of the other, and any fault after these is a double fault. -/
def raiseOn (mapped : UInt64 → Bool) (c : Core) (v : UInt8) (source : Source)
    (code : Option UInt64) : Outcome :=
  c.deliver mapped 3 v source code

/-- As `syscall`, with pushes that can fault. -/
def syscallOn (mapped : UInt64 → Bool) (c : Core) (next : UInt64) : Outcome :=
  if bits 0 1 (c.msr msrEFER) = 0 then c.raiseOn mapped 6 .hardware none
  else
    let c' := c.afterSyscall next
    if c'.flag 8 then c'.raiseOn mapped 1 .hardware none else .entered c'

variable {mapped : UInt64 → Bool} {c c' : Core} {v : UInt8} {source : Source}
  {code : Option UInt64} {f : Fault}

/-! ## Frames that are mapped -/

/-- The frame of an entry lies right below the top of its stack. -/
theorem mem_frameBytes_through {g : Gate} {level : ℕ} {a : UInt64} :
    a ∈ (c.through g level code).frameBytes code ↔
      ∃ k < 8 * (5 + code.toList.length), a = (c.stackFor g level &&& ~~~15) - .ofNat (k + 1) := by
  have hlength : (c.interruptFrame code).length = 5 + code.toList.length := by
    rw [interruptFrame, List.length_append]
    rfl
  have hrsp : (c.through g level code).regs .rsp =
      (c.stackFor g level &&& ~~~15) - .ofNat (8 * (5 + code.toList.length)) := by
    rw [toMachine_through rfl, Machine.rsp_pushAll, hlength]
    simp only [Function.update_self]
  simp only [frameBytes, hrsp, List.mem_reverse, List.mem_map, List.mem_range]
  generalize 8 * (5 + code.toList.length) = n
  -- byte `i` from below is byte `n - 1 - i` from above
  have hsum : ∀ i < n, (c.stackFor g level &&& ~~~15) - .ofNat n + .ofNat i =
      (c.stackFor g level &&& ~~~15) - .ofNat (n - 1 - i + 1) := by
    intro i hi
    have hsplit : UInt64.ofNat n = .ofNat (n - 1 - i + 1) + .ofNat i := by
      rw [← UInt64.ofNat_add]
      congr 1
      omega
    rw [hsplit]
    grind
  constructor
  · rintro ⟨i, hi, rfl⟩
    exact ⟨n - 1 - i, by omega, hsum i hi⟩
  · rintro ⟨k, hk, rfl⟩
    refine ⟨n - 1 - k, by omega, ?_⟩
    rw [hsum _ (by omega), show n - 1 - (n - 1 - k) = k by omega]

/-- An entry whose frame is mapped. -/
theorem enterOn_eq_enter (h : ∀ c', c.enter v source code = .ok c' →
    ∀ a ∈ c'.frameBytes code, mapped a = true) :
    c.enterOn mapped v source code = c.enter v source code := by
  rw [enterOn]
  cases henter : c.enter v source code with
  | error f => rfl
  | ok c' =>
    have hnone : ((c'.frameBytes code).find? fun a => !mapped a) = none :=
      List.find?_eq_none.mpr fun a ha => by simp [h c' henter a ha]
    simp only [hnone]

/-- Without the pushes, only contributory faults come on the way to a handler. -/
theorem faultClass_of_enter (h : c.enter v source code = .error f) :
    faultClass f.vector .hardware = .contributory := by
  rw [enter] at h
  split_ifs at h
  · obtain rfl := Except.error.inj h
    rfl
  · obtain rfl := Except.error.inj h
    rfl
  · obtain rfl := Except.error.inj h
    rfl
  · split at h
    · obtain rfl := Except.error.inj h
      rfl
    · split at h
      · obtain rfl := Except.error.inj h
        rfl
      · cases h
  · obtain rfl := Except.error.inj h
    rfl

/-- The rule for contributory faults is the one that ignores the stack. -/
theorem doubled_contributory (v : UInt8) (source : Source) :
    (faultClass v source).doubled .contributory = doubles v source := by
  rw [faultClass]
  split_ifs with hpage hdoubles
  · obtain ⟨rfl, rfl⟩ := hpage
    rfl
  · rw [hdoubles]
    rfl
  · rw [Bool.not_eq_true] at hdoubles
    rw [hdoubles]
    rfl

/-- **A stack that is mapped.** -/
theorem raiseOn_eq_raise (h : ∀ v source code c', c.enter v source code = .ok c' →
    ∀ a ∈ c'.frameBytes code, mapped a = true) (v : UInt8) (source : Source)
    (code : Option UInt64) : c.raiseOn mapped v source code = c.raise v source code := by
  have henter : ∀ v source code, c.enterOn mapped v source code = c.enter v source code :=
    fun v source code => enterOn_eq_enter (h v source code)
  simp only [raiseOn, raise, deliver, henter, enterDoubleFault]
  cases hfirst : c.enter v source code with
  | ok c' => rfl
  | error f =>
    have hclass := faultClass_of_enter hfirst
    simp only [hclass, doubled_contributory]
    cases hsecond : c.enter f.vector .hardware f.code with
    | ok c' => rfl
    | error f' =>
      -- two contributory faults
      simp only [faultClass_of_enter hsecond]
      rfl

/-! ## Frames that are not mapped -/

/-- An interrupt whose frame would go to an unmapped byte is not delivered. -/
theorem exists_enterOn_eq_error (h : ∀ c', c.enter v source code = .ok c' →
    ∃ a ∈ c'.frameBytes code, mapped a = false) :
    ∃ f, c.enterOn mapped v source code = .error f := by
  rw [enterOn]
  cases henter : c.enter v source code with
  | error f => exact ⟨f, rfl⟩
  | ok c' =>
    cases hfind : (c'.frameBytes code).find? fun a => !mapped a with
    | some a => exact ⟨pushFault a, by simp only [hfind]⟩
    | none =>
      obtain ⟨a, ha, hunmapped⟩ := h c' henter
      have hmapped := List.find?_eq_none.mp hfind a ha
      rw [hunmapped] at hmapped
      exact absurd rfl hmapped

/-- **A stack that is not mapped.** -/
theorem raiseOn_eq_shutdown (h : ∀ v source code c', c.enter v source code = .ok c' →
    ∃ a ∈ c'.frameBytes code, mapped a = false) (v : UInt8) (source : Source)
    (code : Option UInt64) : c.raiseOn mapped v source code = .shutdown := by
  have herror : ∀ v source code, ∃ f, c.enterOn mapped v source code = .error f :=
    fun v source code => exists_enterOn_eq_error (h v source code)
  rw [raiseOn]
  generalize 3 = n
  induction n generalizing v source code with
  | zero => rfl
  | succ n ih =>
    obtain ⟨f, hf⟩ := herror v source code
    obtain ⟨f', hf'⟩ := herror vectorDF .hardware (some 0)
    simp only [deliver, hf, hf', ih, ite_self]

/-! ## `syscall` -/

end Core

end Amd64
