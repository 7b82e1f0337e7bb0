import DavOS.Kernel.Descriptors
import DavOS.Lib.StackFaults

/-!
# Where interrupts lead

Reference: `kernel/idt.go`.

Six of the 256 vectors have a gate. With the tables of the kernel, every interrupt, exception and
`int` instruction enters one of the stubs, from either ring: a missing gate is a general protection
fault, and a double fault after the exceptions that count for one. No gate has a stack of its own,
so in ring 0 all of this depends on the stack in use: if it is not mapped, every interrupt is a
triple fault.
-/

namespace DavOS.Kernel

open Amd64

/-- The processor runs code of the kernel, or of the user program. -/
def InRing (c : Core) (user : Bool) : Prop :=
  c.seg .cs = if user then userCodeSelector else kernelCodeSelector

instance (c : Core) (user : Bool) : Decidable (InRing c user) := inferInstanceAs (Decidable (_ = _))

variable {K : Image} {c : Core} {user : Bool}

/-- The privilege level is that of the ring. -/
theorem InRing.cpl (h : InRing c user) : c.cpl = if user then 3 else 0 := by
  rw [Core.cpl, h]
  cases user <;> rfl

namespace Configured

variable (h : Configured K c)

include h

/-- The tables are in memory that nothing else is in. -/
theorem congr {c' : Core} (hsame : SameTables c c') (hidt : K.Keeps .idt c.mem c'.mem)
    (hgdt : K.Keeps .gdt c.mem c'.mem) (htss : K.Keeps .cpuTSS c.mem c'.mem) : Configured K c' where
  idtr := hsame.idtr.trans h.idtr
  gdtr := hsame.gdtr.trans h.gdtr
  tssBase := hsame.tssBase.trans h.tssBase
  gate v := by
    have hv := v.toNat_lt
    have hnext : ∀ mem : Memory, load (K.idt + .ofNat (16 * v.toNat) + 8) mem =
        load (K.idt + .ofNat (16 * v.toNat + 8)) mem := by
      intro mem
      rw [UInt64.ofNat_add, UInt64.add_assoc]
      rfl
    have hlow := hidt.load_eq (k := 16 * v.toNat) (show _ ≤ 256 * 16 by omega)
    have hhigh := hidt.load_eq (k := 16 * v.toNat + 8) (show _ ≤ 256 * 16 by omega)
    rw [← h.gate v, Core.gate, Core.gate, hsame.idtr, h.idtr]
    simp only [hnext]
    exact congrArg₂ gateOf hlow hhigh
  kernelCode := (hgdt.load_eq (show 8 + 8 ≤ 56 by decide)).trans h.kernelCode
  kernelData := (hgdt.load_eq (show 16 + 8 ≤ 56 by decide)).trans h.kernelData
  userCode := (hgdt.load_eq (show 24 + 8 ≤ 56 by decide)).trans h.userCode
  userData := (hgdt.load_eq (show 32 + 8 ≤ 56 by decide)).trans h.userData
  rsp0 := (htss.load_eq (show 4 + 8 ≤ 104 by decide)).trans h.rsp0
  star := hsame.msr ▸ h.star
  lstar := hsame.msr ▸ h.lstar
  sfmask := hsame.msr ▸ h.sfmask
  sce := hsame.msr ▸ h.sce

/-! ## The segments -/

/-- A selector of the GDT finds its descriptor. -/
theorem descriptor? {sel : UInt16} {i : ℕ} (hi : sel.toNat / 8 = i) (hpos : i ≠ 0)
    (htable : sel.toNat / 4 % 2 = 0) (hle : i ≤ 6) :
    c.descriptor? sel = some (load (K.gdt + .ofNat (8 * i)) c.mem) := by
  rw [Core.descriptor?_eq hi hpos htable, h.gdtr]
  rw [h.gdtr]
  change 8 * i + 7 ≤ 55
  omega

/-- The code segments have the privilege levels 3 and 0. -/
theorem codeLevel (user : Bool) :
    (c.descriptor? (if user then userCodeSelector else kernelCodeSelector)).bind codeLevel? =
      some (if user then 3 else 0) := by
  cases user with
  | false =>
    rw [h.descriptor? (i := 1) rfl (by decide) rfl (by decide)]
    exact (congrArg codeLevel? h.kernelCode).trans (by decide)
  | true =>
    rw [h.descriptor? (i := 3) rfl (by decide) rfl (by decide)]
    exact (congrArg codeLevel? h.userCode).trans (by decide)

/-- The user's stack selector is good for ring 3. -/
theorem stackSelector_user : c.stackSelector userDataSelector 3 = true := by
  have hlevel : (c.descriptor? userDataSelector).bind stackLevel? = some 3 := by
    rw [h.descriptor? (i := 4) rfl (by decide) rfl (by decide)]
    exact (congrArg stackLevel? h.userData).trans (by decide)
  simp only [Core.stackSelector, hlevel]
  decide

/-- The kernel's stack selectors are good for ring 0. -/
theorem stackSelector_kernel {sel : UInt16} (hsel : sel = 0 ∨ sel = kernelDataSelector) :
    c.stackSelector sel 0 = true := by
  obtain rfl | rfl := hsel
  · rfl
  · have hlevel : (c.descriptor? kernelDataSelector).bind stackLevel? = some 0 := by
      rw [h.descriptor? (i := 2) rfl (by decide) rfl (by decide)]
      exact (congrArg stackLevel? h.kernelData).trans (by decide)
    simp only [Core.stackSelector, hlevel]
    decide

/-- The segments of the user stay visible in ring 3. -/
theorem visible_user {sel : UInt16} (hsel : sel.toNat / 4 ∈ [0, 6, 8]) :
    c.visible 3 sel = sel := by
  simp only [List.mem_cons, List.not_mem_nil, or_false] at hsel
  obtain hsel | hsel | hsel := hsel
  · have hnull : c.descriptor? sel = none := by
      rw [Core.descriptor?, if_pos (.inl (by omega))]
    rw [Core.visible, hnull]
  · rw [Core.visible, h.descriptor? (i := 3) (by omega) (by decide) (by omega) (by decide)]
    exact if_neg ((congrArg (fun d => ¬bits 45 2 d < 3) h.userCode).mpr (by decide))
  · rw [Core.visible, h.descriptor? (i := 4) (by omega) (by decide) (by omega) (by decide)]
    exact if_neg ((congrArg (fun d => ¬bits 45 2 d < 3) h.userData).mpr (by decide))

/-! ## One vector -/

variable {v : UInt8} {source : Source} {code : Option UInt64}

/-- A vector with a stub, if its gate may be used, is entered through the gate. -/
theorem enter_ok {s : Stub} (hring : InRing c user) (hs : vectorStub v = some s)
    (hopen : source = .hardware ∨ user = false ∨ v = 0x80) :
    c.enter v source code = .ok (c.through (K.gate v) 0 code) := by
  have hgate : K.gate v =
      ⟨K.stub s, kernelCodeSelector, 0, 0xE, if v = 0x80 then 3 else 0, true⟩ := by
    rw [Image.gate, hs]
  have hv := v.toNat_lt
  refine Core.enter_eq_through (h.gate v) ?_ ?_ ?_ ?_ ?_ (Nat.zero_le _)
  · rw [h.idtr]
    change _ ≤ 4095
    omega
  · rw [hgate]
  · rw [hgate]
  · intro hsource
    rw [hgate, hring.cpl]
    change (if user = true then 3 else 0) ≤ if v = 0x80 then 3 else 0
    obtain hhard | huser | hv80 := hopen
    · cases hsource.symm.trans hhard
    · rw [huser]
      exact Nat.zero_le _
    · rw [hv80]
      cases user <;> decide
  · rw [hgate]
    exact h.codeLevel false

/-- Otherwise there is a general protection fault. -/
theorem enter_error (hring : InRing c user)
    (hclosed : vectorStub v = none ∨ source = .software ∧ user = true ∧ v ≠ 0x80) :
    c.enter v source code = .error ⟨vectorGP, some (gateCode v source)⟩ := by
  refine Core.enter_eq_error (h.gate v) ?_
  rw [Image.gate]
  obtain hnone | ⟨hsource, huser, hv⟩ := hclosed
  · rw [hnone]
    exact .inl rfl
  · cases hs : vectorStub v with
    | none => exact .inl rfl
    | some s =>
      refine .inr ⟨hsource, ?_⟩
      rw [hring.cpl, huser]
      simp only [if_neg hv]
      decide

end Configured

/-- What stands behind a gate. -/
theorem through_gate {v : UInt8} {s : Stub} (hs : vectorStub v = some s) (c : Core)
    (code : Option UInt64) :
    (c.through (K.gate v) 0 code).rip = K.stub s ∧
      (c.through (K.gate v) 0 code).seg .cs = kernelCodeSelector ∧
      (c.through (K.gate v) 0 code).rflags = c.rflags &&& ~~~(trapFlags ||| interruptFlag) := by
  have hgate : K.gate v =
      ⟨K.stub s, kernelCodeSelector, 0, 0xE, if v = 0x80 then 3 else 0, true⟩ := by
    rw [Image.gate, hs]
  rw [hgate]
  refine ⟨rfl, ?_, rfl⟩
  rw [Core.through]
  dsimp only
  split
  · rw [Function.update_of_ne (by decide), Function.update_self]
    rfl
  · rw [Function.update_self]
    rfl

/-! ## All vectors -/

/-- The vector through which an interrupt enters the kernel, and the error code there. -/
def landing (user : Bool) (v : UInt8) (source : Source) (code : Option UInt64) :
    UInt8 × Option UInt64 :=
  if (vectorStub v).isSome ∧ (source = .hardware ∨ user = false ∨ v = 0x80) then (v, code)
  else if doubles v source then (vectorDF, some 0)
  else (vectorGP, some (gateCode v source))

/-- An interrupt lands at its own vector, or at an exception with an error code. -/
theorem landing_cases (user : Bool) (v : UInt8) (source : Source) (code : Option UInt64) :
    (source = .hardware ∨ user = false ∨ v = 0x80) ∧ landing user v source code = (v, code) ∨
      ∃ v' w, v' < 0x20 ∧ landing user v source code = (v', some w) := by
  by_cases hopen : (vectorStub v).isSome ∧ (source = .hardware ∨ user = false ∨ v = 0x80)
  · exact .inl ⟨hopen.2, if_pos hopen⟩
  · right
    rw [landing, if_neg hopen]
    by_cases hdouble : doubles v source = true
    · exact ⟨vectorDF, 0, by decide, if_pos hdouble⟩
    · exact ⟨vectorGP, _, by decide, if_neg hdouble⟩

/-- Where an interrupt enters the kernel. -/
theorem Configured.raise_eq (h : Configured K c) (hring : InRing c user) (v : UInt8)
    (source : Source) (code : Option UInt64) :
    c.raise v source code = .entered (c.through (K.gate (landing user v source code).1) 0
      (landing user v source code).2) := by
  have hdouble : c.enterDoubleFault = .entered (c.through (K.gate vectorDF) 0 (some 0)) := by
    rw [Core.enterDoubleFault, h.enter_ok (s := .dFault) hring rfl (.inl rfl)]
  by_cases hopen : (vectorStub v).isSome ∧ (source = .hardware ∨ user = false ∨ v = 0x80)
  · obtain ⟨s, hs⟩ := Option.isSome_iff_exists.mp hopen.1
    rw [landing, if_pos hopen, Core.raise, h.enter_ok hring hs hopen.2]
  · have hclosed : vectorStub v = none ∨ source = .software ∧ user = true ∧ v ≠ 0x80 := by
      cases hs : vectorStub v with
      | none => exact .inl rfl
      | some s =>
        right
        rw [hs, Option.isSome_some] at hopen
        cases source <;> cases user <;> simp_all
    rw [landing, if_neg hopen, Core.raise, h.enter_error hring hclosed]
    by_cases hd : doubles v source = true
    · simp only [if_pos hd, hdouble]
    · simp only [if_neg hd, h.enter_ok (s := .gpFault) (v := vectorGP) hring rfl (.inl rfl)]

/-- The stub that an interrupt enters. Ring 3 may call only one vector; of the exceptions without a
gate, four count for a double fault. -/
def entryStub (user : Bool) (v : UInt8) (source : Source) : Stub :=
  if source = .software ∧ user = true ∧ v ≠ 0x80 then .gpFault
  else
    match vectorStub v with
    | some s => s
    | none => if source = .hardware ∧ v ∈ [0, 10, 11, 12] then .dFault else .gpFault

/-- The vector where it lands has a stub. -/
theorem vectorStub_landing (user : Bool) (v : UInt8) (source : Source) (code : Option UInt64) :
    vectorStub (landing user v source code).1 = some (entryStub user v source) := by
  rw [landing, entryStub]
  by_cases hclosed : source = .software ∧ user = true ∧ v ≠ 0x80
  · obtain ⟨rfl, rfl, hv⟩ := hclosed
    rw [if_neg (by simp [hv]), if_neg (by simp [doubles]), if_pos ⟨rfl, rfl, hv⟩]
    rfl
  · have hopen : source = .hardware ∨ user = false ∨ v = 0x80 := by
      cases source <;> cases user <;> simp_all
    rw [if_neg hclosed]
    cases hs : vectorStub v with
    | some s => rw [if_pos ⟨rfl, hopen⟩, hs]
    | none =>
      have hne : v ≠ 13 ∧ v ≠ 14 := by
        constructor
        · rintro rfl
          cases hs
        · rintro rfl
          cases hs
      have hdoubles : doubles v source = true ↔ source = .hardware ∧ v ∈ [0, 10, 11, 12] := by
        simp [doubles, hne]
      rw [if_neg (by simp)]
      by_cases hd : doubles v source = true
      · rw [if_pos hd]
        simp only [if_pos (hdoubles.mp hd)]
        rfl
      · rw [if_neg hd]
        simp only [if_neg (mt hdoubles.mpr hd)]
        rfl

/-! ## The stack -/

/-- The processor aligns the stack pointer. -/
theorem toNat_and_not_15 (w : UInt64) : (w &&& ~~~15).toNat = 16 * (w.toNat / 16) :=
  PackedBits.toNat_and_of_mask (n := 4) (by decide) w

/-- The trap stack ends at an aligned address already. -/
theorem toNat_defaultKernelTrapStackTop (K : Image) :
    K.defaultKernelTrapStackTop.toNat = 16 * (K.high .trapStack / 16) := by
  have hfits := K.fits .trapStack
  change K.trapStack.toNat + 4096 ≤ _ at hfits
  have htop : (K.trapStack + 4096).toNat = K.high .trapStack :=
    LittleEndian.toNat_add_ofNat (k := 4096) (by omega)
  rw [Image.defaultKernelTrapStackTop, toNat_and_not_15, htop]

/-- Where the frame of an interrupt ends: at the top of the trap stack if it comes from ring 3, and
at the stack pointer in ring 0. -/
def Image.frameTop (K : Image) (c : Core) (user : Bool) : UInt64 :=
  (if user then K.defaultKernelTrapStackTop else c.regs .rsp) &&& ~~~15

namespace Configured

variable (h : Configured K c) (hring : InRing c user)

include h hring

/-- From ring 3 the trap stack is used, from ring 0 the current one. -/
theorem stackFor_eq {v : UInt8} {s : Stub} (hs : vectorStub v = some s) :
    c.stackFor (K.gate v) 0 = if user then K.defaultKernelTrapStackTop else c.regs .rsp := by
  have hist : (K.gate v).ist = 0 := by rw [Image.gate, hs]
  have hrsp0 : load (c.tssBase + .ofNat (4 + 8 * 0)) c.mem = K.defaultKernelTrapStackTop := by
    rw [h.tssBase]
    exact h.rsp0
  rw [Core.stackFor, if_neg (not_not.mpr hist), hring.cpl, hrsp0]
  cases user with
  | false => rfl
  | true => rfl

/-- All gates lead to ring 0 and to the same stack. -/
theorem enter_through {v : UInt8} {source : Source} {code : Option UInt64} {c' : Core}
    (henter : c.enter v source code = .ok c') :
    ∃ s, vectorStub v = some s ∧ c' = c.through (K.gate v) 0 code := by
  have hopen : ¬(vectorStub v = none ∨ source = .software ∧ user = true ∧ v ≠ 0x80) := by
    intro hclosed
    rw [h.enter_error hring hclosed] at henter
    cases henter
  obtain ⟨hstub, hcallable⟩ := not_or.mp hopen
  obtain ⟨s, hs⟩ := Option.ne_none_iff_exists'.mp hstub
  have hsource : source = .hardware ∨ user = false ∨ v = 0x80 := by
    cases source <;> cases user <;> simp_all
  rw [h.enter_ok hring hs hsource] at henter
  exact ⟨s, hs, (Except.ok.inj henter).symm⟩

/-- If the frame of an interrupt is mapped, its pushes do not fault. -/
theorem frame_mapped {mapped : UInt64 → Bool}
    (hmapped : ∀ k < 48, mapped (K.frameTop c user - .ofNat (k + 1)) = true) {v : UInt8}
    {source : Source} {code : Option UInt64} {c' : Core}
    (henter : c.enter v source code = .ok c') : ∀ a ∈ c'.frameBytes code, mapped a = true := by
  obtain ⟨s, hs, rfl⟩ := h.enter_through hring henter
  intro a ha
  obtain ⟨k, hk, rfl⟩ := Core.mem_frameBytes_through.mp ha
  have hcode : code.toList.length ≤ 1 := by cases code <;> simp
  rw [h.stackFor_eq hring hs]
  exact hmapped k (by omega)

/-- **An unmapped stack.** If the processor cannot push the five words that every frame has, then
there is no way to a handler, nor to that of a double fault. -/
theorem unmapped_stack_shuts_down {mapped : UInt64 → Bool} {k : ℕ} (hk : k < 40)
    (hunmapped : mapped (K.frameTop c user - .ofNat (k + 1)) = false) (v : UInt8)
    (source : Source) (code : Option UInt64) :
    c.raiseOn mapped v source code = .shutdown := by
  refine Core.raiseOn_eq_shutdown (fun v source code c' henter => ?_) v source code
  obtain ⟨s, hs, rfl⟩ := h.enter_through hring henter
  refine ⟨K.frameTop c user - .ofNat (k + 1), Core.mem_frameBytes_through.mpr
    ⟨k, by omega, ?_⟩, hunmapped⟩
  rw [h.stackFor_eq hring hs]
  rfl

end Configured

/-- With the page tables of the boot code, the trap stack is mapped. -/
theorem trapStack_mapped {mem : Memory} (hT : Boot.TablesBuilt K.sym (physical mem)) (c : Core)
    {k : ℕ} (hk : k < 48) : K.mapped mem (K.frameTop c true - .ofNat (k + 1)) = true := by
  have hhigh : K.high .trapStack = K.low .trapStack + 4096 := rfl
  have hle := K.high_le .trapStack
  have htop : (K.frameTop c true).toNat = 16 * (K.high .trapStack / 16) := by
    rw [Image.frameTop, toNat_and_not_15, if_pos rfl, toNat_defaultKernelTrapStackTop]
    omega
  rw [mapped_iff hT, toNat_sub_ofNat (by omega)]
  omega

/-- **After the boot, every interrupt is handled.** Whatever the kernel and the user do later, as
long as the tables stay as they are and the 48 bytes are mapped where the frame of an interrupt
goes: each vector, from either ring and with any error code, enters the stub that the table above
says, in ring 0 and with interrupts disabled. There is no triple fault. -/
theorem boot_handles_every_vector (K : Image) (c : Core) (hcs : c.seg .cs = kernelCodeSelector)
    (hzero : ∀ a, K.In .idt a → c.mem a = 0) :
    ∃ c', K.initTables c = .ok c' ∧
      (∀ p, p ≠ .idt → p ≠ .gdt → p ≠ .cpuTSS → K.Keeps p c.mem c'.mem) ∧
      ∀ c'', SameTables c' c'' → (∀ p ∈ [Part.idt, .gdt, .cpuTSS], K.Keeps p c'.mem c''.mem) →
        ∀ user, InRing c'' user →
          (∀ k < 48, K.mapped c''.mem (K.frameTop c'' user - .ofNat (k + 1)) = true) →
          ∀ v source code, ∃ c₀, c''.raiseOn (K.mapped c''.mem) v source code = .entered c₀ ∧
            c₀.rip = K.stub (entryStub user v source) ∧ c₀.seg .cs = kernelCodeSelector ∧
            c₀.flag 9 = false := by
  obtain ⟨c', hinit, hK, hkept⟩ := configured_initTables K c hcs hzero
  refine ⟨c', hinit, hkept, fun c'' htables hmem user hring hmapped v source code => ?_⟩
  have hK' : Configured K c'' := hK.congr htables (hmem .idt (by decide)) (hmem .gdt (by decide))
    (hmem .cpuTSS (by decide))
  obtain ⟨hrip, hcs', hflags⟩ := through_gate (K := K) (vectorStub_landing user v source code)
    c'' (landing user v source code).2
  have hpushed : c''.raiseOn (K.mapped c''.mem) v source code = c''.raise v source code :=
    Core.raiseOn_eq_raise (fun _ _ _ _ henter => hK'.frame_mapped hring hmapped henter) v source
      code
  refine ⟨_, hpushed.trans (hK'.raise_eq hring v source code), hrip, hcs', ?_⟩
  rw [Core.flag, hflags]
  exact getLsbD_and_not (by decide) _

/-- The processor in long mode with nothing set up, and zeros in memory. -/
def blankCore : Core :=
  ⟨⟨fun _ => 0, 0, fun _ => 0⟩, 0, fun _ => kernelCodeSelector, ⟨0, 0⟩, ⟨0, 0⟩, 0, fun _ => 0⟩

/-- A division by zero of the user stops the machine. -/
theorem division_error_stops :
    ∃ c' c₀, linkedImage.initTables { blankCore with mem := pagedMemory } = .ok c' ∧
      ({ c' with seg := fun _ => userCodeSelector } : Core).raiseOn (linkedImage.mapped c'.mem) 0
        .hardware none = .entered c₀ ∧
      c₀.rip = linkedImage.stub .dFault := by
  obtain ⟨c', hinit, hkept, hlater⟩ := boot_handles_every_vector linkedImage
    { blankCore with mem := pagedMemory } rfl fun a ha => pagedMemory_idt ha
  have hT := tablesBuilt_configured hkept
  obtain ⟨c₀, hraise, hrip, -⟩ := hlater { c' with seg := fun _ => userCodeSelector }
    ⟨rfl, rfl, rfl, rfl⟩ (fun _ _ _ _ => rfl) true rfl
    (fun _ hk => trapStack_mapped hT _ hk) 0 .hardware none
  exact ⟨c', c₀, hinit, hraise, hrip⟩

end DavOS.Kernel
