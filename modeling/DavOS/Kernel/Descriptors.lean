import DavOS.Kernel.Image
import DavOS.Lib.PackedBits

/-!
# Descriptor tables

Reference: `kernel/idt.go`, `kernel/gdt.go`, `kernel/tss.go`, `kernel/gdt/gdt.go`,
`kernel/tss/tss.go`, `kernel/syscall/common.go`, `kernel/syscall/runtime.go` and
`kernel/selectors.go`.

The kernel packs addresses into gates, descriptors and registers of the processor. `Configured` says
what the processor reads there, in the terms of the processor, and `configured_initTables` that the
code leads to it from any memory at boot. The ten bytes that `lgdt` and `lidt` read are values here,
and not variables in memory.
-/

namespace DavOS.Kernel

open Amd64
open LittleEndian (Holds bytes value writeBytes length_bytes value_bytes value_append
  holds_writeBytes sameOutside_writeBytes toNat_add_ofNat)

/-! ## Packing -/

/-- The ten bytes of `PackGDTR` and `packIDTR`, which have the same body. -/
def packTable (limit : UInt16) (base : UInt64) : List UInt8 :=
  [limit.toUInt8, (limit >>> 8).toUInt8,
    base.toUInt8, (base >>> 8).toUInt8, (base >>> 16).toUInt8, (base >>> 24).toUInt8,
    (base >>> 32).toUInt8, (base >>> 40).toUInt8, (base >>> 48).toUInt8, (base >>> 56).toUInt8]

def packGDTR : UInt16 → UInt64 → List UInt8 := packTable

def packIDTR : UInt16 → UInt64 → List UInt8 := packTable

abbrev tssSize : ℕ := 104

/-- `put16` at an offset of a structure in memory -/
def put16 (dst : UInt64) (off : ℕ) (value : UInt16) : Memory → Memory :=
  writeBytes (dst + .ofNat off) [value.toUInt8, (value >>> 8).toUInt8]

def put64 (dst : UInt64) (off : ℕ) (value : UInt64) : Memory → Memory :=
  writeBytes (dst + .ofNat off)
    [value.toUInt8, (value >>> 8).toUInt8, (value >>> 16).toUInt8, (value >>> 24).toUInt8,
      (value >>> 32).toUInt8, (value >>> 40).toUInt8, (value >>> 48).toUInt8,
      (value >>> 56).toUInt8]

def setRSP0 (tss rsp0 : UInt64) : Memory → Memory := put64 tss 4 rsp0

def setIomapBase (tss : UInt64) (iomapBase : UInt16) : Memory → Memory := put16 tss 102 iomapBase

def encodeTSSDescriptor (base : UInt64) (limit : UInt32) : UInt64 × UInt64 :=
  let limit64 : UInt64 := limit.toUInt64
  let low : UInt64 := limit64 &&& 0xFFFF
  let low : UInt64 := low ||| (base &&& 0xFFFFFF) <<< 16
  let low : UInt64 := low ||| (0x89 : UInt64) <<< 40
  let low : UInt64 := low ||| ((limit64 >>> 16) &&& 0xF) <<< 48
  let low : UInt64 := low ||| ((base >>> 24) &&& 0xFF) <<< 56
  (low, base >>> 32)

structure IdtEntry where
  offsetLow : UInt16
  selector : UInt16
  ist : UInt8
  flags : UInt8
  offsetMid : UInt16
  offsetHigh : UInt32
  zero : UInt32

/-- The sixteen bytes of an entry in memory. -/
def IdtEntry.image (e : IdtEntry) : List UInt8 :=
  bytes 2 e.offsetLow.toNat ++ bytes 2 e.selector.toNat ++ [e.ist] ++ [e.flags] ++
    bytes 2 e.offsetMid.toNat ++ (bytes 4 e.offsetHigh.toNat ++ bytes 4 e.zero.toNat)

def idtEntry (handler : UInt64) (selector : UInt16) (flags : UInt8) : IdtEntry where
  offsetLow := (handler &&& 0xFFFF).toUInt16
  selector := selector
  ist := 0
  flags := flags
  offsetMid := ((handler >>> 16) &&& 0xFFFF).toUInt16
  offsetHigh := ((handler >>> 32) &&& 0xFFFFFFFF).toUInt32
  zero := 0

def starValue (kernelCS userCS : UInt16) : UInt64 :=
  let userSYSRETBase := (userCS - 16) &&& ~~~3
  (kernelCS &&& ~~~3).toUInt64 <<< 32 ||| userSYSRETBase.toUInt64 <<< 48

def sfmaskValue : UInt64 := (1 : UInt64) <<< 9

def enableSCE (efer : UInt64) : UInt64 := efer ||| (1 : UInt64) <<< 0

/-! ## Initialization -/

abbrev kernelCodeSelector : UInt16 := 0x08

abbrev kernelDataSelector : UInt16 := 0x10

abbrev userCodeSelector : UInt16 := 0x1B

abbrev userDataSelector : UInt16 := 0x23

abbrev tssSelector : UInt16 := 0x28

abbrev kernelCodeDescriptor : UInt64 := 0x00AF9A000000FFFF

abbrev kernelDataDescriptor : UInt64 := 0x00CF92000000FFFF

abbrev userCodeDescriptor : UInt64 := 0x00AFFA000000FFFF

abbrev userDataDescriptor : UInt64 := 0x00CFF2000000FFFF

namespace Image

variable (K : Image)

def defaultKernelTrapStackTop : UInt64 := (K.trapStack + 4096) &&& ~~~0xF

def initGDT (mem : Memory) : Memory :=
  mem |> store K.gdt 0
    |> store (K.gdt + .ofNat 8) kernelCodeDescriptor
    |> store (K.gdt + .ofNat 16) kernelDataDescriptor
    |> store (K.gdt + .ofNat 24) userCodeDescriptor
    |> store (K.gdt + .ofNat 32) userDataDescriptor

def setTSSDescriptor (base : UInt64) (limit : UInt32) (mem : Memory) : Memory :=
  let (low, high) := encodeTSSDescriptor base limit
  mem |> store (K.gdt + .ofNat 40) low |> store (K.gdt + .ofNat 48) high

def loadDataSegments (sel : UInt16) (c : Core) : Core :=
  { c with seg := fun s => if s = .cs then c.seg .cs else sel }

def initGDTAndTSS (c : Core) : Except Fault Core :=
  let mem := K.initGDT c.mem
  let mem := setIomapBase K.cpuTSS (.ofNat tssSize) mem
  let mem := setRSP0 K.cpuTSS K.defaultKernelTrapStackTop mem
  let mem := K.setTSSDescriptor K.cpuTSS (.ofNat (tssSize - 1)) mem
  -- `loadGDT`
  let c := { c with mem, gdtr := .ofPacked (packGDTR (.ofNat (7 * 8 - 1)) K.gdt) }
  (loadDataSegments kernelDataSelector c).ltr tssSelector

/-- `syscall.Init`, with the arguments of `InitSyscall` -/
def initSyscall (c : Core) : Core :=
  let msr := Function.update c.msr msrSTAR (starValue kernelCodeSelector userCodeSelector)
  let msr := Function.update msr msrLSTAR (K.stub .syscallEntry)
  let msr := Function.update msr msrSFMASK sfmaskValue
  { c with msr := Function.update msr msrEFER (enableSCE (msr msrEFER)) }

def setIDTEntry (vec : UInt8) (handler : UInt64) (selector : UInt16) (flags : UInt8) :
    Memory → Memory :=
  writeBytes (K.idt + .ofNat (16 * vec.toNat)) (idtEntry handler selector flags).image

abbrev intGateKernelFlags : UInt8 := 0x8E

abbrev intGateUserFlags : UInt8 := 0xEE

def initIDT (c : Core) : Core :=
  let cs := c.seg .cs
  { c with
    mem := c.mem |> K.setIDTEntry 0x08 (K.stub .dFault) cs intGateKernelFlags
      |> K.setIDTEntry 0x0D (K.stub .gpFault) cs intGateKernelFlags
      |> K.setIDTEntry 0x0E (K.stub .pFault) cs intGateKernelFlags
      |> K.setIDTEntry 0x20 (K.stub .irq0) cs intGateKernelFlags
      |> K.setIDTEntry 0x21 (K.stub .irq1) cs intGateKernelFlags
      |> K.setIDTEntry 0x80 (K.stub .int80) cs intGateUserFlags
    idtr := .ofPacked (packIDTR (.ofNat (256 * 16 - 1)) K.idt) }

/-- The first calls of `Main` that concern the processor. -/
def initTables (c : Core) : Except Fault Core := do
  let c ← K.initGDTAndTSS c
  pure (K.initIDT (K.initSyscall c))

end Image

/-! ## What the processor reads -/

/-- Byte `k / 8` of a word is a quotient of it. -/
theorem toUInt8_shiftRight (w k : UInt64) (hk : k.toNat < 64) :
    (w >>> k).toUInt8 = .ofNat (w.toNat / 2 ^ k.toNat) := by
  rw [← UInt8.toNat_inj, UInt64.toNat_toUInt8, UInt64.toNat_shiftRight, UInt8.toNat_ofNat',
    Nat.mod_eq_of_lt hk, Nat.shiftRight_eq_div_pow]

/-- The eight shifts of a word are its bytes, the lowest first. -/
theorem word_bytes (w : UInt64) :
    [w.toUInt8, (w >>> 8).toUInt8, (w >>> 16).toUInt8, (w >>> 24).toUInt8, (w >>> 32).toUInt8,
      (w >>> 40).toUInt8, (w >>> 48).toUInt8, (w >>> 56).toUInt8] = bytes 8 w.toNat := by
  have hfirst : w.toUInt8 = .ofNat w.toNat := by
    rw [← UInt8.toNat_inj, UInt64.toNat_toUInt8, UInt8.toNat_ofNat']
  simp (disch := decide) only [toUInt8_shiftRight, bytes, Nat.div_div_eq_div_mul, hfirst]
  rfl

/-- The two shifts of a half word are its bytes, the lower one first. -/
theorem half_bytes (w : UInt16) : [w.toUInt8, (w >>> 8).toUInt8] = bytes 2 w.toNat := by
  have hfirst : w.toUInt8 = .ofNat w.toNat := by
    rw [← UInt8.toNat_inj, UInt16.toNat_toUInt8, UInt8.toNat_ofNat']
  have hsecond : (w >>> 8).toUInt8 = .ofNat (w.toNat / 256) := by
    rw [← UInt8.toNat_inj, UInt16.toNat_toUInt8, UInt16.toNat_shiftRight, UInt8.toNat_ofNat',
      Nat.shiftRight_eq_div_pow]
    rfl
  rw [hfirst, hsecond]
  rfl

/-- What is packed is what the processor loads. -/
theorem ofPacked_packTable (limit : UInt16) (base : UInt64) :
    TableRegister.ofPacked (packTable limit base) = ⟨base, limit⟩ := by
  have hsplit : packTable limit base = bytes 2 limit.toNat ++ bytes 8 base.toNat := by
    rw [← half_bytes, ← word_bytes]
    rfl
  have hlimit : value (bytes 2 limit.toNat) = limit.toNat := value_bytes limit.toNat_lt
  have hbase : value (bytes 8 base.toNat) = base.toNat := value_bytes base.toNat_lt
  rw [hsplit, TableRegister.ofPacked, List.drop_left' (length_bytes 2 _),
    List.take_left' (length_bytes 2 _), hlimit, hbase, UInt16.ofNat_toNat, UInt64.ofNat_toNat]

/-! ### Gates -/

/-- A mask of ones takes a remainder. -/
theorem toNat_and_mask (w : UInt64) {mask : UInt64} {k : ℕ} (hmask : mask.toNat = 2 ^ k - 1) :
    (w &&& mask).toNat = w.toNat % 2 ^ k := by
  rw [UInt64.toNat_and, hmask, Nat.and_two_pow_sub_one_eq_mod]

/-- A shift to the right is a quotient. -/
theorem toNat_shiftRight (w k : UInt64) (hk : k.toNat < 64) :
    (w >>> k).toNat = w.toNat / 2 ^ k.toNat := by
  rw [UInt64.toNat_shiftRight, Nat.mod_eq_of_lt hk, Nat.shiftRight_eq_div_pow]

/-- The gate that sixteen bytes spell. -/
def gateOfBytes (bs : List UInt8) : Gate :=
  gateOf (.ofNat (value (bs.take 8))) (.ofNat (value (bs.drop 8)))

/-- The processor reads the gate that 16 bytes of memory encode. -/
theorem gateOf_load {mem : Memory} {a : UInt64} {bs : List UInt8} (hlength : bs.length = 16)
    (h : Holds mem a bs) : gateOf (load a mem) (load (a + 8) mem) = gateOfBytes bs := by
  have htake : (bs.take 8).length = 8 := by
    rw [List.length_take, hlength]
    rfl
  have hdrop : (bs.drop 8).length = 8 := by rw [List.length_drop, hlength]
  rw [← List.take_append_drop 8 bs] at h
  obtain ⟨hlow, hhigh⟩ := LittleEndian.holds_append.mp h
  rw [htake] at hhigh
  rw [gateOfBytes, hlow.load_eq htake, ← hhigh.load_eq hdrop]
  rfl

/-- A gate has 16 bytes. -/
theorem length_image (e : IdtEntry) : e.image.length = 16 := by
  simp [IdtEntry.image]

/-- The two words of an entry, as numbers. -/
theorem value_image (e : IdtEntry) :
    value (e.image.take 8) = e.offsetLow.toNat + 2 ^ 16 * e.selector.toNat + 2 ^ 32 * e.ist.toNat +
        2 ^ 40 * e.flags.toNat + 2 ^ 48 * e.offsetMid.toNat ∧
      value (e.image.drop 8) = e.offsetHigh.toNat + 2 ^ 32 * e.zero.toNat := by
  have hlow := e.offsetLow.toNat_lt
  have hselector := e.selector.toNat_lt
  have hmid := e.offsetMid.toNat_lt
  have hhigh := e.offsetHigh.toNat_lt
  have hzero := e.zero.toNat_lt
  have hlength : (bytes 2 e.offsetLow.toNat ++ bytes 2 e.selector.toNat ++ [e.ist] ++ [e.flags] ++
      bytes 2 e.offsetMid.toNat).length = 8 := by simp
  rw [IdtEntry.image, List.take_left' hlength, List.drop_left' hlength]
  simp only [value_append, List.length_append, length_bytes, List.length_singleton, value,
    value_bytes (n := 2) hlow, value_bytes (n := 2) hselector, value_bytes (n := 2) hmid,
    value_bytes (n := 4) hhigh, value_bytes (n := 4) hzero]
  omega

/-- Two words that are sums of fields encode the gate of these fields. -/
theorem gateOf_ofNat {o sel ist f mid top : ℕ} (ho : o < 2 ^ 16) (hsel : sel < 2 ^ 16)
    (hist : ist < 8) (hf : f < 2 ^ 8) (hmid : mid < 2 ^ 16) (htop : top < 2 ^ 32) :
    gateOf (.ofNat (o + 2 ^ 16 * sel + 2 ^ 32 * ist + 2 ^ 40 * f + 2 ^ 48 * mid)) (.ofNat top) =
      ⟨.ofNat (o + 2 ^ 16 * mid + 2 ^ 32 * top), .ofNat sel, ist, f % 16, f / 32 % 4,
        f / 128 = 1⟩ := by
  have hlow : (UInt64.ofNat (o + 2 ^ 16 * sel + 2 ^ 32 * ist + 2 ^ 40 * f + 2 ^ 48 * mid)).toNat =
      o + 2 ^ 16 * sel + 2 ^ 32 * ist + 2 ^ 40 * f + 2 ^ 48 * mid :=
    UInt64.toNat_ofNat_of_lt' (show _ < 2 ^ 64 by omega)
  have hhigh : (UInt64.ofNat top).toNat = top :=
    UInt64.toNat_ofNat_of_lt' (show _ < 2 ^ 64 by omega)
  rw [gateOf]
  simp only [bits, hlow, hhigh, Gate.mk.injEq, decide_eq_decide]
  refine ⟨congrArg _ ?_, congrArg _ ?_, ?_, ?_, ?_, ?_⟩ <;> omega

/-- The processor reads from an entry what `setIDTEntry` was given. -/
theorem gateOfBytes_idtEntry (handler : UInt64) (selector : UInt16) (flags : UInt8) :
    gateOfBytes (idtEntry handler selector flags).image =
      ⟨handler, selector, 0, flags.toNat % 16, flags.toNat / 32 % 4, flags.toNat / 128 = 1⟩ := by
  obtain ⟨hlow, hhigh⟩ := value_image (idtEntry handler selector flags)
  have hhandler := handler.toNat_lt
  have hoff : (handler &&& 0xFFFF).toUInt16.toNat = handler.toNat % 2 ^ 16 := by
    rw [UInt64.toNat_toUInt16, toNat_and_mask (k := 16) _ rfl]
    exact Nat.mod_mod _ _
  have hmid : ((handler >>> 16) &&& 0xFFFF).toUInt16.toNat = handler.toNat / 2 ^ 16 % 2 ^ 16 := by
    rw [UInt64.toNat_toUInt16, toNat_and_mask (k := 16) _ rfl, toNat_shiftRight _ _ (by decide)]
    exact Nat.mod_mod _ _
  have htop : ((handler >>> 32) &&& 0xFFFFFFFF).toUInt32.toNat = handler.toNat / 2 ^ 32 := by
    rw [UInt64.toNat_toUInt32, toNat_and_mask (k := 32) _ rfl, toNat_shiftRight _ _ (by decide)]
    change handler.toNat / 2 ^ 32 % 2 ^ 32 % 2 ^ 32 = handler.toNat / 2 ^ 32
    omega
  simp only [idtEntry, hmid, hoff, htop, UInt8.toNat_zero, UInt32.toNat_zero, Nat.mul_zero,
    Nat.add_zero] at hlow hhigh
  have hgate := @gateOf_ofNat (handler.toNat % 2 ^ 16) selector.toNat 0 flags.toNat
    (handler.toNat / 2 ^ 16 % 2 ^ 16) (handler.toNat / 2 ^ 32) (by omega)
    selector.toNat_lt (by omega) flags.toNat_lt (by omega) (by omega)
  rw [Nat.mul_zero, Nat.add_zero, show handler.toNat % 2 ^ 16 +
    2 ^ 16 * (handler.toNat / 2 ^ 16 % 2 ^ 16) + 2 ^ 32 * (handler.toNat / 2 ^ 32) =
      handler.toNat by omega, UInt64.ofNat_toNat, UInt16.ofNat_toNat] at hgate
  rw [gateOfBytes, idtEntry, hlow, hhigh, hgate]

/-! ### The task state segment -/

/-- Setting a field above the bits that are used is an addition. -/
theorem toNat_or_shiftLeft {w v k : UInt64} {x y n : ℕ} (hw : w.toNat = x) (hv : v.toNat = y)
    (hk : k.toNat = n) (hn : n < 64) (hx : x < 2 ^ n) (hy : 2 ^ n * y < 2 ^ 64) :
    (w ||| v <<< k).toNat = x + 2 ^ n * y := by
  rw [UInt64.toNat_or, UInt64.toNat_shiftLeft, hw, hv, hk, Nat.mod_eq_of_lt hn, Nat.shiftLeft_eq,
    Nat.mul_comm, Nat.mod_eq_of_lt hy, Nat.or_comm, ← Nat.two_pow_add_eq_or_of_lt hx, Nat.add_comm]

/-- The two words of the descriptor are sums of their fields. -/
theorem toNat_encodeTSSDescriptor (base : UInt64) (limit : UInt32) :
    (encodeTSSDescriptor base limit).1.toNat = limit.toNat % 2 ^ 16 +
        2 ^ 16 * (base.toNat % 2 ^ 24) + 2 ^ 40 * 0x89 + 2 ^ 48 * (limit.toNat / 2 ^ 16 % 2 ^ 4) +
        2 ^ 56 * (base.toNat / 2 ^ 24 % 2 ^ 8) ∧
      (encodeTSSDescriptor base limit).2.toNat = base.toNat / 2 ^ 32 := by
  have hlimit : (limit.toUInt64 &&& 0xFFFF).toNat = limit.toNat % 2 ^ 16 := by
    rw [toNat_and_mask (k := 16) _ rfl, UInt32.toNat_toUInt64]
  have hbase : (base &&& 0xFFFFFF).toNat = base.toNat % 2 ^ 24 := toNat_and_mask _ rfl
  have hnibble : ((limit.toUInt64 >>> 16) &&& 0xF).toNat = limit.toNat / 2 ^ 16 % 2 ^ 4 := by
    rw [toNat_and_mask (k := 4) _ rfl, toNat_shiftRight _ _ (by decide), UInt32.toNat_toUInt64]
    rfl
  have hbyte : ((base >>> 24) &&& 0xFF).toNat = base.toNat / 2 ^ 24 % 2 ^ 8 := by
    rw [toNat_and_mask (k := 8) _ rfl, toNat_shiftRight _ _ (by decide)]
    rfl
  -- the fields are joined from the low end, and each one fits below the next
  refine ⟨?_, toNat_shiftRight _ _ (by decide)⟩
  have hjoined := toNat_or_shiftLeft (k := 16) (n := 16) hlimit hbase rfl (by decide) (by omega)
    (by omega)
  have hjoined := toNat_or_shiftLeft (k := 40) (v := 0x89) (y := 0x89) (n := 40) hjoined rfl rfl
    (by decide) (by omega) (by decide)
  have hjoined := toNat_or_shiftLeft (k := 48) (n := 48) hjoined hnibble rfl (by decide)
    (by omega) (by omega)
  exact toNat_or_shiftLeft (k := 56) (n := 56) hjoined hbyte rfl (by decide) (by omega) (by omega)

/-- The fields of a descriptor are read back from the sum. -/
theorem descriptor_fields {x y n b : ℕ} (hx : x < 2 ^ 16) (hy : y < 2 ^ 24) (hn : n < 2 ^ 4)
    (hb : b < 2 ^ 8) :
    let w := x + 2 ^ 16 * y + 2 ^ 40 * 0x89 + 2 ^ 48 * n + 2 ^ 56 * b
    w / 2 ^ 16 % 2 ^ 24 = y ∧ w / 2 ^ 56 % 2 ^ 8 = b ∧ w / 2 ^ 40 % 2 ^ 5 = 9 ∧
      w / 2 ^ 47 % 2 ^ 1 = 1 := by
  refine ⟨?_, ?_, ?_, ?_⟩ <;> omega

/-- The base address that `ltr` reads, and that the segment is present and available. -/
theorem bits_encodeTSSDescriptor (base : UInt64) (limit : UInt32) :
    UInt64.ofNat (bits 16 24 (encodeTSSDescriptor base limit).1 +
        2 ^ 24 * bits 56 8 (encodeTSSDescriptor base limit).1 +
        2 ^ 32 * bits 0 32 (encodeTSSDescriptor base limit).2) = base ∧
      bits 40 5 (encodeTSSDescriptor base limit).1 = 9 ∧
      bits 47 1 (encodeTSSDescriptor base limit).1 = 1 := by
  obtain ⟨hlow, hhigh⟩ := toNat_encodeTSSDescriptor base limit
  obtain ⟨hmiddle, hbyte, htype, hpresent⟩ := descriptor_fields (x := limit.toNat % 2 ^ 16)
    (y := base.toNat % 2 ^ 24) (n := limit.toNat / 2 ^ 16 % 2 ^ 4)
    (b := base.toNat / 2 ^ 24 % 2 ^ 8) (by omega) (by omega) (by omega) (by omega)
  have hjoin : ∀ x < 2 ^ 64, (x % 2 ^ 24 + 2 ^ 24 * (x / 2 ^ 24 % 2 ^ 8) +
      2 ^ 32 * (x / 2 ^ 32 / 2 ^ 0 % 2 ^ 32)) % 2 ^ 64 = x := by omega
  simp only [bits, hlow, hhigh, hmiddle, hbyte, htype, hpresent, and_true]
  rw [← UInt64.toNat_inj, UInt64.toNat_ofNat', hjoin _ base.toNat_lt]

/-! ### All tables -/

/-- The entry code behind a vector. -/
def vectorStub (v : UInt8) : Option Stub :=
  if v = 0x08 then some .dFault
  else if v = 0x0D then some .gpFault
  else if v = 0x0E then some .pFault
  else if v = 0x20 then some .irq0
  else if v = 0x21 then some .irq1
  else if v = 0x80 then some .int80
  else none

def Image.gate (K : Image) (v : UInt8) : Gate :=
  match vectorStub v with
  | some s => ⟨K.stub s, kernelCodeSelector, 0, 0xE, if v = 0x80 then 3 else 0, true⟩
  | none => ⟨0, 0, 0, 0, 0, false⟩

/-- What the processor reads in the tables. -/
structure Configured (K : Image) (c : Core) : Prop where
  idtr : c.idtr = ⟨K.idt, 4095⟩
  gdtr : c.gdtr = ⟨K.gdt, 55⟩
  tssBase : c.tssBase = K.cpuTSS
  gate : ∀ v, c.gate v = K.gate v
  kernelCode : load (K.gdt + .ofNat 8) c.mem = kernelCodeDescriptor
  kernelData : load (K.gdt + .ofNat 16) c.mem = kernelDataDescriptor
  userCode : load (K.gdt + .ofNat 24) c.mem = userCodeDescriptor
  userData : load (K.gdt + .ofNat 32) c.mem = userDataDescriptor
  rsp0 : load (K.cpuTSS + .ofNat 4) c.mem = K.defaultKernelTrapStackTop
  star : bits 32 16 (c.msr msrSTAR) = 8
  lstar : c.msr msrLSTAR = K.stub .syscallEntry
  sfmask : c.msr msrSFMASK = interruptFlag
  sce : bits 0 1 (c.msr msrEFER) = 1

namespace Image

variable (K : Image)

/-- The bytes of an entry of the IDT. -/
def entryAt (mem : Memory) (v : UInt8) : List UInt8 :=
  LittleEndian.load mem (K.idt + .ofNat (16 * v.toNat)) 16

variable {K}

/-- An address in an entry of the IDT does not wrap. -/
theorem toNat_entry (v : UInt8) {k : ℕ} (hk : k ≤ 16) :
    (K.idt + .ofNat (16 * v.toNat) + .ofNat k).toNat = K.idt.toNat + 16 * v.toNat + k := by
  have hfits := K.fits .idt
  have hv := v.toNat_lt
  change K.idt.toNat + 256 * 16 ≤ _ at hfits
  rw [UInt64.add_assoc, ← UInt64.ofNat_add, toNat_add_ofNat (by omega), Nat.add_assoc]

/-- `setIDTEntry` writes one entry of the IDT. -/
theorem entryAt_setIDTEntry (vec : UInt8) (handler : UInt64) (selector : UInt16) (flags : UInt8)
    (mem : Memory) (v : UInt8) :
    K.entryAt (K.setIDTEntry vec handler selector flags mem) v =
      if v = vec then (idtEntry handler selector flags).image else K.entryAt mem v := by
  have hlength := length_image (idtEntry handler selector flags)
  split
  case isTrue h =>
    subst h
    have hholds : Holds (K.setIDTEntry v handler selector flags mem)
        (K.idt + .ofNat (16 * v.toNat)) (idtEntry handler selector flags).image :=
      holds_writeBytes (by rw [hlength]; decide)
    rwa [Holds, hlength] at hholds
  case isFalse h =>
    have hne : v.toNat ≠ vec.toNat := fun heq => h (UInt8.toNat_inj.mp heq)
    have hfits := K.fits .idt
    change K.idt.toNat + 256 * 16 ≤ _ at hfits
    have hvec := vec.toNat_lt
    have hstart := toNat_entry (K := K) vec (k := 0) (by decide)
    rw [show UInt64.ofNat 0 = 0 from rfl, UInt64.add_zero] at hstart
    have hsame : SameOutside _ _ mem (K.setIDTEntry vec handler selector flags mem) :=
      sameOutside_writeBytes (by omega)
    refine List.map_congr_left fun k hk => hsame _ ?_
    rw [toNat_entry v (List.mem_range.mp hk).le, hstart, hlength]
    have := List.mem_range.mp hk
    omega

/-- It writes to no other part of the kernel. -/
theorem keeps_setIDTEntry {vec : UInt8} {handler : UInt64} {selector : UInt16} {flags : UInt8}
    {mem : Memory} {p : Part} (hp : p ≠ .idt) :
    K.Keeps p mem (K.setIDTEntry vec handler selector flags mem) := by
  have hlength := length_image (idtEntry handler selector flags)
  have hfits := K.fits .idt
  change K.idt.toNat + 256 * 16 ≤ _ at hfits
  have hvec := vec.toNat_lt
  have hstart := toNat_entry (K := K) vec (k := 0) (by decide)
  rw [show UInt64.ofNat 0 = 0 from rfl, UInt64.add_zero] at hstart
  have hsame : SameOutside _ _ mem (K.setIDTEntry vec handler selector flags mem) :=
    sameOutside_writeBytes (by omega)
  refine keeps_of_sameOutside hsame (q := .idt) ?_ ?_ hp
  · change K.idt.toNat ≤ _
    omega
  · change _ ≤ K.idt.toNat + 256 * 16
    omega

/-! ### The GDT and the TSS -/

/-- The two words of the descriptor for the TSS. -/
def tssDescriptor (K : Image) : UInt64 × UInt64 :=
  encodeTSSDescriptor K.cpuTSS (.ofNat (tssSize - 1))

/-- The memory when `InitGDTAndTSS` loads the GDT. -/
def tablesMemory (K : Image) (mem : Memory) : Memory :=
  K.setTSSDescriptor K.cpuTSS (.ofNat (tssSize - 1)) <|
    setRSP0 K.cpuTSS K.defaultKernelTrapStackTop <|
      setIomapBase K.cpuTSS (.ofNat tssSize) <| K.initGDT mem

/-- An address in the GDT does not wrap. -/
theorem toNat_gdt {k : ℕ} (hk : k ≤ 56) : (K.gdt + .ofNat k).toNat = K.gdt.toNat + k := by
  have hfits := K.fits .gdt
  change K.gdt.toNat + 7 * 8 ≤ _ at hfits
  exact toNat_add_ofNat (by omega)

/-- An address in the TSS does not wrap. -/
theorem toNat_cpuTSS {k : ℕ} (hk : k ≤ 104) :
    (K.cpuTSS + .ofNat k).toNat = K.cpuTSS.toNat + k := by
  have hfits := K.fits .cpuTSS
  change K.cpuTSS.toNat + 104 ≤ _ at hfits
  exact toNat_add_ofNat (by omega)

/-- The GDT and the TSS do not overlap. -/
theorem gdt_apart_cpuTSS :
    K.gdt.toNat + 56 ≤ K.cpuTSS.toNat ∨ K.cpuTSS.toNat + 104 ≤ K.gdt.toNat :=
  K.apart .gdt .cpuTSS (by decide)

/-- A word of the GDT is not in the TSS. -/
theorem load_gdt_put {k : ℕ} (hk : k + 8 ≤ 56) {off : ℕ} {bs : List UInt8}
    (hoff : off + bs.length ≤ 104) (mem : Memory) :
    load (K.gdt + .ofNat k) (writeBytes (K.cpuTSS + .ofNat off) bs mem) =
      load (K.gdt + .ofNat k) mem := by
  have hgdt := toNat_gdt (K := K) (k := k) (by omega)
  have htss := toNat_cpuTSS (K := K) (k := off) (by omega)
  have hfits := K.fits .cpuTSS
  change K.cpuTSS.toNat + 104 ≤ _ at hfits
  have hfits' := K.fits .gdt
  change K.gdt.toNat + 7 * 8 ≤ _ at hfits'
  have hapart := gdt_apart_cpuTSS (K := K)
  exact (sameOutside_writeBytes (by omega)).load_eq (by omega) (by omega)

/-- The words of the GDT, and `RSP0` in the TSS. -/
theorem load_tablesMemory (mem : Memory) :
    load (K.gdt + .ofNat 8) (K.tablesMemory mem) = kernelCodeDescriptor ∧
    load (K.gdt + .ofNat 16) (K.tablesMemory mem) = kernelDataDescriptor ∧
    load (K.gdt + .ofNat 24) (K.tablesMemory mem) = userCodeDescriptor ∧
    load (K.gdt + .ofNat 32) (K.tablesMemory mem) = userDataDescriptor ∧
    load (K.gdt + .ofNat 40) (K.tablesMemory mem) = K.tssDescriptor.1 ∧
    load (K.gdt + .ofNat 48) (K.tablesMemory mem) = K.tssDescriptor.2 ∧
    load (K.cpuTSS + .ofNat 4) (K.tablesMemory mem) = K.defaultKernelTrapStackTop := by
  have hfits := K.fits .gdt
  change K.gdt.toNat + 7 * 8 ≤ _ at hfits
  have hfits' := K.fits .cpuTSS
  change K.cpuTSS.toNat + 104 ≤ _ at hfits'
  have hapart := gdt_apart_cpuTSS (K := K)
  have h8 := toNat_gdt (K := K) (k := 8) (by decide)
  have h16 := toNat_gdt (K := K) (k := 16) (by decide)
  have h24 := toNat_gdt (K := K) (k := 24) (by decide)
  have h32 := toNat_gdt (K := K) (k := 32) (by decide)
  have h40 := toNat_gdt (K := K) (k := 40) (by decide)
  have h48 := toNat_gdt (K := K) (k := 48) (by decide)
  have h4 := toNat_cpuTSS (K := K) (k := 4) (by decide)
  simp only [tablesMemory, setTSSDescriptor, setRSP0, setIomapBase, put64, put16, initGDT]
  rw [← tssDescriptor]
  generalize K.tssDescriptor = descriptor
  refine ⟨?_, ?_, ?_, ?_, ?_, ?_, ?_⟩
  iterate 4
    · simp (disch := first | omega | simp) only [load_store_of_disjoint, load_store_self,
        load_gdt_put]
  · simp (disch := omega) only [load_store_of_disjoint, load_store_self]
  · rw [load_store_self]
  · simp (disch := omega) only [load_store_of_disjoint]
    have hvalue := value_bytes (n := 8) K.defaultKernelTrapStackTop.toNat_lt
    rw [word_bytes, (holds_writeBytes (by rw [length_bytes]; decide)).load_eq (length_bytes 8 _),
      hvalue, UInt64.ofNat_toNat]

/-- Setting a descriptor writes to no other part of the kernel. -/
theorem keeps_store_gdt {k : ℕ} (hk : k + 8 ≤ 56) {w : UInt64} {mem : Memory} {p : Part}
    (hp : p ≠ .gdt) : K.Keeps p mem (store (K.gdt + .ofNat k) w mem) := by
  have hgdt := toNat_gdt (K := K) (k := k) (by omega)
  have hfits := K.fits .gdt
  change K.gdt.toNat + 7 * 8 ≤ _ at hfits
  refine keeps_of_sameOutside (sameOutside_store (by omega)) (q := .gdt) ?_ ?_ hp
  · change K.gdt.toNat ≤ _
    omega
  · change _ ≤ K.gdt.toNat + 7 * 8
    omega

/-- Setting a field of the TSS writes to no other part of the kernel. -/
theorem keeps_put {off : ℕ} {bs : List UInt8} (hoff : off + bs.length ≤ 104) {mem : Memory}
    {p : Part} (hp : p ≠ .cpuTSS) : K.Keeps p mem (writeBytes (K.cpuTSS + .ofNat off) bs mem) := by
  have htss := toNat_cpuTSS (K := K) (k := off) (by omega)
  have hfits := K.fits .cpuTSS
  change K.cpuTSS.toNat + 104 ≤ _ at hfits
  refine keeps_of_sameOutside (sameOutside_writeBytes (by omega)) (q := .cpuTSS) ?_ ?_ hp
  · change K.cpuTSS.toNat ≤ _
    omega
  · change _ ≤ K.cpuTSS.toNat + 104
    omega

/-- Building the two tables writes to no other part of the kernel. -/
theorem keeps_tablesMemory {mem : Memory} {p : Part} (hgdt : p ≠ .gdt) (htss : p ≠ .cpuTSS) :
    K.Keeps p mem (K.tablesMemory mem) := by
  have hfirst : K.Keeps p mem (store K.gdt 0 mem) := by
    have hstore : K.Keeps p mem (store (K.gdt + .ofNat 0) 0 mem) :=
      keeps_store_gdt (by decide) hgdt
    simpa using hstore
  have hinit : K.Keeps p mem (K.initGDT mem) :=
    (((hfirst.trans (keeps_store_gdt (by decide) hgdt)).trans
      (keeps_store_gdt (by decide) hgdt)).trans (keeps_store_gdt (by decide) hgdt)).trans
      (keeps_store_gdt (by decide) hgdt)
  have hrsp0 : K.Keeps p mem (setRSP0 K.cpuTSS K.defaultKernelTrapStackTop
      (setIomapBase K.cpuTSS (.ofNat tssSize) (K.initGDT mem))) :=
    (hinit.trans (keeps_put (show 102 + 2 ≤ 104 by decide) htss)).trans
      (keeps_put (show 4 + 8 ≤ 104 by decide) htss)
  exact (hrsp0.trans (keeps_store_gdt (by decide) hgdt)).trans (keeps_store_gdt (by decide) hgdt)

/-- `InitGDTAndTSS` does not fault. -/
theorem initGDTAndTSS_eq (c : Core) :
    K.initGDTAndTSS c = .ok
      { c with
        mem := store (K.gdt + .ofNat 40) (K.tssDescriptor.1 ||| 0x20000000000)
          (K.tablesMemory c.mem)
        seg := fun s => if s = .cs then c.seg .cs else kernelDataSelector
        gdtr := ⟨K.gdt, 55⟩
        tssBase := K.cpuTSS } := by
  obtain ⟨-, -, -, -, hlow, hhigh, -⟩ := load_tablesMemory (K := K) c.mem
  obtain ⟨hbase, htype, hpresent⟩ := bits_encodeTSSDescriptor K.cpuTSS (.ofNat (tssSize - 1))
  rw [← tssDescriptor] at hbase htype hpresent
  have hnext : K.gdt + .ofNat (8 * 5) + 8 = K.gdt + .ofNat 48 := by
    rw [UInt64.add_assoc]
    rfl
  have hgdtr : TableRegister.ofPacked (packGDTR (.ofNat (7 * 8 - 1)) K.gdt) = ⟨K.gdt, 55⟩ :=
    ofPacked_packTable _ _
  have hltr := Core.ltr_eq
    (c := { c with
      mem := K.tablesMemory c.mem
      seg := fun s => if s = .cs then c.seg .cs else kernelDataSelector
      gdtr := ⟨K.gdt, 55⟩ })
    (show tssSelector.toNat / 8 = 5 from rfl) (by decide) rfl (show 8 * 5 + 15 ≤ 55 by decide) hlow
    ((congrArg (load · (K.tablesMemory c.mem)) hnext).trans hhigh) htype hpresent
  rw [hbase] at hltr
  simp only [initGDTAndTSS, loadDataSegments, hgdtr]
  exact hltr

/-- What `InitGDTAndTSS` leaves. -/
structure SegmentsLoaded (K : Image) (c c' : Core) : Prop where
  gdtr : c'.gdtr = ⟨K.gdt, 55⟩
  tssBase : c'.tssBase = K.cpuTSS
  cs : c'.seg .cs = c.seg .cs
  kernelCode : load (K.gdt + .ofNat 8) c'.mem = kernelCodeDescriptor
  kernelData : load (K.gdt + .ofNat 16) c'.mem = kernelDataDescriptor
  userCode : load (K.gdt + .ofNat 24) c'.mem = userCodeDescriptor
  userData : load (K.gdt + .ofNat 32) c'.mem = userDataDescriptor
  rsp0 : load (K.cpuTSS + .ofNat 4) c'.mem = K.defaultKernelTrapStackTop
  keeps : ∀ p, p ≠ .gdt → p ≠ .cpuTSS → K.Keeps p c.mem c'.mem

/-- `InitGDTAndTSS` loads its segments without a fault. -/
theorem segmentsLoaded_initGDTAndTSS (c : Core) :
    ∃ c', K.initGDTAndTSS c = .ok c' ∧ SegmentsLoaded K c c' := by
  obtain ⟨hcode, hdata, hucode, hudata, -, -, hrsp0⟩ := load_tablesMemory (K := K) c.mem
  have hfits := K.fits .gdt
  change K.gdt.toNat + 7 * 8 ≤ _ at hfits
  -- `ltr` writes to the descriptor of the TSS only
  have hltr : ∀ k ≤ 32, load (K.gdt + .ofNat k) (store (K.gdt + .ofNat 40)
      (K.tssDescriptor.1 ||| 0x20000000000) (K.tablesMemory c.mem)) =
        load (K.gdt + .ofNat k) (K.tablesMemory c.mem) := by
    intro k hk
    have h40 := toNat_gdt (K := K) (k := 40) (by decide)
    have hk' := toNat_gdt (K := K) (k := k) (by omega)
    exact load_store_of_disjoint (by omega) (by omega) (by omega)
  have hkept : K.Keeps .cpuTSS (K.tablesMemory c.mem) (store (K.gdt + .ofNat 40)
      (K.tssDescriptor.1 ||| 0x20000000000) (K.tablesMemory c.mem)) :=
    keeps_store_gdt (by decide) (by decide)
  refine ⟨_, initGDTAndTSS_eq c, rfl, rfl, rfl, (hltr 8 (by decide)).trans hcode,
    (hltr 16 (by decide)).trans hdata, (hltr 24 (by decide)).trans hucode,
    (hltr 32 (by decide)).trans hudata, (hkept.load_eq (show 4 + 8 ≤ 104 by decide)).trans hrsp0,
    fun p hgdt htss => ?_⟩
  exact (keeps_tablesMemory hgdt htss).trans (keeps_store_gdt (by decide) hgdt)

/-- The IDT before `InitIDT`, as the boot code leaves it. -/
theorem entryAt_zero {mem : Memory} (h : ∀ a, K.In .idt a → mem a = 0) (v : UInt8) :
    K.entryAt mem v = List.replicate 16 0 := by
  have hv := v.toNat_lt
  refine List.ext_getElem (by simp [entryAt]) fun k hk hk' => ?_
  rw [List.length_replicate] at hk'
  rw [List.getElem_replicate]
  simp only [entryAt, LittleEndian.load, List.getElem_map, List.getElem_range]
  refine h _ ?_
  change K.idt.toNat ≤ _ ∧ _ < K.idt.toNat + 256 * 16
  rw [toNat_entry v hk'.le]
  omega

/-- The entries that `InitIDT` writes, and no others. -/
theorem entryAt_initIDT {c : Core} (hcs : c.seg .cs = kernelCodeSelector)
    (hzero : ∀ a, K.In .idt a → c.mem a = 0) (v : UInt8) :
    K.entryAt (K.initIDT c).mem v =
      match vectorStub v with
      | some s => (idtEntry (K.stub s) kernelCodeSelector
          (if v = 0x80 then intGateUserFlags else intGateKernelFlags)).image
      | none => List.replicate 16 0 := by
  simp only [initIDT, hcs, entryAt_setIDTEntry, entryAt_zero hzero, vectorStub]
  by_cases h08 : v = 0x08
  · simp [h08]
  by_cases h0D : v = 0x0D
  · simp [h0D]
  by_cases h0E : v = 0x0E
  · simp [h0E]
  by_cases h20 : v = 0x20
  · simp [h20]
  by_cases h21 : v = 0x21
  · simp [h21]
  by_cases h80 : v = 0x80
  · simp [h80]
  simp [h08, h0D, h0E, h20, h21, h80]

/-- After `InitIDT` the gates of the processor are those of the kernel. -/
theorem gate_initIDT {c : Core} (hcs : c.seg .cs = kernelCodeSelector)
    (hzero : ∀ a, K.In .idt a → c.mem a = 0) (v : UInt8) : (K.initIDT c).gate v = K.gate v := by
  have hidtr : (K.initIDT c).idtr = ⟨K.idt, 4095⟩ := ofPacked_packTable _ _
  have hlength : (K.entryAt (K.initIDT c).mem v).length = 16 := by simp [entryAt]
  have hholds : Holds (K.initIDT c).mem (K.idt + .ofNat (16 * v.toNat))
      (K.entryAt (K.initIDT c).mem v) := by
    rw [Holds, hlength]
    rfl
  rw [Core.gate, hidtr, gateOf_load hlength hholds, entryAt_initIDT hcs hzero, gate]
  cases vectorStub v with
  | none => exact (by decide : gateOfBytes (List.replicate 16 0) = ⟨0, 0, 0, 0, 0, false⟩)
  | some s =>
    simp only [gateOfBytes_idtEntry]
    split
    · rfl
    · rfl

/-- `InitIDT` writes to the IDT only. -/
theorem keeps_initIDT {p : Part} (hp : p ≠ .idt) (c : Core) : K.Keeps p c.mem (K.initIDT c).mem :=
  (((((keeps_setIDTEntry hp).trans (keeps_setIDTEntry hp)).trans (keeps_setIDTEntry hp)).trans
    (keeps_setIDTEntry hp)).trans (keeps_setIDTEntry hp)).trans (keeps_setIDTEntry hp)

/-- The registers that `syscall` uses. -/
theorem msr_initSyscall (c : Core) :
    bits 32 16 ((K.initSyscall c).msr msrSTAR) = 8 ∧
      (K.initSyscall c).msr msrLSTAR = K.stub .syscallEntry ∧
      (K.initSyscall c).msr msrSFMASK = interruptFlag ∧
      bits 0 1 ((K.initSyscall c).msr msrEFER) = 1 := by
  simp only [initSyscall]
  refine ⟨?_, ?_, ?_, ?_⟩
  · rw [Function.update_of_ne (by decide), Function.update_of_ne (by decide),
      Function.update_of_ne (by decide), Function.update_self]
    decide
  · rw [Function.update_of_ne (by decide), Function.update_of_ne (by decide), Function.update_self]
  · rw [Function.update_of_ne (by decide), Function.update_self]
    decide
  · rw [Function.update_self, bits, enableSCE, UInt64.toNat_or]
    have hbit : ∀ x : ℕ, (x ||| 1) / 2 ^ 0 % 2 ^ 1 = 1 := by
      intro x
      rw [pow_zero, Nat.div_one, pow_one, Nat.or_mod_two_eq_one]
      exact .inr rfl
    exact hbit _

end Image

/-- The first calls of `Main` set up what the processor needs, from any memory with a blank IDT. -/
theorem configured_initTables (K : Image) (c : Core) (hcs : c.seg .cs = kernelCodeSelector)
    (hzero : ∀ a, K.In .idt a → c.mem a = 0) :
    ∃ c', K.initTables c = .ok c' ∧ Configured K c' ∧
      ∀ p, p ≠ .idt → p ≠ .gdt → p ≠ .cpuTSS → K.Keeps p c.mem c'.mem := by
  obtain ⟨c₁, hinit, h⟩ := Image.segmentsLoaded_initGDTAndTSS (K := K) c
  have hidt : ∀ p, p ≠ .idt → K.Keeps p c₁.mem (K.initIDT (K.initSyscall c₁)).mem := fun p hp =>
    Image.keeps_initIDT hp _
  have hgdt : ∀ k, k + 8 ≤ 56 → load (K.gdt + .ofNat k) (K.initIDT (K.initSyscall c₁)).mem =
      load (K.gdt + .ofNat k) c₁.mem := fun k hk => (hidt .gdt (by decide)).load_eq hk
  have htss := (hidt .cpuTSS (by decide)).load_eq (show 4 + 8 ≤ 104 by decide)
  have hgate := Image.gate_initIDT (K := K) (c := K.initSyscall c₁) (h.cs.trans hcs) fun a ha =>
    (h.keeps .idt (by decide) (by decide) a ha).trans (hzero a ha)
  obtain ⟨hstar, hlstar, hsfmask, hsce⟩ := Image.msr_initSyscall (K := K) c₁
  refine ⟨K.initIDT (K.initSyscall c₁), ?_, ?_, fun p hidt' hgdt' htss' =>
    (h.keeps p hgdt' htss').trans (hidt p hidt')⟩
  · rw [Image.initTables, hinit]
    rfl
  · exact
      { idtr := ofPacked_packTable _ _
        gdtr := h.gdtr
        tssBase := h.tssBase
        gate := hgate
        kernelCode := (hgdt 8 (by decide)).trans h.kernelCode
        kernelData := (hgdt 16 (by decide)).trans h.kernelData
        userCode := (hgdt 24 (by decide)).trans h.userCode
        userData := (hgdt 32 (by decide)).trans h.userData
        rsp0 := htss.trans h.rsp0
        star := hstar
        lstar := hlstar
        sfmask := hsfmask
        sce := hsce }

end DavOS.Kernel
