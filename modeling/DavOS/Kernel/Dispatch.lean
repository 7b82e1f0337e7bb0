import DavOS.Agent.Planner
import DavOS.Kernel.UserWindow
import DavOS.Terminal.Format

/-!
# System calls

Reference: `kernel/syscall/dispatch.go` and `kernel/syscall/abi.go`.

The state is the memory, the static buffer of `sysWrite` and the terminal, which is the list of the
bytes given to `terminal.PutRune`. The addresses that a call reads through a pointer of the user are
written down in `reads`, which no code looks at. Closures that the kernel hands to `Dispatch` may do
anything to the state, and a `nil` closure is `none`.
-/

namespace DavOS.Kernel

open DavOS.Agent (ascii)

abbrev maxSysWriteBytes : ℕ := 4096

/-- `^uint64(0)` -/
abbrev syscallError : UInt64 := ~~~0

def sysWriteNumber : UInt32 := 1

def sysExitNumber : UInt32 := 2

def sysGetTicksNumber : UInt32 := 3

structure TrapFrame where
  r15 : UInt64
  r14 : UInt64
  r13 : UInt64
  r12 : UInt64
  r11 : UInt64
  r10 : UInt64
  r9 : UInt64
  r8 : UInt64
  rdi : UInt64
  rsi : UInt64
  rbp : UInt64
  rbx : UInt64
  rdx : UInt64
  rcx : UInt64
  rax : UInt64
  errorCode : UInt64
  rip : UInt64
  cs : UInt64
  rflags : UInt64
  rsp : UInt64
  ss : UInt64

structure SysState where
  memory : UInt64 → UInt8
  sysWriteBuffer : Vector UInt8 maxSysWriteBytes
  output : List UInt8
  reads : List UInt64

namespace SysState

/-- `terminal.PutRune`, for a byte. -/
def putRune (b : UInt8) (sys : SysState) : SysState := { sys with output := sys.output ++ [b] }

/-- `terminal.Print` -/
def print (text : List UInt8) (sys : SysState) : SysState :=
  { sys with output := sys.output ++ text }

/-- `terminal.PrintInt` -/
def printInt (v : Int64) (sys : SysState) : SysState :=
  match Terminal.formatInt v with
  | some s => sys.print s.text
  | none => sys

/-- `dst[i] = *userPtr` -/
def copyByte (i : ℕ) (userPtr : UInt64) (sys : SysState) : SysState :=
  { sys with
    sysWriteBuffer := sys.sysWriteBuffer.set! i (sys.memory userPtr)
    reads := sys.reads ++ [userPtr] }

/-- The loop of `copyFromUserBytes`. -/
def copyLoop (userPtr : UInt64) : ℕ → SysState → SysState
  | 0, sys => sys
  | n + 1, sys => (copyLoop userPtr n sys).copyByte n (userPtr + UInt64.ofNat n)

/-- `copyFromUserBytes(&sysWriteBuffer, count, userPtr)` -/
def copyFromUserBytes (count : ℤ) (userPtr : UInt64) (sys : SysState) : Bool × SysState :=
  if count < 0 ∨ count > maxSysWriteBytes then (false, sys)
  else if ¬ validUserRange userPtr (UInt64.ofNat count.toNat) then (false, sys)
  else (true, sys.copyLoop userPtr count.toNat)

/-- The loop of `sysWriteWithCopier`. -/
def putLoop : ℕ → SysState → SysState
  | 0, sys => sys
  | n + 1, sys =>
    let sys := putLoop n sys
    sys.putRune sys.sysWriteBuffer[n]!

def sysWriteWithCopier (fd buf n : UInt64) (copier : ℤ → UInt64 → SysState → Bool × SysState)
    (sys : SysState) : UInt64 × SysState :=
  if fd ≠ 1 then (syscallError, sys)
  else if n = 0 then (0, sys)
  else
    let n := if n > UInt64.ofNat maxSysWriteBytes then UInt64.ofNat maxSysWriteBytes else n
    let count := n.toNat
    let (copied, sys) := copier count buf sys
    if ¬ copied then (syscallError, sys)
    else (n, sys.putLoop count)

def sysWrite (fd buf n : UInt64) (sys : SysState) : UInt64 × SysState :=
  sysWriteWithCopier fd buf n copyFromUserBytes sys

end SysState

/-- The last two arguments of `Dispatch`. -/
structure Hooks where
  getTicks : Option (SysState → UInt64 × SysState)
  returnToKernel : Option (SysState → SysState)

/-- `Dispatch`: the trap frame and the state afterwards. -/
def dispatch (hooks : Hooks) (tf : TrapFrame) (sys : SysState) : TrapFrame × SysState :=
  let number := tf.rax.toUInt32
  if number = sysWriteNumber then
    let (rax, sys) := sys.sysWrite tf.rdi tf.rsi tf.rdx
    ({ tf with rax }, sys)
  else if number = sysExitNumber then
    let status := tf.rdi.toInt64
    if tf.cs &&& 3 = 3 then
      let sys := ((sys.print (ascii "Process exited with status ")).printInt status).print
        (ascii "\n")
      match hooks.returnToKernel with
      | some f => (tf, f sys)
      | none => (tf, sys)
    else
      let sys := ((sys.print (ascii "kernel-mode SYS_EXIT rejected (status ")).printInt
        status).print (ascii ")\n")
      ({ tf with rax := syscallError }, sys)
  else if number = sysGetTicksNumber then
    match hooks.getTicks with
    | none => ({ tf with rax := 0 }, sys)
    | some f =>
      let (ticks, sys) := f sys
      ({ tf with rax := ticks }, sys)
  else ({ tf with rax := syscallError }, sys.print (ascii "unknown syscall\n"))

namespace SysState

/-! ## The two loops -/

/-- The first loop reads the `n` bytes behind the pointer, and stores them at the start of the
buffer. -/
theorem copyLoop_spec (userPtr : UInt64) {n : ℕ} (hn : n ≤ maxSysWriteBytes) (sys : SysState) :
    (sys.copyLoop userPtr n).memory = sys.memory ∧
    (sys.copyLoop userPtr n).output = sys.output ∧
    (sys.copyLoop userPtr n).reads =
      sys.reads ++ (List.range n).map (userPtr + UInt64.ofNat ·) ∧
    ∀ i < n, (sys.copyLoop userPtr n).sysWriteBuffer[i]! =
      sys.memory (userPtr + UInt64.ofNat i) := by
  induction n with
  | zero => simp [copyLoop]
  | succ n ih =>
    obtain ⟨hmemory, houtput, hreads, hbuffer⟩ := ih (Nat.le_of_succ_le hn)
    refine ⟨hmemory, houtput, ?_, ?_⟩
    · simp only [copyLoop, copyByte, hreads]
      rw [List.range_succ, List.map_append, List.append_assoc]
      rfl
    · intro i hi
      have hstored : (sys.copyLoop userPtr (n + 1)).sysWriteBuffer[i]! =
          if i = n then sys.memory (userPtr + UInt64.ofNat n)
          else (sys.copyLoop userPtr n).sysWriteBuffer[i]! := by
        have hlt : i < maxSysWriteBytes := by omega
        simp only [copyLoop, copyByte, hmemory, Vector.set!_eq_setIfInBounds]
        rw [getElem!_pos _ i hlt, getElem!_pos _ i hlt, Vector.getElem_setIfInBounds hlt]
        simp only [eq_comm]
      rw [hstored]
      split
      case isTrue h => rw [h]
      case isFalse h => exact hbuffer i (by omega)

/-- The second loop prints the start of the buffer. -/
theorem putLoop_spec (n : ℕ) (sys : SysState) :
    sys.putLoop n =
      { sys with output := sys.output ++ (List.range n).map (sys.sysWriteBuffer[·]!) } := by
  induction n with
  | zero => simp [putLoop]
  | succ n ih =>
    rw [putLoop, ih, putRune, List.range_succ, List.map_append, ← List.append_assoc]
    rfl

/-! ## `sysWrite` -/

variable {fd buf n : UInt64}

/-- The number of bytes that a call asks for, and gets at most. -/
def clampCount (n : UInt64) : ℕ := min n.toNat maxSysWriteBytes

/-- `[buf, buf + count)` lies in the user window. -/
def InWindow (buf : UInt64) (count : ℕ) : Prop :=
  userVAStart.toNat ≤ buf.toNat ∧ buf.toNat + count ≤ userVAEnd.toNat

/-- The addresses of a buffer in the window do not wrap around. -/
theorem InWindow.address {buf : UInt64} {count i : ℕ} (h : InWindow buf count) (hi : i < count) :
    userVAStart ≤ buf + UInt64.ofNat i ∧ buf + UInt64.ofNat i < userVAEnd := by
  obtain ⟨hlow, hhigh⟩ := h
  have hend : userVAEnd.toNat = 0x40002000 := rfl
  have hadd : (buf + UInt64.ofNat i).toNat = buf.toNat + i := by
    rw [UInt64.toNat_add, UInt64.toNat_ofNat', Nat.mod_eq_of_lt (a := i) (by omega),
      Nat.mod_eq_of_lt (by omega)]
  rw [UInt64.le_iff_toNat_le, UInt64.lt_iff_toNat_lt, hadd]
  omega

/-- Bytes are copied exactly if they are in the user window. -/
theorem copyFromUserBytes_spec {count : ℕ} (hpos : 0 < count) (hcount : count ≤ maxSysWriteBytes)
    (buf : UInt64) (sys : SysState) :
    InWindow buf count ∧ sys.copyFromUserBytes count buf = (true, sys.copyLoop buf count) ∨
      ¬InWindow buf count ∧ sys.copyFromUserBytes count buf = (false, sys) := by
  have hnat : (UInt64.ofNat count).toNat = count := UInt64.toNat_ofNat_of_lt'
    (lt_of_le_of_lt hcount (by decide))
  have hlength : 0 < UInt64.ofNat count := UInt64.lt_iff_toNat_lt.mpr (by rwa [hnat])
  have hvalid : validUserRange buf (UInt64.ofNat count) = true ↔ InWindow buf count := by
    rw [validUserRange_iff hlength, hnat]
    rfl
  rw [copyFromUserBytes, if_neg (by omega), Int.toNat_natCast]
  by_cases hwindow : InWindow buf count
  · exact .inl ⟨hwindow, if_neg (not_not.mpr (hvalid.mpr hwindow))⟩
  · exact .inr ⟨hwindow, if_pos (mt hvalid.mp hwindow)⟩

/-- The count is cut to the size of the buffer. -/
theorem ofNat_clampCount (n : UInt64) :
    (if n > UInt64.ofNat maxSysWriteBytes then UInt64.ofNat maxSysWriteBytes else n) =
      UInt64.ofNat (clampCount n) := by
  have hmax : (UInt64.ofNat maxSysWriteBytes).toNat = maxSysWriteBytes := rfl
  rw [clampCount]
  split
  case isTrue h =>
    rw [min_eq_right (hmax ▸ (UInt64.lt_iff_toNat_lt.mp h).le)]
  case isFalse h =>
    rw [min_eq_left (hmax ▸ UInt64.le_iff_toNat_le.mp (UInt64.not_lt.mp h)), UInt64.ofNat_toNat]

/-- The cut count is a number of bytes that does not wrap. -/
theorem toNat_clampCount (n : UInt64) : (UInt64.ofNat (clampCount n)).toNat = clampCount n :=
  UInt64.toNat_ofNat_of_lt' (lt_of_le_of_lt (min_le_right _ _) (by decide))

/-- **What `sysWrite` does**: an error, an empty write, or a write of bytes of the window. -/
inductive Wrote (fd buf n : UInt64) (sys : SysState) : UInt64 × SysState → Prop
  | refused (h : fd ≠ 1 ∨ clampCount n ≠ 0 ∧ ¬InWindow buf (clampCount n)) :
      Wrote fd buf n sys (syscallError, sys)
  | empty (hfd : fd = 1) (hn : clampCount n = 0) : Wrote fd buf n sys (0, sys)
  | written {sys' : SysState} (hfd : fd = 1) (hn : clampCount n ≠ 0)
      (hbuf : InWindow buf (clampCount n))
      (hmemory : sys'.memory = sys.memory)
      (hreads : sys'.reads =
        sys.reads ++ (List.range (clampCount n)).map (buf + UInt64.ofNat ·))
      (houtput : sys'.output =
        sys.output ++ (List.range (clampCount n)).map fun i => sys.memory (buf + UInt64.ofNat i)) :
      Wrote fd buf n sys (UInt64.ofNat (clampCount n), sys')

/-- All ends of `sysWrite`. -/
theorem wrote_sysWrite (fd buf n : UInt64) (sys : SysState) :
    Wrote fd buf n sys (sys.sysWrite fd buf n) := by
  rw [sysWrite, sysWriteWithCopier]
  by_cases hfd : fd = 1
  swap
  · rw [if_pos hfd]
    exact .refused (.inl hfd)
  rw [if_neg (not_not.mpr hfd)]
  by_cases hn : n = 0
  · rw [if_pos hn]
    exact .empty hfd (by rw [hn]; rfl)
  have hpos : 0 < clampCount n := by
    have hne : n.toNat ≠ 0 := fun h => hn (UInt64.toNat_inj.mp h)
    exact lt_min (Nat.pos_of_ne_zero hne) (by decide)
  have hle : clampCount n ≤ maxSysWriteBytes := min_le_right _ _
  simp only [if_neg hn, ofNat_clampCount, toNat_clampCount]
  obtain ⟨hwindow, hcopy⟩ | ⟨hwindow, hcopy⟩ := copyFromUserBytes_spec hpos hle buf sys
  · obtain ⟨hmemory, houtput, hreads, hbuffer⟩ := copyLoop_spec buf hle sys
    rw [hcopy]
    dsimp only
    rw [if_neg (by decide), putLoop_spec]
    refine .written hfd hpos.ne' hwindow hmemory hreads ?_
    rw [houtput]
    refine congrArg _ (List.map_congr_left fun i hi => ?_)
    exact hbuffer i (List.mem_range.mp hi)
  · rw [hcopy]
    dsimp only
    rw [if_pos (by decide)]
    exact .refused (.inr ⟨hpos.ne', hwindow⟩)

end SysState

open SysState in
/-- **`SYS_WRITE` does not leak kernel memory.** It reads user memory inside the window only. A
write to descriptor 1 prints the bytes of the buffer, at most 4096 of them, and returns their
number; if the buffer does not lie in the window or the descriptor is another one, nothing is
printed and the call fails. Of the trap frame only `rax` changes. -/
theorem sys_write_stays_in_window (hooks : Hooks) (tf : TrapFrame) (sys : SysState)
    (hnumber : tf.rax.toUInt32 = sysWriteNumber) :
    let (tf', sys') := dispatch hooks tf sys
    let m := clampCount tf.rdx
    (∃ addresses, sys'.reads = sys.reads ++ addresses ∧
      ∀ a ∈ addresses, userVAStart ≤ a ∧ a < userVAEnd) ∧
    (tf.rdi = 1 → m = 0 → sys'.output = sys.output ∧ tf'.rax = 0) ∧
    (tf.rdi = 1 → m ≠ 0 → InWindow tf.rsi m →
      sys'.output = sys.output ++ (List.range m).map (sys.memory <| tf.rsi + UInt64.ofNat ·) ∧
        tf'.rax.toNat = m) ∧
    (¬(tf.rdi = 1 ∧ (m = 0 ∨ InWindow tf.rsi m)) →
      sys'.output = sys.output ∧ tf'.rax.toNat = 2 ^ 64 - 1) ∧
    tf' = { tf with rax := tf'.rax } ∧ sys'.memory = sys.memory := by
  have hdispatch : dispatch hooks tf sys =
      ({ tf with rax := (sys.sysWrite tf.rdi tf.rsi tf.rdx).1 },
        (sys.sysWrite tf.rdi tf.rsi tf.rdx).2) := by
    simp only [dispatch]
    rw [if_pos hnumber]
  have hwrote := wrote_sysWrite tf.rdi tf.rsi tf.rdx sys
  rw [hdispatch]
  generalize sys.sysWrite tf.rdi tf.rsi tf.rdx = r at hwrote
  cases hwrote with
  | refused h =>
    refine ⟨⟨[], (List.append_nil _).symm, by simp⟩, ?_, ?_, fun _ => ⟨rfl, rfl⟩, rfl, rfl⟩
    · intro hfd hm
      exact absurd hm (h.resolve_left (not_not.mpr hfd)).1
    · intro hfd _ hbuf
      exact absurd hbuf (h.resolve_left (not_not.mpr hfd)).2
  | empty hfd hn =>
    refine ⟨⟨[], (List.append_nil _).symm, by simp⟩, fun _ _ => ⟨rfl, rfl⟩, ?_, ?_, rfl, rfl⟩
    · intro _ hm
      exact absurd hn hm
    · intro hneither
      exact absurd ⟨hfd, .inl hn⟩ hneither
  | written hfd hn hbuf hmemory hreads houtput =>
    refine ⟨⟨_, hreads, ?_⟩, ?_, fun _ _ _ => ⟨houtput, toNat_clampCount _⟩, ?_, rfl, hmemory⟩
    · intro a ha
      obtain ⟨i, hi, rfl⟩ := List.mem_map.mp ha
      exact hbuf.address (List.mem_range.mp hi)
    · intro _ hm
      exact absurd hm hn
    · intro hneither
      exact absurd ⟨hfd, .inr hbuf⟩ hneither

/-- A program that writes the last two bytes of the window. -/
def lastBytesFrame : TrapFrame where
  r15 := 0
  r14 := 0
  r13 := 0
  r12 := 0
  r11 := 0
  r10 := 0
  r9 := 0
  r8 := 0
  rdi := 1
  rsi := 0x40001FFE
  rbp := 0
  rbx := 0
  rdx := 2
  rcx := 0
  rax := 1
  errorCode := 0
  rip := 0x40000000
  cs := 0x1B
  rflags := 0x202
  rsp := 0x40002000
  ss := 0x23

/-- Every byte of memory is the low byte of its address, and the buffer holds an earlier write. -/
def patternState : SysState where
  memory a := a.toUInt8
  sysWriteBuffer := Vector.replicate _ 0x53
  output := []
  reads := []

/-- The last two bytes of the window are printed. -/
theorem last_bytes_printed :
    (dispatch ⟨none, none⟩ lastBytesFrame patternState).2.output = [0xFE, 0xFF] ∧
      (dispatch ⟨none, none⟩ lastBytesFrame patternState).1.rax.toNat = 2 := by
  obtain ⟨-, -, hwrite, -⟩ :=
    sys_write_stays_in_window ⟨none, none⟩ lastBytesFrame patternState (by decide)
  obtain ⟨houtput, hrax⟩ := hwrite rfl (by decide) ⟨by decide, by decide⟩
  exact ⟨houtput.trans (by decide), hrax⟩

end DavOS.Kernel
