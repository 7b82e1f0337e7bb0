import DavOS.Boot.AddressSpace

/-!
# The user window

Reference: `kernel/syscall/dispatch.go`.

A system call that is given a buffer checks it against two constants. The check says of a buffer
that is not empty exactly what the page tables say: that the user program could read every byte of
it itself (`isolation_agrees_with_validUserRange`).
-/

namespace DavOS.Kernel

open DavOS.Boot Paging

abbrev userVAStart : UInt64 := 0x40000000

abbrev userVAEnd : UInt64 := 0x40002000

def validUserRange (start length : UInt64) : Bool :=
  if length = 0 then true
  else if start < userVAStart ∨ start ≥ userVAEnd then false
  else length ≤ userVAEnd - userVAStart ∧ start ≤ userVAEnd - length

/-- The subtractions do not wrap around, so the range lies in the window. -/
theorem validUserRange_iff {start length : UInt64} (hlength : 0 < length) :
    validUserRange start length = true ↔
      userVAStart.toNat ≤ start.toNat ∧ start.toNat + length.toNat ≤ userVAEnd.toNat := by
  have hpos : 0 < length.toNat := UInt64.lt_iff_toNat_lt.mp hlength
  have hne : length ≠ 0 := (UInt64.ne_of_lt hlength).symm
  have hsize : (userVAEnd - userVAStart).toNat = 0x2000 := by decide
  have hstart : userVAStart.toNat = 0x40000000 := rfl
  have hend : userVAEnd.toNat = 0x40002000 := rfl
  simp only [validUserRange, if_neg hne, ge_iff_le, UInt64.lt_iff_toNat_lt, UInt64.le_iff_toNat_le,
    hsize]
  by_cases hfits : length.toNat ≤ 0x2000
  · have hsub : (userVAEnd - length).toNat = 0x40002000 - length.toNat :=
      UInt64.toNat_sub_of_le _ _ (UInt64.le_iff_toNat_le.mpr (by omega))
    rw [hsub]
    split_ifs <;> simp <;> omega
  · split_ifs <;> simp <;> omega

/-- **The page tables and the check of the system calls agree.** Ring 3 reads the window and writes
its second page; everything else below 4 GiB is the supervisor's, mapped to itself, and nothing
above is mapped. The check accepts a buffer iff ring 3 can read all of it. -/
theorem isolation_agrees_with_validUserRange (sym : Symbols) (cpu : Machine)
    (hzero : ∀ t ∈ sym.tables, ∀ i < 4096, cpu.memory (t.toNat + i) = 0) :
    let booted := setupLongMode sym cpu
    (∀ va, Canonical va →
      (booted.UserReadable va ↔ userVAStart.toNat ≤ va ∧ va < userVAEnd.toNat)) ∧
    (∀ va, Canonical va → (booted.UserWritable va ↔ 0x40001000 ≤ va ∧ va < 0x40002000)) ∧
    (∀ va < 2 ^ 32, ¬ (userVAStart.toNat ≤ va ∧ va < userVAEnd.toNat) →
      booted.SupervisorIdentity va) ∧
    (∀ va, Canonical va → 2 ^ 32 ≤ va → booted.translate va = none) ∧
    ∀ start length : UInt64, 0 < length →
      (validUserRange start length = true ↔
        ∀ a : ℕ, start.toNat ≤ a → a < start.toNat + length.toNat → booted.UserReadable a) := by
  intro booted
  refine ⟨?_, ?_, ?_, ?_, ?_⟩
  · intro va _
    exact userReadable_iff sym cpu hzero va
  · intro va _
    exact userWritable_iff sym cpu hzero va
  · intro va hva hout
    exact (supervisorIdentity_iff sym cpu hzero va).mpr ⟨hva, hout⟩
  · intro va _ hva
    exact (translate_none_iff sym cpu hzero va).mpr hva
  · intro start length hlength
    have hpos : 0 < length.toNat := UInt64.lt_iff_toNat_lt.mp hlength
    have hstart : userVAStart.toNat = 0x40000000 := rfl
    have hend : userVAEnd.toNat = 0x40002000 := rfl
    simp only [booted, validUserRange_iff hlength, userReadable_iff sym cpu hzero]
    constructor
    · intro hrange a hlow hhigh
      omega
    · intro hall
      -- the first and the last byte are enough
      have hfirst := hall start.toNat le_rfl (by omega)
      have hlast := hall (start.toNat + length.toNat - 1) (by omega) (by omega)
      omega

/-- With these tables the check accepts the last byte of the window, and not the byte after it. -/
theorem imageSymbols_window :
    validUserRange 0x40001FFF 1 = true ∧
      (setupLongMode imageSymbols blankMachine).UserReadable 0x40001FFF ∧
      ¬ (setupLongMode imageSymbols blankMachine).UserReadable 0x40002000 := by
  obtain ⟨hread, -, -, -, -⟩ :=
    isolation_agrees_with_validUserRange imageSymbols blankMachine (fun _ _ _ _ => rfl)
  exact ⟨by decide, (hread _ (by decide)).mpr (by decide), fun h =>
    absurd ((hread _ (by decide)).mp h) (by decide)⟩

end DavOS.Kernel
