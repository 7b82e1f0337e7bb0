import DavOS.Shell.Commands
import DavOS.Shell.Confirmation
import DavOS.Terminal.Decimal

/-!
# Raw disk access

Reference: the branch `disk` of `execute` in `shell/shell.go`.

`disk write` reads its sector number as a decimal numeral where it can, `disk read` as a hexadecimal
one, and both report the number that they have read while the drive gets its lowest 28 bits.
`address_one_sector_iff` says for which tokens the two commands access the same sector, and the one
that they report. The last section says on which numbers all commands act.
-/

namespace DavOS.Shell

open Agent (ascii)

/-! ## The number that is reported -/

section Reported

open Terminal (digitByte decimal)

/-- With enough fuel `decDigits` puts the decimal digits of `u` in front of the text. -/
theorem decDigits_eq {fuel u : ℕ} (h : (Nat.digits 10 u).length ≤ fuel) (acc : List UInt8) :
    decDigits fuel u acc = ((Nat.digits 10 u).map digitByte).reverse ++ acc := by
  induction fuel generalizing u acc with
  | zero =>
    rw [List.length_eq_zero_iff.mp (Nat.le_zero.mp h)]
    rfl
  | succ fuel ih =>
    rw [decDigits]
    by_cases hpos : u > 0
    · have hdigits : Nat.digits 10 u = u % 10 :: Nat.digits 10 (u / 10) :=
        Nat.digits_def' (by decide) hpos
      rw [hdigits, List.length_cons] at h
      rw [if_pos hpos, ih (by omega), hdigits, List.map_cons, List.reverse_cons, List.append_assoc,
        List.singleton_append]
      rw [digitByte, UInt8.ofNat_add]
      rfl
    · obtain rfl : u = 0 := by omega
      rw [if_neg hpos]
      simp

/-- The upper half is zero exactly for numbers of 32 bits. -/
theorem shiftRight_eq_zero_iff (k : UInt64) : k >>> 32 = 0 ↔ k.toNat < 2 ^ 32 := by
  rw [← UInt64.toNat_inj, UInt64.toNat_shiftRight, Nat.shiftRight_eq_div_pow]
  change k.toNat / 2 ^ 32 = 0 ↔ _
  omega

/-- Numbers below `2 ^ 32` are printed in decimal. -/
theorem uintText_of_lt {k : UInt64} (h : k.toNat < 2 ^ 32) : uintText k = decimal k.toNat := by
  rw [uintText]
  by_cases hzero : k = 0
  · rw [if_pos hzero, hzero]
    decide
  have hpos : 0 < k.toNat := by
    rw [Nat.pos_iff_ne_zero]
    exact fun heq => hzero (UInt64.toNat_inj.mp heq)
  have hlen : (Nat.digits 10 k.toNat).length ≤ 10 :=
    (Nat.digits_length_le_iff (by decide) _).mpr (h.trans (by decide))
  rw [if_neg hzero, if_neg (not_not.mpr ((shiftRight_eq_zero_iff k).mpr h)), decDigits_eq hlen,
    List.append_nil, Terminal.decimal_of_pos (by omega), Int.natAbs_natCast]

/-- All others are printed with 16 hexadecimal digits. -/
theorem uintText_of_le {k : UInt64} (h : 2 ^ 32 ≤ k.toNat) :
    uintText k = ascii "0x" ++ hexText 16 k.toNat := by
  have hzero : k ≠ 0 := by
    rintro rfl
    exact absurd h (by decide)
  rw [uintText, if_neg hzero, if_pos (mt (shiftRight_eq_zero_iff k).mp (not_lt.mpr h))]

/-- The 16 digits are distinct and none of them is a blank. -/
theorem hexDigit_spec :
    ∀ a < 16, hexDigit a ≠ 0x20 ∧ ∀ b < 16, hexDigit a = hexDigit b → a = b := by
  decide

/-- Texts of one length are equal only for numbers that agree in as many digits. -/
theorem hexText_injective {digits v w : ℕ} (h : hexText digits v = hexText digits w) :
    v % 16 ^ digits = w % 16 ^ digits := by
  -- the last `k` digits, for more and more of them
  suffices hlow : ∀ k ≤ digits, v % 16 ^ k = w % 16 ^ k from hlow digits le_rfl
  intro k hk
  induction k with
  | zero => rw [pow_zero, Nat.mod_one, Nat.mod_one]
  | succ k ih =>
    have hdigit := List.map_inj_left.mp h (digits - 1 - k) (List.mem_range.mpr (by omega))
    rw [show digits - 1 - (digits - 1 - k) = k by omega] at hdigit
    have heq : v / 16 ^ k % 16 = w / 16 ^ k % 16 :=
      (hexDigit_spec _ (Nat.mod_lt _ (by decide))).2 _ (Nat.mod_lt _ (by decide)) hdigit
    rw [Nat.mod_pow_succ, Nat.mod_pow_succ, ih (by omega), heq]

/-- A decimal number is made of digits. -/
theorem mem_decimal_natCast {b : UInt8} {n : ℕ} (h : b ∈ decimal n) : 0x30 ≤ b ∧ b ≤ 0x39 := by
  rw [decimal, if_neg (by omega), List.nil_append] at h
  obtain ⟨d, hd, rfl⟩ := List.mem_map.mp h
  exact Terminal.digitByte_range ((Numeral.canonical_digits (by decide) _).lt_base d hd)

/-- **A number is reported in one way only.** -/
theorem uintText_injective : Function.Injective uintText := by
  -- the letter `x` tells the two forms apart
  have hforms : ∀ {k k' : UInt64}, k.toNat < 2 ^ 32 → 2 ^ 32 ≤ k'.toNat →
      uintText k ≠ uintText k' := by
    intro k k' hlt hle heq
    rw [uintText_of_lt hlt, uintText_of_le hle] at heq
    have hx : (0x78 : UInt8) ∈ decimal k.toNat := by
      rw [heq]
      exact List.mem_append_left _ (by decide)
    exact absurd (mem_decimal_natCast hx).2 (by decide)
  intro k k' heq
  rw [← UInt64.toNat_inj]
  by_cases hlt : k.toNat < 2 ^ 32 <;> by_cases hlt' : k'.toNat < 2 ^ 32
  · rw [uintText_of_lt hlt, uintText_of_lt hlt'] at heq
    have hnum := Terminal.isNumeral_decimal k.toNat
    rw [heq] at hnum
    exact Int.natCast_inj.mp (hnum.unique (Terminal.isNumeral_decimal k'.toNat))
  · exact absurd heq (hforms hlt (not_lt.mp hlt'))
  · exact absurd heq.symm (hforms hlt' (not_lt.mp hlt))
  · rw [uintText_of_le (not_lt.mp hlt), uintText_of_le (not_lt.mp hlt')] at heq
    have hmod := hexText_injective (List.append_cancel_left heq)
    have hk : k.toNat < 16 ^ 16 := k.toNat_lt.trans_eq (by decide)
    have hk' : k'.toNat < 16 ^ 16 := k'.toNat_lt.trans_eq (by decide)
    rwa [Nat.mod_eq_of_lt hk, Nat.mod_eq_of_lt hk'] at hmod

/-- A printed number has no blank in it. -/
theorem space_notMem_uintText (k : UInt64) : (0x20 : UInt8) ∉ uintText k := by
  intro hmem
  by_cases hlt : k.toNat < 2 ^ 32
  · rw [uintText_of_lt hlt] at hmem
    exact absurd (mem_decimal_natCast hmem).1 (by decide)
  · rw [uintText_of_le (not_lt.mp hlt), List.mem_append] at hmem
    rcases hmem with hmem | hmem
    · exact absurd hmem (by decide)
    · obtain ⟨i, -, hi⟩ := List.mem_map.mp hmem
      exact (hexDigit_spec _ (Nat.mod_lt _ (by decide))).1 hi

/-- A report is read in one way only: the number ends at the first space. -/
theorem report_inj {k k' : UInt64} {rest rest' : List UInt8}
    (h : uintText k ++ 0x20 :: rest = uintText k' ++ 0x20 :: rest') : k = k' ∧ rest = rest' := by
  have htake : ∀ (k : UInt64) (rest : List UInt8),
      (uintText k ++ 0x20 :: rest).takeWhile (· ≠ 0x20) = uintText k := by
    intro k rest
    rw [List.takeWhile_append_of_pos, List.takeWhile_cons_of_neg (by simp), List.append_nil]
    intro b hb
    exact decide_eq_true fun heq => space_notMem_uintText k (heq ▸ hb)
  have htext : uintText k = uintText k' := by
    rw [← htake k rest, h, htake k' rest']
  refine ⟨uintText_injective htext, ?_⟩
  rw [htext] at h
  exact (List.cons.inj (List.append_cancel_left h)).2

end Reported

/-! ## The text that is written -/

/-- A sector that starts with a text and is zero behind it. -/
def blockOf (text : List UInt8) : Block 512 := fun i => text.getD i 0

namespace Line

variable (line : Line) {start stop s e : ℕ}

/-- What follows the third word of the line. -/
def message : List UInt8 :=
  Words.afterWord isSpace (Words.afterWord isSpace (Words.afterWord isSpace line.trimmed))

/-- Behind the first token is what its letters are dropped from. -/
theorem firstToken_rest (h : start ≤ stop) (hstop : stop ≤ maxLine) :
    (line.firstToken start stop).2 ≤ stop ∧ line.slice (line.firstToken start stop).2 stop =
      (line.slice start stop).dropWhile fun b => !isSpace b := by
  obtain ⟨-, hle, -, hdrop⟩ :=
    line.scan_spec (fun b => !isSpace b) (stop - start) (i := start) (by omega)
  rw [Nat.add_sub_cancel' h] at hle hdrop
  exact ⟨hle, hdrop⟩

/-- Behind an argument and the blanks after it is the rest of the line after one word. -/
theorem nextArg_rest (hstop : stop ≤ maxLine) (harg : line.nextArg start stop = some (s, e)) :
    line.slice (line.trimLeft e stop) stop =
      Words.afterWord isSpace (line.slice (line.trimLeft start stop) stop) := by
  rw [nextArg] at harg
  dsimp only at harg
  split at harg
  · cases harg
  · next hlt =>
    split at harg
    · cases harg
    · obtain ⟨-, rfl⟩ := Prod.mk.inj (Option.some.inj harg)
      obtain ⟨he, hrest⟩ := line.firstToken_rest (not_le.mp hlt).le hstop
      obtain ⟨-, -, htrim⟩ := line.trimLeft_spec he hstop
      rw [htrim, hrest]
      rfl

/-- Behind the command word is the rest of the line after one word. -/
theorem cmdEnd_rest {word : List UInt8} {args : List (List UInt8)}
    (h : line.tokens = word :: args) :
    line.slice (line.trimLeft line.cmdEnd line.stop) line.stop =
      Words.afterWord isSpace line.trimmed := by
  have htrimmed : line.slice line.start line.stop = line.trimmed := (line.trim_spec rfl rfl).2.2.1
  obtain ⟨hlt, hle, hstop, -⟩ := command_spec h
  obtain ⟨-, hrest⟩ := line.firstToken_rest (hlt.le.trans hle) hstop
  obtain ⟨-, -, htrim⟩ := line.trimLeft_spec hle hstop
  rw [htrim, cmdEnd, hrest, htrimmed]
  rfl

end Line

/-- After `k` rounds the loop has filled `k` bytes of the buffer. -/
theorem get_foldl_put (f : ℕ → UInt8) {k : ℕ} (hk : k ≤ 512) (j : ℕ) :
    ((List.range k).foldl (fun buf idx => buf.put idx (f idx)) (Block.zero : Block 512)).get j =
      if j < k then f j else 0 := by
  induction k with
  | zero => simp
  | succ k ih =>
    rw [List.range_succ, List.foldl_append, List.foldl_cons, List.foldl_nil,
      Block.get_put (by omega), ih (by omega)]
    by_cases hj : j = k
    · rw [if_pos hj, if_pos (by omega), hj]
    · have hlt : j < k + 1 ↔ j < k := by omega
      simp only [if_neg hj, hlt]

/-- The sector that is written holds the message, padded with zeros. -/
theorem messageBlock_eq (line : Line) (msgStart : ℕ) {stop : ℕ} (hstop : stop ≤ maxLine) :
    messageBlock line msgStart stop = blockOf (line.slice msgStart stop) := by
  have hmin : min (stop - msgStart) 512 = stop - msgStart :=
    min_eq_left ((Nat.sub_le _ _).trans (hstop.trans (by decide)))
  apply Block.ext_get
  intro j hj
  rw [messageBlock, hmin, get_foldl_put _ (hmin ▸ min_le_right _ _), Block.get, dif_pos hj, blockOf,
    line.slice_eq_map hstop]
  by_cases hlt : j < stop - msgStart
  · simp [hlt]
  · simp [hlt]

/-! ## The commands -/

section Commands

variable {ρ : Type} (m : Machine (Devices ρ)) (host : Host ρ) {line : Line}
  {sh : State (Devices ρ)} {token : List UInt8} {args : List (List UInt8)}

/-- `disk read`, for the words of the line. -/
theorem execute_diskRead (hidle : sh.agentContext.confirmationPending = false)
    (h : line.tokens = ascii "disk" :: ascii "read" :: token :: args) :
    (∀ n, HexNumeral token n → (sh.execute (deviceMachine m host) line).env.machine =
      diskReadSector (recording m) host (UInt64.ofNat n).toInt64 sh.env.machine) ∧
    ((∀ n, ¬ HexNumeral token n) → (sh.execute (deviceMachine m host) line).env.machine =
      { sh.env.machine with
        output := sh.env.machine.output ++ ascii "disk read: invalid lba\n" }) := by
  obtain ⟨-, hle, hstop, -, hargs⟩ := Line.command_spec h
  obtain ⟨s, e, hsome, hlt, he, hread, hrest⟩ := line.nextArg_of_words hle hstop hargs
  obtain ⟨s', e', hsome', -, he', rfl, -⟩ := line.nextArg_of_words he hstop hrest
  have hmatch := (line.matchLiteral_iff hlt.le (he.trans hstop)).mpr hread
  have hexecute : (sh.execute (deviceMachine m host) line).env.machine =
      (diskCommand (recording m) host line line.cmdEnd line.stop sh.env.machine).getD
        sh.env.machine := execute_command _ hidle (.inr (.inr rfl)) h
  rw [hexecute, diskCommand, hsome]
  simp only [hmatch, if_true, diskRead, hsome']
  constructor
  · intro n hn
    simp only [readLba_of_numeral line (he'.trans hstop) hn, Bool.not_true, Bool.false_eq_true,
      if_false, Option.bind_eq_bind, Option.bind_some, Option.getD_some]
  · intro hnot
    simp only [readLba_of_not line (he'.trans hstop) hnot, Bool.not_false, if_true,
      Option.bind_eq_bind, Option.bind_some, Option.getD_some, recording_print]

/-- `disk write`, for the words of the line. -/
theorem execute_diskWrite (hidle : sh.agentContext.confirmationPending = false)
    (h : line.tokens = ascii "disk" :: ascii "write" :: token :: args) :
    (∀ d, DecNumeral token d → (sh.execute (deviceMachine m host) line).env.machine =
      diskWriteSector (recording m) (Int64.ofNat d)
        { sh.env.machine with diskBuf := blockOf line.message }) ∧
    ((∀ d, ¬ DecNumeral token d) → ∀ n, HexNumeral token n →
      (sh.execute (deviceMachine m host) line).env.machine =
        diskWriteSector (recording m) (UInt64.ofNat n).toInt64
          { sh.env.machine with diskBuf := blockOf line.message }) ∧
    ((∀ n, ¬ HexNumeral token n) → (sh.execute (deviceMachine m host) line).env.machine =
      { sh.env.machine with
        output := sh.env.machine.output ++ ascii "disk write: invalid lba\n" }) := by
  obtain ⟨-, hle, hstop, -, hargs⟩ := Line.command_spec h
  obtain ⟨s, e, hsome, hlt, he, hwrite, hrest⟩ := line.nextArg_of_words hle hstop hargs
  obtain ⟨s', e', hsome', -, he', rfl, -⟩ := line.nextArg_of_words he hstop hrest
  have hread : ¬ line.matchLiteral s e "read" = true := by
    rw [line.matchLiteral_iff hlt.le (he.trans hstop), hwrite]
    decide
  have hmatch := (line.matchLiteral_iff hlt.le (he.trans hstop)).mpr hwrite
  have hmessage : messageBlock line (line.trimLeft e' line.stop) line.stop =
      blockOf line.message := by
    rw [messageBlock_eq line _ hstop, line.nextArg_rest hstop hsome',
      line.nextArg_rest hstop hsome, line.cmdEnd_rest h]
    rfl
  have hexecute : (sh.execute (deviceMachine m host) line).env.machine =
      (diskCommand (recording m) host line line.cmdEnd line.stop sh.env.machine).getD
        sh.env.machine := execute_command _ hidle (.inr (.inr rfl)) h
  rw [hexecute, diskCommand, hsome]
  simp only [hread, hmatch, Bool.false_eq_true, if_false, if_true, diskWrite, hsome', hmessage]
  refine ⟨?_, ?_, ?_⟩
  · intro d hd
    simp only [writeLba_of_dec line (he'.trans hstop) hd, Bool.not_true, Bool.false_eq_true,
      if_false, Option.bind_eq_bind, Option.bind_some, Option.getD_some]
  · intro hdec n hn
    simp only [writeLba_of_hex line (he'.trans hstop) hdec hn, Bool.not_true, Bool.false_eq_true,
      if_false, Option.bind_eq_bind, Option.bind_some, Option.getD_some]
  · intro hnot
    simp only [writeLba_of_not line (he'.trans hstop) hnot, Bool.not_false, if_true,
      Option.bind_eq_bind, Option.bind_some, Option.getD_some, recording_print]

end Commands

/-! ## The sector that a command addresses -/

/-- What `disk write` prints about a sector that it has written. -/
def writeReport (k : UInt64) : List UInt8 := ascii "Write Sector " ++ (uintText k ++ ascii " OK\n")

/-- What `disk read` prints about a sector that it has read. -/
def readReport (k : UInt64) (dump : List UInt8) : List UInt8 :=
  ascii "Read Sector " ++ (uintText k ++ (ascii " OK\n" ++ dump))

/-- A report of a write tells the sector number. -/
theorem writeReport_inj {k k' : UInt64} (h : writeReport k = writeReport k') : k = k' := by
  have hrest : uintText k ++ 0x20 :: ascii "OK\n" = uintText k' ++ 0x20 :: ascii "OK\n" :=
    List.append_cancel_left h
  exact (report_inj hrest).1

/-- A report of a read tells the sector number and the dump. -/
theorem readReport_inj {k k' : UInt64} {dump dump' : List UInt8}
    (h : readReport k dump = readReport k' dump') : k = k' ∧ dump = dump' := by
  have hrest : uintText k ++ 0x20 :: (ascii "OK\n" ++ dump) =
      uintText k' ++ 0x20 :: (ascii "OK\n" ++ dump') := List.append_cancel_left h
  obtain ⟨hk, hdump⟩ := report_inj hrest
  exact ⟨hk, List.append_cancel_left hdump⟩

section Transfers

variable {ρ : Type}

/-- A line that writes a text to no other sector than `n`, and reports no other one: if it reports
a sector, then that is `n`, the drive was commanded to write it, and it holds the text. -/
structure WritesSector (n : ℕ) (text : List UInt8) (before after : Devices ρ) : Prop where
  accesses : after.drive.accesses = before.drive.accesses ∨
    after.drive.accesses = before.drive.accesses ++ [.write n]
  others : ∀ i, i ≠ n → after.drive.image i = before.drive.image i
  reported : ∀ k, after.output = before.output ++ writeReport k →
    k.toNat = n ∧ after.drive.accesses = before.drive.accesses ++ [.write n] ∧
      after.drive.image n = blockOf text

/-- A line that reads no other sector than `n`, and reports no other one: if it reports a sector,
then that is `n`, the drive was commanded to read it, and its bytes are shown. -/
structure ReadsSector (n : ℕ) (addr : UInt64) (before after : Devices ρ) : Prop where
  accesses : after.drive.accesses = before.drive.accesses ∨
    after.drive.accesses = before.drive.accesses ++ [.read n]
  image : after.drive.image = before.drive.image
  reported : ∀ k dump, after.output = before.output ++ readReport k dump →
    k.toNat = n ∧ after.drive.accesses = before.drive.accesses ++ [.read n] ∧
      dump = dumpText addr (before.drive.image n).get 512

variable (m : Machine (Devices ρ)) (host : Host ρ) (lba : Int64) (s : Devices ρ)

/-- Narrowing to 32 bits keeps the 28 bits that the drive takes. -/
theorem toNat_toUInt32_mod (k : UInt64) : k.toUInt32.toNat % 2 ^ 28 = k.toNat % 2 ^ 28 := by
  rw [UInt64.toNat_toUInt32]
  omega

/-- A text that does not begin with a label is no labelled text. -/
theorem ne_label_append {text label : List UInt8} (h : ¬ label <+: text)
    (rest : List UInt8) : text ≠ label ++ rest := fun heq => h ⟨rest, heq.symm⟩

/-- `WriteSector` and its report. The drive gets the lowest 28 bits of the number. -/
theorem diskWriteSector_cases {after : Devices ρ}
    (h : diskWriteSector (recording m) lba s = after) :
    (after.drive.accesses = s.drive.accesses ∨
      after.drive.accesses = s.drive.accesses ++ [.write (lba.toUInt64.toNat % 2 ^ 28)]) ∧
    (∀ i, i ≠ lba.toUInt64.toNat % 2 ^ 28 → after.drive.image i = s.drive.image i) ∧
    ((Ata.writeSector Ata.Drive.port lba.toUInt64.toUInt32 s.diskBuf s.drive).1 = false ∧
      after.output = s.output ++ ascii "Write Failed\n" ∨
    after.drive.accesses = s.drive.accesses ++ [.write (lba.toUInt64.toNat % 2 ^ 28)] ∧
      after.drive.image (lba.toUInt64.toNat % 2 ^ 28) = s.diskBuf ∧
      after.output = s.output ++ writeReport lba.toUInt64) := by
  cases hwrite : Ata.writeSector Ata.Drive.port lba.toUInt64.toUInt32 s.diskBuf s.drive with
  | mk ok drive =>
    rw [diskWriteSector, hwrite] at h
    simp only [recording_print] at h
    have hcases := s.drive.writeSector_cases _ _ hwrite
    rw [toNat_toUInt32_mod] at hcases
    have hothers : ∀ i, i ≠ lba.toUInt64.toNat % 2 ^ 28 →
        Function.update s.drive.image (lba.toUInt64.toNat % 2 ^ 28) s.diskBuf i =
          s.drive.image i := fun i hi => Function.update_of_ne hi _ _
    rcases hcases with ⟨rfl, himage, haccesses⟩ | ⟨rfl, himage, haccesses⟩ | ⟨himage, haccesses⟩
    · subst h
      exact ⟨.inl haccesses, fun i _ => congrFun himage i, .inl ⟨rfl, rfl⟩⟩
    · subst h
      exact ⟨.inr haccesses, fun i _ => congrFun himage i, .inl ⟨rfl, rfl⟩⟩
    · -- a transfer that was made is reported if the flush succeeds
      cases ok with
      | false =>
        subst h
        exact ⟨.inr haccesses, fun i hi => (congrFun himage i).trans (hothers i hi),
          .inl ⟨rfl, rfl⟩⟩
      | true =>
        subst h
        refine ⟨.inr haccesses, fun i hi => (congrFun himage i).trans (hothers i hi), .inr
          ⟨haccesses, (congrFun himage _).trans (Function.update_self ..), ?_⟩⟩
        simp only [if_true, writeReport, List.append_assoc]

/-- `ReadSector` and its report. The drive gets the lowest 28 bits of the number. -/
theorem diskReadSector_cases {after : Devices ρ}
    (h : diskReadSector (recording m) host lba s = after) :
    (after.drive.accesses = s.drive.accesses ∨
      after.drive.accesses = s.drive.accesses ++ [.read (lba.toUInt64.toNat % 2 ^ 28)]) ∧
    after.drive.image = s.drive.image ∧
    ((Ata.readSector Ata.Drive.port lba.toUInt64.toUInt32 s.diskBuf s.drive).1 = false ∧
      after.output = s.output ++ ascii "Read Failed\n" ∨
    after.drive.accesses = s.drive.accesses ++ [.read (lba.toUInt64.toNat % 2 ^ 28)] ∧
      after.output = s.output ++ readReport lba.toUInt64 (dumpText host.diskBufAddr
        (s.drive.image (lba.toUInt64.toNat % 2 ^ 28)).get 512)) := by
  cases hread : Ata.readSector Ata.Drive.port lba.toUInt64.toUInt32 s.diskBuf s.drive with
  | mk ok rest =>
    obtain ⟨diskBuf, drive⟩ := rest
    rw [diskReadSector, hread] at h
    have hdump : ∀ s : Devices ρ,
        dumpMemory (recording m) (fun i s => s.diskBuf.get i) host.diskBufAddr 512 s =
          (recording m).print (dumpText host.diskBufAddr s.diskBuf.get 512) s :=
      dumpMemory_eq (recording m) (fun _ _ _ => rfl) host.diskBufAddr 512
    simp only [hdump, recording_print] at h
    have hcases := s.drive.readSector_cases _ _ hread
    rw [toNat_toUInt32_mod] at hcases
    obtain ⟨himage, ⟨rfl, -, haccesses⟩ | ⟨rfl, -, haccesses⟩ | ⟨rfl, rfl, haccesses⟩⟩ := hcases
    · subst h
      exact ⟨.inl haccesses, himage, .inl ⟨rfl, rfl⟩⟩
    · subst h
      exact ⟨.inr haccesses, himage, .inl ⟨rfl, rfl⟩⟩
    · subst h
      refine ⟨.inr haccesses, himage, .inr ⟨haccesses, ?_⟩⟩
      simp only [if_true, readReport, List.append_assoc]

/-- A refused write satisfies the specification for every sector. -/
theorem writesSector_of_refused (n : ℕ) (text : List UInt8) :
    WritesSector n text s
      { s with output := s.output ++ ascii "disk write: invalid lba\n" } where
  accesses := .inl rfl
  others _ _ := rfl
  reported k hk := absurd (List.append_cancel_left hk) (ne_label_append (by decide) _)

/-- So does a refused read. -/
theorem readsSector_of_refused (n : ℕ) (addr : UInt64) :
    ReadsSector n addr s { s with output := s.output ++ ascii "disk read: invalid lba\n" } where
  accesses := .inl rfl
  image := rfl
  reported k dump hk := absurd (List.append_cancel_left hk) (ne_label_append (by decide) _)

/-- A number below `2 ^ 28` is the sector that is written. -/
theorem writesSector_of_lt (h : lba.toUInt64.toNat < 2 ^ 28) (text : List UInt8) :
    WritesSector lba.toUInt64.toNat text s
      (diskWriteSector (recording m) lba { s with diskBuf := blockOf text }) := by
  obtain ⟨haccesses, hothers, hcases⟩ :=
    diskWriteSector_cases m lba { s with diskBuf := blockOf text } rfl
  rw [Nat.mod_eq_of_lt h] at haccesses hothers hcases
  refine ⟨haccesses, hothers, fun k hk => ?_⟩
  rcases hcases with ⟨-, hfailed⟩ | ⟨haccesses, himage, hreport⟩
  · exact absurd (List.append_cancel_left (hfailed.symm.trans hk))
      (ne_label_append (by decide) _)
  · obtain rfl := writeReport_inj (List.append_cancel_left (hreport.symm.trans hk))
    exact ⟨rfl, haccesses, himage⟩

/-- A number below `2 ^ 28` is the sector that is read. -/
theorem readsSector_of_lt (h : lba.toUInt64.toNat < 2 ^ 28) :
    ReadsSector lba.toUInt64.toNat host.diskBufAddr s
      (diskReadSector (recording m) host lba s) := by
  obtain ⟨haccesses, himage, hcases⟩ := diskReadSector_cases m host lba s rfl
  rw [Nat.mod_eq_of_lt h] at haccesses hcases
  refine ⟨haccesses, himage, fun k dump hk => ?_⟩
  rcases hcases with ⟨-, hfailed⟩ | ⟨haccesses, hreport⟩
  · exact absurd (List.append_cancel_left (hfailed.symm.trans hk))
      (ne_label_append (by decide) _)
  · obtain ⟨rfl, rfl⟩ := readReport_inj (List.append_cancel_left (hreport.symm.trans hk))
    exact ⟨rfl, haccesses, rfl⟩

variable {s}

/-- A drive that is ready carries out the command, and the number is reported. -/
theorem diskWriteSector_of_ready (hready : s.drive.Ready) :
    (diskWriteSector (recording m) lba s).drive.accesses =
      s.drive.accesses ++ [.write (lba.toUInt64.toNat % 2 ^ 28)] ∧
    (diskWriteSector (recording m) lba s).output = s.output ++ writeReport lba.toUInt64 := by
  obtain ⟨-, -, ⟨hfailed, -⟩ | ⟨haccesses, -, hreport⟩⟩ := diskWriteSector_cases m lba s rfl
  · rw [hready.writeSector] at hfailed
    cases hfailed
  · exact ⟨haccesses, hreport⟩

/-- A ready drive is told to read the sector, and the read is reported. -/
theorem diskReadSector_of_ready (hready : s.drive.Ready) :
    (diskReadSector (recording m) host lba s).drive.accesses =
      s.drive.accesses ++ [.read (lba.toUInt64.toNat % 2 ^ 28)] ∧
    ∃ dump, (diskReadSector (recording m) host lba s).output =
      s.output ++ readReport lba.toUInt64 dump := by
  obtain ⟨-, -, ⟨hfailed, -⟩ | ⟨haccesses, hreport⟩⟩ := diskReadSector_cases m host lba s rfl
  · rw [hready.readSector] at hfailed
    cases hfailed
  · exact ⟨haccesses, _, hreport⟩

variable {lba}

/-- The number that is reported is the sector only below `2 ^ 28`. -/
theorem WritesSector.eq_of_ready {n : ℕ} {text : List UInt8} (hready : s.drive.Ready)
    (h : WritesSector n text s
      (diskWriteSector (recording m) lba { s with diskBuf := blockOf text })) :
    lba.toUInt64.toNat = n ∧ n < 2 ^ 28 := by
  obtain ⟨haccesses, hreport⟩ :=
    diskWriteSector_of_ready m lba (s := { s with diskBuf := blockOf text }) hready
  obtain ⟨rfl, haccesses', -⟩ := h.reported _ hreport
  have hsector := List.append_cancel_left (haccesses.symm.trans haccesses')
  simp only [List.cons.injEq, Ata.Access.write.injEq, and_true] at hsector
  exact ⟨rfl, by omega⟩

/-- So a read of sector `n` is one of the number `n`, which the drive can address. -/
theorem ReadsSector.eq_of_ready {n : ℕ} (hready : s.drive.Ready)
    (h : ReadsSector n host.diskBufAddr s (diskReadSector (recording m) host lba s)) :
    lba.toUInt64.toNat = n ∧ n < 2 ^ 28 := by
  obtain ⟨haccesses, dump, hreport⟩ := diskReadSector_of_ready m host lba hready
  obtain ⟨rfl, haccesses', -⟩ := h.reported _ _ hreport
  have hsector := List.append_cancel_left (haccesses.symm.trans haccesses')
  simp only [List.cons.injEq, Ata.Access.read.injEq, and_true] at hsector
  exact ⟨rfl, by omega⟩

end Transfers

/-! ## Two commands for one sector -/

/-- The lines address one sector, and the one that they report, whatever the drive does: so the
text that the first one has written is what the second one shows. -/
def AddressOneSector (write read : Line) : Prop :=
  ∃ n, ∀ (ρ : Type) (m : Machine (Devices ρ)) (host : Host ρ) (sh : State (Devices ρ)),
    sh.agentContext.confirmationPending = false →
    WritesSector n write.message sh.env.machine
      (sh.execute (deviceMachine m host) write).env.machine ∧
    ReadsSector n host.diskBufAddr sh.env.machine
      (sh.execute (deviceMachine m host) read).env.machine ∧
    ∀ k k' dump, (sh.execute (deviceMachine m host) write).env.machine.output =
        sh.env.machine.output ++ writeReport k →
      ((sh.execute (deviceMachine m host) write).execute (deviceMachine m host)
          read).env.machine.output =
        (sh.execute (deviceMachine m host) write).env.machine.output ++ readReport k' dump →
      dump = dumpText host.diskBufAddr (blockOf write.message).get 512

section Sectors

variable {ρ : Type} (m : Machine (Devices ρ)) (host : Host ρ) {line : Line}
  {sh : State (Devices ρ)} {token : List UInt8} {args : List (List UInt8)}

/-- The number that `disk write` acts on, modulo `2 ^ 64`. -/
theorem exists_diskWriteSector {n : ℕ} (hn : HexNumeral token n)
    (h : line.tokens = ascii "disk" :: ascii "write" :: token :: args) :
    ∃ lba : Int64, (∀ d, DecNumeral token d → lba.toUInt64.toNat = d % 2 ^ 64) ∧
      ((∀ d, ¬ DecNumeral token d) → lba.toUInt64.toNat = n % 2 ^ 64) ∧
      ∀ (ρ : Type) (m : Machine (Devices ρ)) (host : Host ρ) (sh : State (Devices ρ)),
        sh.agentContext.confirmationPending = false →
        (sh.execute (deviceMachine m host) line).env.machine =
          diskWriteSector (recording m) lba
            { sh.env.machine with diskBuf := blockOf line.message } := by
  by_cases hdec : ∃ d, DecNumeral token d
  · obtain ⟨d, hd⟩ := hdec
    refine ⟨Int64.ofNat d, ?_, fun hnot => absurd hd (hnot d), ?_⟩
    · intro d' hd'
      rw [hd'.unique hd, Int64.toUInt64_ofNat', UInt64.toNat_ofNat']
    · intro ρ m host sh hidle
      exact (execute_diskWrite m host hidle h).1 d hd
  · rw [not_exists] at hdec
    refine ⟨(UInt64.ofNat n).toInt64, fun d hd => absurd hd (hdec d), ?_, ?_⟩
    · intro _
      rw [UInt64.toUInt64_toInt64, UInt64.toNat_ofNat']
    · intro ρ m host sh hidle
      exact (execute_diskWrite m host hidle h).2.1 hdec n hn

/-- A `disk` line leaves the agent alone. -/
theorem execute_disk_agentContext (hidle : sh.agentContext.confirmationPending = false)
    (h : line.tokens = ascii "disk" :: args) :
    (sh.execute (deviceMachine m host) line).agentContext = sh.agentContext := by
  obtain ⟨hlt, hle, hstop, hword, -⟩ := Line.command_spec h
  have hliteral : line.slice line.start line.cmdEnd = ascii Command.disk.literal := hword
  rw [execute_of_find _ hidle (hlt.trans_le hle)
    (find?_literal line hlt.le (hle.trans hstop) hliteral)]
  rfl

end Sectors

section OneSector

variable {write read : Line} {token : List UInt8} {args args' : List (List UInt8)}
  (hwrite : write.tokens = ascii "disk" :: ascii "write" :: token :: args)
  (hread : read.tokens = ascii "disk" :: ascii "read" :: token :: args')
include hwrite

/-- What is written is shown: the third part follows from the two others. -/
theorem addressOneSector_of (n : ℕ)
    (h : ∀ (ρ : Type) (m : Machine (Devices ρ)) (host : Host ρ) (sh : State (Devices ρ)),
      sh.agentContext.confirmationPending = false →
      WritesSector n write.message sh.env.machine
        (sh.execute (deviceMachine m host) write).env.machine ∧
      ReadsSector n host.diskBufAddr sh.env.machine
        (sh.execute (deviceMachine m host) read).env.machine) :
    AddressOneSector write read := by
  refine ⟨n, fun ρ m host sh hidle => ?_⟩
  obtain ⟨hwrites, hreads⟩ := h ρ m host sh hidle
  refine ⟨hwrites, hreads, fun k k' dump hk hk' => ?_⟩
  have hidle' : (sh.execute (deviceMachine m host) write).agentContext.confirmationPending =
      false := by rw [execute_disk_agentContext m host hidle hwrite, hidle]
  obtain ⟨-, -, himage⟩ := hwrites.reported k hk
  obtain ⟨-, -, hdump⟩ := (h ρ m host _ hidle').2.reported k' dump hk'
  rw [hdump, himage]

include hread

/-- The two commands address one sector if the two readings of the token agree and fit. -/
theorem addressOneSector_of_eq
    (h : ∀ n, HexNumeral token n →
      n % 2 ^ 64 < 2 ^ 28 ∧ ∀ d, DecNumeral token d → d % 2 ^ 64 = n % 2 ^ 64) :
    AddressOneSector write read := by
  by_cases haccepted : ∃ n, HexNumeral token n
  · obtain ⟨n, hn⟩ := haccepted
    obtain ⟨hlt, hdec⟩ := h n hn
    obtain ⟨lba, hlbaDec, hlbaHex, hexecute⟩ := exists_diskWriteSector hn hwrite
    have hlba : lba.toUInt64.toNat = n % 2 ^ 64 := by
      by_cases hd : ∃ d, DecNumeral token d
      · obtain ⟨d, hd⟩ := hd
        rw [hlbaDec d hd, hdec d hd]
      · exact hlbaHex (not_exists.mp hd)
    have hlba' : (UInt64.ofNat n).toInt64.toUInt64.toNat = n % 2 ^ 64 := by
      rw [UInt64.toUInt64_toInt64, UInt64.toNat_ofNat']
    refine addressOneSector_of hwrite (n % 2 ^ 64) fun ρ m host sh hidle => ⟨?_, ?_⟩
    · rw [hexecute ρ m host sh hidle, ← hlba]
      exact writesSector_of_lt m lba _ (hlba ▸ hlt) _
    · rw [(execute_diskRead m host hidle hread).1 n hn, ← hlba']
      exact readsSector_of_lt m host _ _ (hlba' ▸ hlt)
  · rw [not_exists] at haccepted
    refine addressOneSector_of hwrite 0 fun ρ m host sh hidle => ⟨?_, ?_⟩
    · rw [(execute_diskWrite m host hidle hwrite).2.2 haccepted]
      exact writesSector_of_refused _ _ _
    · rw [(execute_diskRead m host hidle hread).2 haccepted]
      exact readsSector_of_refused _ _ _

end OneSector

/-! ### A drive that always answers -/

namespace Ready

/-- A machine with nothing but a drive. -/
def machine : Machine (Devices Unit) where
  putRune _ s := s
  getTicks := none
  mmapEntries _ := []
  fsEntries _ := []
  fsLookup _ _ _ := none
  fsWrite _ _ _ s := (false, s)
  fsRemove _ _ s := (false, s)
  readByte _ _ := 0
  port := ⟨fun s => (false, s), fun _ s => (false, s), fun s => (none, s)⟩
  command _ _ _ _ s := s
  suggest _ _ _ s := s

def host : Host Unit := ⟨fun _ => false, fun _ s => (false, s), 0⟩

def drive : Ata.Drive where
  image _ := Block.zero
  regs := ⟨0, 0, 0, 0⟩
  pending := none
  accesses := []
  status _ := 0x08
  polls := 0

def state : State (Devices Unit) where
  tmpName := default
  transportRequest := default
  transportResponse := default
  serial := ⟨Vector.replicate _ 0, .zero⟩
  agentContext := default
  env := ⟨.deterministic, false, State.emptyHistory, ⟨drive, Block.zero, [], ()⟩⟩
  calls := []

/-- The drive after a line. -/
def run (line : Line) : Ata.Drive :=
  (state.execute (deviceMachine machine host) line).env.machine.drive

/-- The drive of the example is ready. -/
theorem drive_ready : state.env.machine.drive.Ready := fun _ => rfl

end Ready

section OneSector

variable {write read : Line} {token : List UInt8} {args args' : List (List UInt8)}

/-- Conversely, if they address one sector, the readings agree and fit. -/
theorem AddressOneSector.lt_and_eq (h : AddressOneSector write read)
    (hwrite : write.tokens = ascii "disk" :: ascii "write" :: token :: args)
    (hread : read.tokens = ascii "disk" :: ascii "read" :: token :: args') {n : ℕ}
    (hn : HexNumeral token n) :
    n % 2 ^ 64 < 2 ^ 28 ∧ ∀ d, DecNumeral token d → d % 2 ^ 64 = n % 2 ^ 64 := by
  obtain ⟨sector, haddress⟩ := h
  obtain ⟨lba, hlba, -, hexecute⟩ := exists_diskWriteSector hn hwrite
  obtain ⟨hwrites, hreads, -⟩ := haddress Unit Ready.machine Ready.host Ready.state rfl
  rw [hexecute Unit Ready.machine Ready.host Ready.state rfl] at hwrites
  rw [(execute_diskRead Ready.machine Ready.host rfl hread).1 n hn] at hreads
  obtain ⟨hwritten, hlt⟩ := hwrites.eq_of_ready _ Ready.drive_ready
  obtain ⟨hshown, -⟩ := hreads.eq_of_ready _ _ Ready.drive_ready
  rw [UInt64.toUInt64_toInt64, UInt64.toNat_ofNat'] at hshown
  refine ⟨hshown ▸ hlt, fun d hd => ?_⟩
  rw [← hlba d hd, hwritten, hshown]

/-- **When the raw disk commands address the sector they name.** The lines `disk write` and
`disk read` with the same token address one sector, and the one that they report, if and only if the
token is not accepted at all, or its hexadecimal value is below `2 ^ 28` as a machine word and,
where it is a decimal numeral too, both values are the same word. -/
theorem address_one_sector_iff
    (hwrite : write.tokens = ascii "disk" :: ascii "write" :: token :: args)
    (hread : read.tokens = ascii "disk" :: ascii "read" :: token :: args') :
    AddressOneSector write read ↔ ∀ n, HexNumeral token n →
      n % 2 ^ 64 < 2 ^ 28 ∧ ∀ d, DecNumeral token d → d % 2 ^ 64 = n % 2 ^ 64 :=
  ⟨fun h _ hn => h.lt_and_eq hwrite hread hn, addressOneSector_of_eq hwrite hread⟩

end OneSector

/-- A prefix makes the token a hexadecimal numeral only. -/
theorem address_one_sector_hex :
    AddressOneSector (State.typed "disk write 0x10 hi" (by decide)).line
      (State.typed "disk read 0x10" (by decide)).line := by
  have hwrite : (State.typed "disk write 0x10 hi" (by decide)).line.tokens =
      [ascii "disk", ascii "write", ascii "0x10", ascii "hi"] := by decide
  have hread : (State.typed "disk read 0x10" (by decide)).line.tokens =
      [ascii "disk", ascii "read", ascii "0x10"] := by decide
  have hhex : HexNumeral (ascii "0x10") 16 :=
    .inr ⟨0x78, ascii "10", by decide, .inl rfl, by decide, [1, 0], by decide, by decide⟩
  refine (address_one_sector_iff hwrite hread).mpr fun n hn => ?_
  obtain rfl := hn.unique hhex
  refine ⟨by decide, fun d hd => ?_⟩
  obtain ⟨-, ds, hds, -⟩ := hd
  cases hds with
  | cons _ hds =>
    cases hds with
    | cons hx _ =>
      obtain ⟨⟨-, hbyte⟩ | ⟨hle, -⟩, hlt⟩ := hx
      · change 0x78 = 0x30 + _ at hbyte
        omega
      · omega

/-- Without a prefix, the sector of ten is written and that of sixteen is read. -/
theorem digits_address_two_sectors :
    (Ready.run (State.typed "disk write 10 hi" (by decide)).line).accesses = [.write 10] ∧
    (Ready.run (State.typed "disk read 10" (by decide)).line).accesses = [.read 16] ∧
    ¬ AddressOneSector (State.typed "disk write 10 hi" (by decide)).line
      (State.typed "disk read 10" (by decide)).line := by
  have hwrite : (State.typed "disk write 10 hi" (by decide)).line.tokens =
      [ascii "disk", ascii "write", ascii "10", ascii "hi"] := by decide
  have hread : (State.typed "disk read 10" (by decide)).line.tokens =
      [ascii "disk", ascii "read", ascii "10"] := by decide
  have hdec : DecNumeral (ascii "10") 10 := ⟨by decide, [1, 0], by decide, by decide⟩
  have hhex : HexNumeral (ascii "10") 16 := .inl ⟨by decide, [1, 0], by decide, by decide⟩
  refine ⟨?_, ?_, fun h => ?_⟩
  · rw [Ready.run, (execute_diskWrite _ _ rfl hwrite).1 10 hdec]
    exact (diskWriteSector_of_ready _ _ fun _ => rfl).1
  · rw [Ready.run, (execute_diskRead _ _ rfl hread).1 16 hhex,
      (diskReadSector_of_ready _ _ _ Ready.drive_ready).1]
    rfl
  · exact absurd ((h.lt_and_eq hwrite hread hhex).2 10 hdec) (by decide)

/-! ## The numbers that the commands act on -/

section Numbers

variable {ρ : Type} (m : Machine (Devices ρ)) (host : Host ρ) (sh : State (Devices ρ)) (line : Line)
  (token : List UInt8) (args : List (List UInt8))

/-- The drive has been commanded to make the access, unless it did not answer. -/
def Commanded (access : Ata.Access) (before after : Ata.Drive) : Prop :=
  after.accesses = before.accesses ++ [access] ∨
    ¬ before.Ready ∧ after.accesses = before.accesses

/-- A command acts on the number of its token, cut to the width of an address or of a sector number,
and does nothing but to print an error where the token is no numeral. -/
structure NumbersActedOn : Prop where
  free : line.tokens = ascii "free" :: token :: args →
    host.pfaReady sh.env.machine.rest = true →
    (∀ n, HexNumeral token n → (sh.execute (deviceMachine m host) line).env.machine.rest =
      (host.freePage (UInt64.ofNat (n % 2 ^ 64)) sh.env.machine.rest).2) ∧
    ((∀ n, ¬ HexNumeral token n) → (sh.execute (deviceMachine m host) line).env.machine =
      { sh.env.machine with
        output := sh.env.machine.output ++ ascii "free: invalid hex address\n" })
  mem : line.tokens = ascii "mem" :: token :: args →
    (∀ n length, HexNumeral token n → DumpLength args (some length) →
      (sh.execute (deviceMachine m host) line).env.machine = dumpMemory (recording m)
        (fun i => m.readByte (UInt64.ofNat (n % 2 ^ 64 + i))) (UInt64.ofNat (n % 2 ^ 64)) length
        sh.env.machine) ∧
    ((∀ n, ¬ HexNumeral token n) → (sh.execute (deviceMachine m host) line).env.machine =
      { sh.env.machine with
        output := sh.env.machine.output ++ ascii "mem: invalid hex address\n" })
  diskRead : line.tokens = ascii "disk" :: ascii "read" :: token :: args →
    (∀ n, HexNumeral token n → Commanded (.read (n % 2 ^ 28)) sh.env.machine.drive
      (sh.execute (deviceMachine m host) line).env.machine.drive) ∧
    ((∀ n, ¬ HexNumeral token n) → (sh.execute (deviceMachine m host) line).env.machine =
      { sh.env.machine with
        output := sh.env.machine.output ++ ascii "disk read: invalid lba\n" })
  diskWrite : line.tokens = ascii "disk" :: ascii "write" :: token :: args →
    (∀ d, DecNumeral token d → Commanded (.write (d % 2 ^ 28)) sh.env.machine.drive
      (sh.execute (deviceMachine m host) line).env.machine.drive) ∧
    ((∀ d, ¬ DecNumeral token d) → ∀ n, HexNumeral token n →
      Commanded (.write (n % 2 ^ 28)) sh.env.machine.drive
        (sh.execute (deviceMachine m host) line).env.machine.drive) ∧
    ((∀ n, ¬ HexNumeral token n) → (sh.execute (deviceMachine m host) line).env.machine =
      { sh.env.machine with
        output := sh.env.machine.output ++ ascii "disk write: invalid lba\n" })

variable {sh line token args}

/-- A number and its remainder are the same machine integer. -/
theorem ofNat_mod (n : ℕ) : UInt64.ofNat (n % 2 ^ 64) = UInt64.ofNat n :=
  UInt64.ofNat_mod_size

/-- What `disk read` commands the drive to do. -/
theorem commanded_read (lba : Int64) (s : Devices ρ) :
    Commanded (.read (lba.toUInt64.toNat % 2 ^ 28)) s.drive
      (diskReadSector (recording m) host lba s).drive := by
  by_cases hready : s.drive.Ready
  · exact .inl (diskReadSector_of_ready m host lba hready).1
  · exact (diskReadSector_cases m host lba s rfl).1.symm.imp_right fun h => ⟨hready, h⟩

/-- What `disk write` commands the drive to do. -/
theorem commanded_write (lba : Int64) (s : Devices ρ) :
    Commanded (.write (lba.toUInt64.toNat % 2 ^ 28)) s.drive
      (diskWriteSector (recording m) lba s).drive := by
  by_cases hready : s.drive.Ready
  · exact .inl (diskWriteSector_of_ready m lba hready).1
  · exact (diskWriteSector_cases m lba s rfl).1.symm.imp_right fun h => ⟨hready, h⟩

/-- With no confirmation pending, the commands act on the numbers of their tokens. -/
theorem numbersActedOn (hidle : sh.agentContext.confirmationPending = false) :
    NumbersActedOn m host sh line token args where
  free h hready := by
    obtain ⟨hfree, hrefused⟩ := execute_free m host hidle hready h
    refine ⟨fun n hn => ?_, hrefused⟩
    rw [hfree n hn, ofNat_mod]
  mem h := by
    obtain ⟨hmem, hrefused⟩ := execute_mem m host hidle h
    refine ⟨fun n length hn hlength => ?_, hrefused⟩
    rw [hmem n hn _ hlength, ofNat_mod]
    simp only [UInt64.ofNat_add, ofNat_mod, Option.elim_some]
  diskRead h := by
    obtain ⟨hread, hrefused⟩ := execute_diskRead m host hidle h
    refine ⟨fun n hn => ?_, hrefused⟩
    have hsector : (UInt64.ofNat n).toInt64.toUInt64.toNat % 2 ^ 28 = n % 2 ^ 28 := by
      rw [UInt64.toUInt64_toInt64, UInt64.toNat_ofNat']
      omega
    rw [hread n hn, ← hsector]
    exact commanded_read m host _ _
  diskWrite h := by
    obtain ⟨-, -, hrefused⟩ := execute_diskWrite m host hidle h
    refine ⟨fun d hd => ?_, fun hdec n hn => ?_, hrefused⟩
    · obtain ⟨n, hn⟩ := hd.exists_hexNumeral
      obtain ⟨lba, hlba, -, hexecute⟩ := exists_diskWriteSector hn h
      have hsector : lba.toUInt64.toNat % 2 ^ 28 = d % 2 ^ 28 := by
        rw [hlba d hd]
        omega
      rw [hexecute ρ m host sh hidle, ← hsector]
      exact commanded_write m lba { sh.env.machine with diskBuf := blockOf line.message }
    · obtain ⟨lba, -, hlba, hexecute⟩ := exists_diskWriteSector hn h
      have hsector : lba.toUInt64.toNat % 2 ^ 28 = n % 2 ^ 28 := by
        rw [hlba hdec]
        omega
      rw [hexecute ρ m host sh hidle, ← hsector]
      exact commanded_write m lba { sh.env.machine with diskBuf := blockOf line.message }

end Numbers

/-- **Numbers are read modulo the width of a word.** The parsers accept numerals and nothing else;
the number they return is that of the numeral modulo `2 ^ 64`, and the numeral's own exactly if it
fits. `free` and `mem` act on that address, `disk` on the lowest 28 bits of it. -/
theorem numbers_modulo_word :
    (∀ (line : Line) (start stop : ℕ), stop ≤ maxLine → NumbersRead line start stop) ∧
    ∀ (ρ : Type) (m : Machine (Devices ρ)) (host : Host ρ) (sh : State (Devices ρ)) (line : Line)
      (token : List UInt8) (args : List (List UInt8)),
      sh.agentContext.confirmationPending = false → NumbersActedOn m host sh line token args :=
  ⟨fun line start _ hstop => numbersRead line start hstop,
    fun _ m host _ _ _ _ hidle => numbersActedOn m host hidle⟩

/-- `2 ^ 64` is read as zero, in decimal and in hexadecimal. -/
theorem word_size_read_as_zero :
    DecNumeral (ascii "18446744073709551616") (2 ^ 64) ∧
    (State.typed "18446744073709551616" (by decide)).line.slice 0 20 =
      ascii "18446744073709551616" ∧
    (State.typed "18446744073709551616" (by decide)).line.parseDec 0 20 = some (0, true) ∧
    HexNumeral (ascii "10000000000000000") (2 ^ 64) ∧
    (State.typed "10000000000000000" (by decide)).line.slice 0 17 = ascii "10000000000000000" ∧
    (State.typed "10000000000000000" (by decide)).line.parseHex64 0 17 = some (0, true) := by
  refine ⟨⟨by decide, [1, 8, 4, 4, 6, 7, 4, 4, 0, 7, 3, 7, 0, 9, 5, 5, 1, 6, 1, 6],
    by decide +kernel, by decide +kernel⟩, by decide +kernel, by decide +kernel,
    .inl ⟨by decide, 1 :: List.replicate 16 0, by decide +kernel, by decide +kernel⟩,
    by decide +kernel, by decide +kernel⟩

end DavOS.Shell
