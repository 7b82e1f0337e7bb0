import DavOS.Ata.Drive
import DavOS.Shell.Suggestions
import DavOS.Shell.Tokens

/-!
# The commands that take numbers

Reference: the branches `mem`, `free` and `disk` of `execute`, and `dumpMemory`, in
`shell/shell.go`.

They are put into a machine whose terminal keeps what it is given and whose disk is a drive behind
the ATA driver, so that what a line does to the drive and what it prints can be compared. The
commands return `none` where an index into `lineBuf` would panic. A `disk` that is neither `read`
nor `write` falls through to the suggestions.
-/

namespace DavOS.Shell

open Agent (ascii Name)

/-! ## The machine -/

/-- What the commands work on, with `ρ` for everything else. -/
structure Devices (ρ : Type) where
  drive : Ata.Drive
  diskBuf : Block 512
  /-- What the terminal has been given. -/
  output : List UInt8
  rest : ρ

/-- The functions of `mem` that the commands call, and the address of `diskBuf`. -/
structure Host (ρ : Type) where
  pfaReady : ρ → Bool
  freePage : UInt64 → ρ → Bool × ρ
  diskBufAddr : UInt64

section Dump

variable {σ : Type} (m : Machine σ)

/-- The text of `printHex8`. -/
def hex8Text (b : UInt8) : List UInt8 :=
  [hexDigit ((b >>> 4) &&& 0xF).toNat, hexDigit (b &&& 0xF).toNat]

/-- A byte in the right column of a dump. -/
def printable (b : UInt8) : UInt8 := if b ≥ 32 ∧ b ≤ 126 then b else 0x2E

/-- A column of `dumpMemory`: 16 bytes from `off` on, of which those beyond the length are blank.
Every byte is read when it is printed. -/
def dumpColumn (byte : ℕ → σ → UInt8) (text : UInt8 → List UInt8) (blank : List UInt8)
    (off length : ℕ) (s : σ) : σ :=
  (List.range 16).foldl (fun s j =>
    if off + j < length then m.print (text (byte (off + j) s)) s else m.print blank s) s

/-- `dumpMemory`, where `byte i` is the byte at `addr + i`. -/
def dumpMemory (byte : ℕ → σ → UInt8) (addr : UInt64) (length : ℕ) (s : σ) : σ :=
  (List.range ((length + 15) / 16)).foldl (fun s row =>
    let off := 16 * row
    let s := m.print (hexText 16 (addr + UInt64.ofNat off).toNat) s
    let s := m.print (ascii ": ") s
    let s := dumpColumn m byte (fun b => hex8Text b ++ ascii " ") (ascii "   ") off length s
    let s := m.print (ascii " |") s
    let s := dumpColumn m byte (fun b => [printable b]) (ascii " ") off length s
    m.print (ascii "|\n") s) s

end Dump

section Commands

variable {ρ : Type} (m : Machine (Devices ρ)) (host : Host ρ)

/-- The length that `mem` dumps, for the number that was given. -/
def clampLength (v : Int64) : ℕ :=
  if v < 1 then 1 else if v > 512 then 512 else v.toInt.toNat

def memCommand (line : Line) (cmdEnd stop : ℕ) (s : Devices ρ) : Option (Devices ρ) :=
  match line.nextArg cmdEnd stop with
  | none => some (m.print (ascii "Usage: mem <hex_addr> [len]\n") s)
  | some (a1s, a1e) => do
    let (addr, ok) ← line.parseHex64 a1s a1e
    let dump := fun length =>
      dumpMemory m (fun i => m.readByte (addr + UInt64.ofNat i)) addr length s
    if !ok then some (m.print (ascii "mem: invalid hex address\n") s)
    else
      match line.nextArg a1e stop with
      | none => some (dump 64)
      | some (a2s, a2e) => do
        let (v, ok2) ← line.parseDec a2s a2e
        if !ok2 then some (m.print (ascii "mem: invalid length\n") s)
        else some (dump (clampLength v))

def freeCommand (line : Line) (cmdEnd stop : ℕ) (s : Devices ρ) : Option (Devices ρ) :=
  if !host.pfaReady s.rest then some (m.print (ascii "free: pfa not ready\n") s)
  else
    match line.nextArg cmdEnd stop with
    | none => some (m.print (ascii "Usage: free <hex_addr>\n") s)
    | some (a1s, a1e) => do
      let (addr, ok) ← line.parseHex64 a1s a1e
      if !ok then some (m.print (ascii "free: invalid hex address\n") s)
      else
        let (freed, rest) := host.freePage addr s.rest
        let s := { s with rest }
        if freed then some (m.print (ascii "ok\n") s) else some (m.print (ascii "free: failed\n") s)

/-- How `disk read` reads its argument: as a hexadecimal number, or else as a decimal one. -/
def readLba (line : Line) (start stop : ℕ) : Option (Int64 × Bool) := do
  let (vHex, okHex) ← line.parseHex64 start stop
  if okHex then some (vHex.toInt64, true) else line.parseDec start stop

/-- How `disk write` reads its argument: the other way round. -/
def writeLba (line : Line) (start stop : ℕ) : Option (Int64 × Bool) := do
  let (lba, ok) ← line.parseDec start stop
  if ok then some (lba, true)
  else
    let (vHex, okHex) ← line.parseHex64 start stop
    if okHex then some (vHex.toInt64, true) else some (0, false)

/-- `ReadSector` into `diskBuf`, and what is printed about it. -/
def diskReadSector (lba : Int64) (s : Devices ρ) : Devices ρ :=
  match Ata.readSector Ata.Drive.port lba.toUInt64.toUInt32 s.diskBuf s.drive with
  | (ok, diskBuf, drive) =>
    let s := { s with drive, diskBuf }
    if ok then
      let s := m.print (ascii "Read Sector ") s
      let s := m.print (uintText lba.toUInt64) s
      let s := m.print (ascii " OK\n") s
      dumpMemory m (fun i s => s.diskBuf.get i) host.diskBufAddr 512 s
    else m.print (ascii "Read Failed\n") s

/-- `diskBuf` as `disk write` fills it: cleared, then the bytes from `msgStart` on. -/
def messageBlock (line : Line) (msgStart stop : ℕ) : Block 512 :=
  (List.range (min (stop - msgStart) 512)).foldl
    (fun buf idx => buf.put idx line.buf[msgStart + idx]!) Block.zero

/-- `WriteSector` from `diskBuf`, and what is printed about it. -/
def diskWriteSector (lba : Int64) (s : Devices ρ) : Devices ρ :=
  match Ata.writeSector Ata.Drive.port lba.toUInt64.toUInt32 s.diskBuf s.drive with
  | (ok, drive) =>
    let s := { s with drive }
    if ok then
      let s := m.print (ascii "Write Sector ") s
      let s := m.print (uintText lba.toUInt64) s
      m.print (ascii " OK\n") s
    else m.print (ascii "Write Failed\n") s

def diskRead (line : Line) (a1e stop : ℕ) (s : Devices ρ) : Option (Devices ρ) :=
  match line.nextArg a1e stop with
  | none => some (m.print (ascii "disk read: missing lba\n") s)
  | some (a2s, a2e) => do
    let (lba, ok) ← readLba line a2s a2e
    if !ok then some (m.print (ascii "disk read: invalid lba\n") s)
    else some (diskReadSector m host lba s)

def diskWrite (line : Line) (a1e stop : ℕ) (s : Devices ρ) : Option (Devices ρ) :=
  match line.nextArg a1e stop with
  | none => some (m.print (ascii "disk write: missing lba\n") s)
  | some (a2s, a2e) => do
    let (lba, ok) ← writeLba line a2s a2e
    if !ok then some (m.print (ascii "disk write: invalid lba\n") s)
    else
      let msgStart := line.trimLeft a2e stop
      some (diskWriteSector m lba { s with diskBuf := messageBlock line msgStart stop })

def diskCommand (line : Line) (cmdEnd stop : ℕ) (s : Devices ρ) : Option (Devices ρ) :=
  match line.nextArg cmdEnd stop with
  | none => some (m.print (ascii "Usage: disk <read|write> <lba> [text]\n") s)
  | some (a1s, a1e) =>
    if line.matchLiteral a1s a1e "read" then diskRead m host line a1e stop s
    else if line.matchLiteral a1s a1e "write" then diskWrite m line a1e stop s
    else some (m.print (suggestionText line (line.start) cmdEnd) s)

/-- The terminal that keeps what it is given. -/
def recording : Machine (Devices ρ) :=
  { m with putRune := fun b s => { s with output := s.output ++ [b] } }

/-- The machine with the commands of this module; the other ones are those of `m`. -/
def deviceMachine : Machine (Devices ρ) :=
  { recording m with
    command := fun command line cmdEnd stop p =>
      match command with
      | .mem => (p.1, (memCommand (recording m) line cmdEnd stop p.2).getD p.2)
      | .free => (p.1, (freeCommand (recording m) host line cmdEnd stop p.2).getD p.2)
      | .disk => (p.1, (diskCommand (recording m) host line cmdEnd stop p.2).getD p.2)
      | command => m.command command line cmdEnd stop p
    suggest := fun line cmdStart cmdEnd s =>
      (recording m).print (suggestionText line cmdStart cmdEnd) s }

end Commands

/-! ## Where `execute` finds a command -/

/-- The first command whose name a word is. -/
theorem find?_literal (line : Line) {s e : ℕ} (hle : s ≤ e) (he : e ≤ maxLine) {command : Command}
    (h : line.slice s e = ascii command.literal) :
    (Command.all.find? fun c => line.matchLiteral s e c.literal) = some command := by
  have hmatch : (fun c : Command => line.matchLiteral s e c.literal) =
      fun c => decide (ascii command.literal = ascii c.literal) := by
    funext c
    rw [Bool.eq_iff_iff, decide_eq_true_iff, line.matchLiteral_iff hle he, h]
  rw [hmatch]
  cases command <;> decide +kernel

section Execute

variable {σ : Type} (m : Machine σ) {line : Line} {sh : State σ} {args : List (List UInt8)}

/-- A command of the table is recorded in the history and executed. -/
theorem execute_of_find (hidle : sh.agentContext.confirmationPending = false)
    (hlt : line.start < line.stop) {command : Command}
    (hfind : (Command.all.find? fun c => line.matchLiteral line.start line.cmdEnd c.literal) =
      some command) :
    sh.execute m line = State.executeCommand m line line.stop line.cmdEnd command
      { sh with
        env := { sh.env with history := sh.env.history.add line line.start line.stop } } := by
  have hblank : ¬ line.trimLeft 0 line.len ≥ line.trimRight (line.trimLeft 0 line.len) line.len :=
    not_le.mpr hlt
  unfold State.execute
  simp only [hidle, Bool.false_eq_true, if_false]
  rw [if_neg hblank]
  split
  · next command' hfind' =>
    obtain rfl : command' = command := Option.some.inj (hfind'.symm.trans hfind)
    rfl
  · next hfind' => cases hfind'.symm.trans hfind

/-- A word that is no command is answered with suggestions. -/
theorem execute_of_find_none (hidle : sh.agentContext.confirmationPending = false)
    (hlt : line.start < line.stop)
    (hfind : (Command.all.find? fun c => line.matchLiteral line.start line.cmdEnd c.literal) = none)
    (hagent : ¬ line.matchLiteral line.start line.cmdEnd "agent" = true) :
    (sh.execute m line).env.machine = m.suggest line line.start line.cmdEnd sh.env.machine := by
  have hblank : ¬ line.trimLeft 0 line.len ≥ line.trimRight (line.trimLeft 0 line.len) line.len :=
    not_le.mpr hlt
  unfold State.execute
  simp only [hidle, Bool.false_eq_true, if_false]
  rw [if_neg hblank]
  split
  · next hfind' => cases hfind'.symm.trans hfind
  · split
    · next hagent' => exact absurd hagent' hagent
    · rfl

/-- The commands of this module are left to the machine. -/
theorem execute_command (hidle : sh.agentContext.confirmationPending = false) {command : Command}
    (hcommand : command = .mem ∨ command = .free ∨ command = .disk)
    (h : line.tokens = ascii command.literal :: args) :
    (sh.execute m line).env.machine =
      (m.command command line line.cmdEnd line.stop (sh.tmpName, sh.env.machine)).2 := by
  obtain ⟨hlt, hle, hstop, hword, -⟩ := Line.command_spec h
  rw [execute_of_find m hidle (hlt.trans_le hle)
    (find?_literal line hlt.le (hle.trans hstop) hword)]
  rcases hcommand with rfl | rfl | rfl <;> rfl

/-- A first word that is no command. -/
theorem execute_unknown (hidle : sh.agentContext.confirmationPending = false) {word : List UInt8}
    (h : line.tokens = word :: args) (hword : ∀ command : Command, word ≠ ascii command.literal)
    (hagent : word ≠ ascii "agent") :
    (sh.execute m line).env.machine = m.suggest line line.start line.cmdEnd sh.env.machine := by
  obtain ⟨hlt, hle, hstop, hslice, -⟩ := Line.command_spec h
  have hmatch : ∀ lit, line.matchLiteral line.start line.cmdEnd lit = true ↔ word = ascii lit := by
    intro lit
    rw [line.matchLiteral_iff hlt.le (hle.trans hstop), hslice]
  refine execute_of_find_none m hidle (hlt.trans_le hle) ?_ (mt (hmatch _).mp hagent)
  rw [List.find?_eq_none]
  exact fun command _ => mt (hmatch _).mp (hword command)

end Execute

/-! ## What the terminal shows -/

/-- A line of the dump at `addr`, from the offset `off` on. -/
def dumpRow (addr : UInt64) (bytes : ℕ → UInt8) (length off : ℕ) : List UInt8 :=
  hexText 16 (addr + UInt64.ofNat off).toNat ++ ascii ": " ++
    ((List.range 16).flatMap fun j =>
      if off + j < length then hex8Text (bytes (off + j)) ++ ascii " " else ascii "   ") ++
    ascii " |" ++
    ((List.range 16).flatMap fun j =>
      if off + j < length then [printable (bytes (off + j))] else ascii " ") ++
    ascii "|\n"

/-- The dump of bytes that do not change while they are printed. -/
def dumpText (addr : UInt64) (bytes : ℕ → UInt8) (length : ℕ) : List UInt8 :=
  (List.range ((length + 15) / 16)).flatMap fun row => dumpRow addr bytes length (16 * row)

section Print

variable {σ : Type} (m : Machine σ)

/-- Printing goes piece by piece. -/
theorem print_append (a b : List UInt8) (s : σ) : m.print (a ++ b) s = m.print b (m.print a s) :=
  List.foldl_append

/-- What `putRune` does not change, printing does not change. -/
theorem print_keeps {β : Type} {f : σ → β} (hf : ∀ b s, f (m.putRune b s) = f s)
    (text : List UInt8) (s : σ) : f (m.print text s) = f s := by
  induction text generalizing s with
  | nil => rfl
  | cons b text ih => exact (ih (m.putRune b s)).trans (hf b s)

/-- Printing one after another what printing does not change. -/
theorem foldl_print {β : Type} (f : β → σ → List UInt8)
    (hf : ∀ x b s, f x (m.putRune b s) = f x s) (l : List β) (s : σ) :
    l.foldl (fun s x => m.print (f x s) s) s = m.print (l.flatMap fun x => f x s) s := by
  induction l generalizing s with
  | nil => rfl
  | cons x l ih =>
    rw [List.foldl_cons, ih, List.flatMap_cons, print_append]
    simp only [print_keeps m (hf _)]

variable {byte : ℕ → σ → UInt8} (hbyte : ∀ i b s, byte i (m.putRune b s) = byte i s)
include hbyte

/-- A column of the dump prints 16 bytes, with blanks behind the end. -/
theorem dumpColumn_eq (text : UInt8 → List UInt8) (blank : List UInt8) (off length : ℕ) (s : σ) :
    dumpColumn m byte text blank off length s = m.print ((List.range 16).flatMap fun j =>
      if off + j < length then text (byte (off + j) s) else blank) s := by
  rw [← foldl_print m (fun j s => if off + j < length then text (byte (off + j) s) else blank)
    (fun j b s => by rw [hbyte])]
  rw [dumpColumn]
  congr 1
  funext s j
  split <;> rfl

/-- `dumpMemory` prints `dumpText`. -/
theorem dumpMemory_eq (addr : UInt64) (length : ℕ) (s : σ) :
    dumpMemory m byte addr length s = m.print (dumpText addr (fun i => byte i s) length) s := by
  rw [dumpText, ← foldl_print m (fun row s => dumpRow addr (fun i => byte i s) length (16 * row))
    (fun row b s => by simp only [hbyte])]
  rw [dumpMemory]
  congr 1
  funext s row
  simp only [dumpColumn_eq m hbyte, dumpRow, print_append, print_keeps m (hbyte _)]

end Print

section Recording

variable {ρ : Type} (m : Machine (Devices ρ)) (host : Host ρ)

@[simp] theorem recording_print (text : List UInt8) (s : Devices ρ) :
    (recording m).print text s = { s with output := s.output ++ text } := by
  induction text generalizing s with
  | nil => rw [List.append_nil]; rfl
  | cons b text ih =>
    rw [Machine.print, List.foldl_cons]
    refine (ih _).trans ?_
    rw [recording, List.append_assoc, List.singleton_append]

end Recording

/-! ## Lines that no command handles -/

/-- The first word is no command, or it is `disk` with an argument that `disk` does not know. -/
def Unhandled (word : List UInt8) (args : List (List UInt8)) : Prop :=
  ((∀ command : Command, word ≠ ascii command.literal) ∧ word ≠ ascii "agent") ∨
    (word = ascii "disk" ∧ ∃ sub rest, args = sub :: rest ∧ sub ≠ ascii "read" ∧
      sub ≠ ascii "write")

section Unhandled

variable {ρ : Type} (m : Machine (Devices ρ)) (host : Host ρ) {line : Line}
  {sh : State (Devices ρ)} {word : List UInt8} {args : List (List UInt8)}

/-- **A line that no command handles** ends in the suggestions for its first word. -/
theorem execute_unhandled (hidle : sh.agentContext.confirmationPending = false)
    (h : line.tokens = word :: args) (hunhandled : Unhandled word args) :
    (sh.execute (deviceMachine m host) line).env.machine =
      { sh.env.machine with output := sh.env.machine.output ++ answerText word } := by
  obtain ⟨-, hle, hstop, hslice, hargs⟩ := Line.command_spec h
  have hanswer : suggestionText line line.start line.cmdEnd = answerText word := by
    rw [suggestionText_eq line line.start (hle.trans hstop), hslice]
  rcases hunhandled with ⟨hword, hagent⟩ | ⟨rfl, sub, rest, rfl, hread, hwrite⟩
  · rw [execute_unknown _ hidle h hword hagent, ← hanswer]
    exact recording_print m _ _
  · rw [execute_command _ hidle (.inr (.inr rfl)) h, ← hanswer]
    obtain ⟨s, e, hsome, hlt, he, rfl, -⟩ := line.nextArg_of_words hle hstop hargs
    have hmatch : ∀ lit, line.slice s e ≠ ascii lit → ¬ line.matchLiteral s e lit = true :=
      fun lit => mt (line.matchLiteral_iff hlt.le (he.trans hstop)).mp
    change (diskCommand (recording m) host line line.cmdEnd line.stop sh.env.machine).getD _ = _
    rw [diskCommand, hsome]
    dsimp only
    rw [if_neg (hmatch _ hread), if_neg (hmatch _ hwrite), Option.getD_some, recording_print]

end Unhandled

/-- The near commands are those within two edits of the word. -/
theorem mem_nearCommands_iff {word : List UInt8} {cmd : String} :
    cmd ∈ nearCommands word ↔
      cmd ∈ commandBuf ∧ ∃ n < 3, EditDistance.Edits n word (ascii cmd) := by
  obtain ⟨hreached, hleast⟩ := EditDistance.distance_isLeast word (ascii cmd)
  rw [nearCommands, List.mem_filter, decide_eq_true_iff]
  refine and_congr_right fun _ => ⟨fun hlt => ⟨_, hlt, hreached⟩, ?_⟩
  rintro ⟨n, hn, hedits⟩
  exact lt_of_le_of_lt (hleast hedits) hn

/-- **Suggestions use the edit distance.** `calculateDistance` is the least number of edits, and a
line that no command handles is answered with the commands at less than three edits from its first
word, in the order of the table, or with `Unknown command` if there are none. -/
theorem suggestions_exact :
    (∀ (line : Line) (start stop : ℕ) (cmd : List UInt8), stop ≤ maxLine → cmd.length ≤ maxLine →
      IsLeast {n | EditDistance.Edits n (line.slice start stop) cmd}
        (line.calculateDistance start stop cmd)) ∧
    ∀ (ρ : Type) (m : Machine (Devices ρ)) (host : Host ρ) (sh : State (Devices ρ)) (line : Line)
      (word : List UInt8) (args : List (List UInt8)),
      sh.agentContext.confirmationPending = false → line.tokens = word :: args →
      Unhandled word args →
      ∃ near : List String, near.Sublist commandBuf ∧
        (∀ cmd, cmd ∈ near ↔ cmd ∈ commandBuf ∧ ∃ n < 3, EditDistance.Edits n word (ascii cmd)) ∧
        (sh.execute (deviceMachine m host) line).env.machine =
          { sh.env.machine with
            output := sh.env.machine.output ++
              if near = [] then ascii "Unknown command: " ++ word ++ ascii "\n"
              else ascii "Did you mean '" ++ (ascii " ").intercalate (near.map ascii) ++
                ascii "'?\n" } := by
  refine ⟨?_, ?_⟩
  · intro line start stop cmd hstop hcmd
    rw [line.calculateDistance_eq hstop hcmd]
    exact EditDistance.distance_isLeast _ _
  · intro ρ m host sh line word args hidle htokens hunhandled
    exact ⟨nearCommands word, List.filter_sublist, fun cmd => mem_nearCommands_iff,
      execute_unhandled m host hidle htokens hunhandled⟩

/-! ## The numbers that the commands act on -/

section Numbers

variable {ρ : Type} (m : Machine (Devices ρ)) (host : Host ρ) {line : Line}
  {sh : State (Devices ρ)} {token : List UInt8} {args : List (List UInt8)}

/-- `free` frees the page at the number that `parseHex64` has read, or nothing. -/
theorem execute_free (hidle : sh.agentContext.confirmationPending = false)
    (hready : host.pfaReady sh.env.machine.rest = true)
    (h : line.tokens = ascii "free" :: token :: args) :
    (∀ n, HexNumeral token n → (sh.execute (deviceMachine m host) line).env.machine =
      { sh.env.machine with
        rest := (host.freePage (UInt64.ofNat n) sh.env.machine.rest).2
        output := sh.env.machine.output ++
          if (host.freePage (UInt64.ofNat n) sh.env.machine.rest).1 then ascii "ok\n"
          else ascii "free: failed\n" }) ∧
    ((∀ n, ¬ HexNumeral token n) → (sh.execute (deviceMachine m host) line).env.machine =
      { sh.env.machine with
        output := sh.env.machine.output ++ ascii "free: invalid hex address\n" }) := by
  obtain ⟨-, hle, hstop, -, hargs⟩ := Line.command_spec h
  obtain ⟨s, e, hsome, -, he, rfl, -⟩ := line.nextArg_of_words hle hstop hargs
  have hexecute : (sh.execute (deviceMachine m host) line).env.machine =
      (freeCommand (recording m) host line line.cmdEnd line.stop sh.env.machine).getD
        sh.env.machine := execute_command _ hidle (.inr (.inl rfl)) h
  rw [hexecute, freeCommand, hready, hsome]
  constructor
  · intro n hn
    simp only [line.parseHex64_of_numeral (he.trans hstop) hn, Bool.not_true, Bool.false_eq_true,
      if_false, Option.bind_eq_bind, Option.bind_some, recording_print]
    split <;> rfl
  · intro hnot
    simp only [line.parseHex64_of_not (he.trans hstop) hnot, Bool.not_true, Bool.false_eq_true,
      Bool.not_false, if_false, if_true, Option.bind_eq_bind, Option.bind_some, recording_print,
      Option.getD_some]

/-- The length that `mem` dumps, or `none` where it refuses the one that was given. -/
inductive DumpLength : List (List UInt8) → Option ℕ → Prop
  | absent : DumpLength [] (some 64)
  | given {arg : List UInt8} {rest : List (List UInt8)} {d : ℕ} :
      DecNumeral arg d → DumpLength (arg :: rest) (some (clampLength (Int64.ofNat d)))
  | refused {arg : List UInt8} {rest : List (List UInt8)} :
      (∀ d, ¬ DecNumeral arg d) → DumpLength (arg :: rest) none

/-- `mem` dumps from the number that `parseHex64` has read, or prints an error. -/
theorem execute_mem (hidle : sh.agentContext.confirmationPending = false)
    (h : line.tokens = ascii "mem" :: token :: args) :
    (∀ n, HexNumeral token n → ∀ length, DumpLength args length →
      (sh.execute (deviceMachine m host) line).env.machine =
        length.elim
          { sh.env.machine with
            output := sh.env.machine.output ++ ascii "mem: invalid length\n" }
          fun length => dumpMemory (recording m)
            (fun i => m.readByte (UInt64.ofNat n + UInt64.ofNat i)) (UInt64.ofNat n) length
            sh.env.machine) ∧
    ((∀ n, ¬ HexNumeral token n) → (sh.execute (deviceMachine m host) line).env.machine =
      { sh.env.machine with
        output := sh.env.machine.output ++ ascii "mem: invalid hex address\n" }) := by
  obtain ⟨-, hle, hstop, -, hargs⟩ := Line.command_spec h
  obtain ⟨s, e, hsome, -, he, rfl, hrest⟩ := line.nextArg_of_words hle hstop hargs
  have hexecute : (sh.execute (deviceMachine m host) line).env.machine =
      (memCommand (recording m) line line.cmdEnd line.stop sh.env.machine).getD
        sh.env.machine := execute_command _ hidle (.inl rfl) h
  rw [hexecute, memCommand, hsome]
  constructor
  · intro n hn length hlength
    simp only [line.parseHex64_of_numeral (he.trans hstop) hn, Bool.not_true, Bool.false_eq_true,
      if_false, Option.bind_eq_bind, Option.bind_some]
    cases hlength with
    | absent =>
      simp only [line.nextArg_of_words_nil he hstop hrest, Option.getD_some, Option.elim_some]
      rfl
    | given hd =>
      obtain ⟨s', e', hsome', -, he', rfl, -⟩ := line.nextArg_of_words he hstop hrest
      simp only [hsome', line.parseDec_of_numeral (he'.trans hstop) hd, Bool.not_true,
        Bool.false_eq_true, if_false, Option.bind_some, Option.getD_some, Option.elim_some]
      rfl
    | refused hnot =>
      obtain ⟨s', e', hsome', -, he', rfl, -⟩ := line.nextArg_of_words he hstop hrest
      simp only [hsome', line.parseDec_of_not (he'.trans hstop) hnot, Bool.not_false, if_true,
        Option.bind_some, Option.getD_some, Option.elim_none, recording_print]
  · intro hnot
    simp only [line.parseHex64_of_not (he.trans hstop) hnot, Bool.not_false, if_true,
      Option.bind_eq_bind, Option.bind_some, recording_print, Option.getD_some]

end Numbers

section Lba

variable (line : Line) {start stop : ℕ} {n d : ℕ}

/-- `disk read` takes every numeral for a hexadecimal one. -/
theorem readLba_of_numeral (hstop : stop ≤ maxLine) (hn : HexNumeral (line.slice start stop) n) :
    readLba line start stop = some ((UInt64.ofNat n).toInt64, true) := by
  rw [readLba, line.parseHex64_of_numeral hstop hn]
  rfl

/-- `disk read` refuses what is no hexadecimal numeral. -/
theorem readLba_of_not (hstop : stop ≤ maxLine)
    (hnot : ∀ n, ¬ HexNumeral (line.slice start stop) n) :
    readLba line start stop = some (0, false) := by
  rw [readLba, line.parseHex64_of_not hstop hnot,
    ← line.parseDec_of_not hstop (not_decNumeral_of_not_hex hnot)]
  rfl

/-- `disk write` takes a decimal numeral for what it is. -/
theorem writeLba_of_dec (hstop : stop ≤ maxLine) (hd : DecNumeral (line.slice start stop) d) :
    writeLba line start stop = some (Int64.ofNat d, true) := by
  rw [writeLba, line.parseDec_of_numeral hstop hd]
  rfl

/-- `disk write` falls back to hexadecimal if the token is no decimal numeral. -/
theorem writeLba_of_hex (hstop : stop ≤ maxLine)
    (hdec : ∀ d, ¬ DecNumeral (line.slice start stop) d)
    (hn : HexNumeral (line.slice start stop) n) :
    writeLba line start stop = some ((UInt64.ofNat n).toInt64, true) := by
  rw [writeLba, line.parseDec_of_not hstop hdec, line.parseHex64_of_numeral hstop hn]
  rfl

/-- `disk write` refuses what is neither. -/
theorem writeLba_of_not (hstop : stop ≤ maxLine)
    (hnot : ∀ n, ¬ HexNumeral (line.slice start stop) n) :
    writeLba line start stop = some (0, false) := by
  rw [writeLba, line.parseDec_of_not hstop (not_decNumeral_of_not_hex hnot),
    line.parseHex64_of_not hstop hnot]
  rfl

end Lba

end DavOS.Shell
