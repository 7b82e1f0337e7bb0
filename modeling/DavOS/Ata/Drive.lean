import DavOS.Ata.Driver
import Mathlib.Logic.Function.Basic

/-!
# A drive behind the ports

The device that `drivers/ata/ata.go` talks to, as far as the driver can see it: the registers that
select a sector, the command that starts a transfer, and the sectors. Nothing is assumed about the
status register: `status` is any sequence of bytes, so that a drive may be slow, fail, or never
answer. What is assumed is that a transfer which the driver carries out reaches the sector that was
selected.
-/

namespace DavOS.Ata

/-- An access that the drive is commanded to make. -/
inductive Access
  | read (sector : ℕ)
  | write (sector : ℕ)
deriving DecidableEq, Repr

def Access.sector : Access → ℕ
  | .read n => n
  | .write n => n

structure Drive where
  image : ℕ → Block 512
  regs : LBARegs
  /-- The transfer that the last command asks for. -/
  pending : Option Access
  /-- The accesses commanded so far. -/
  accesses : List Access
  /-- The status register, reading by reading. -/
  status : ℕ → UInt8
  polls : ℕ

namespace Drive

def inb (port : UInt16) (d : Drive) : UInt8 × Drive :=
  if port = Reg.statusCmd then (d.status d.polls, { d with polls := d.polls + 1 }) else (0, d)

/-- A write to the command register. The flush is the only command without a sector. -/
def start (cmd : UInt8) (d : Drive) : Drive :=
  if cmd = cmdRead then
    { d with
      pending := some (.read d.regs.sector)
      accesses := d.accesses ++ [.read d.regs.sector] }
  else if cmd = cmdWrite then
    { d with
      pending := some (.write d.regs.sector)
      accesses := d.accesses ++ [.write d.regs.sector] }
  else { d with pending := none }

def outb (port : UInt16) (value : UInt8) (d : Drive) : Drive :=
  if port = Reg.driveHead then { d with regs := { d.regs with driveHead := value } }
  else if port = Reg.lbaLo then { d with regs := { d.regs with lbaLo := value } }
  else if port = Reg.lbaMid then { d with regs := { d.regs with lbaMid := value } }
  else if port = Reg.lbaHi then { d with regs := { d.regs with lbaHi := value } }
  else if port = Reg.statusCmd then d.start value
  else d

def insw (port : UInt16) (d : Drive) : Block 512 × Drive :=
  if port = Reg.data then
    match d.pending with
    | some (.read n) => (d.image n, d)
    | _ => (Block.zero, d)
  else (Block.zero, d)

def outsw (port : UInt16) (data : Block 512) (d : Drive) : Drive :=
  if port = Reg.data then
    match d.pending with
    | some (.write n) => { d with image := Function.update d.image n data }
    | _ => d
  else d

/-- The ports of the drive. -/
def port : Port Drive := ⟨inb, outb, insw, outsw⟩

/-! ## The steps of a transfer -/

variable (d : Drive)

/-- Polling changes nothing but the number of readings. -/
theorem poll_eq (done : UInt8 → Option Bool) (n : ℕ) (d : Drive) :
    ∃ result polls, poll port done n d = (result, { d with polls }) := by
  induction n generalizing d with
  | zero => exact ⟨false, d.polls, rfl⟩
  | succ n ih =>
    cases hdone : done (d.status d.polls) with
    | some result =>
      refine ⟨result, d.polls + 1, ?_⟩
      simp only [poll, port, inb, if_true, hdone]
    | none =>
      obtain ⟨result, polls, heq⟩ := ih { d with polls := d.polls + 1 }
      refine ⟨result, polls, ?_⟩
      simp only [poll, port, inb, if_true, hdone]
      exact heq

/-- Waiting changes the number of polls only. -/
theorem waitBusy_eq (d : Drive) : ∃ result polls, waitBusy port d = (result, { d with polls }) :=
  poll_eq _ _ d

/-- Waiting for data changes the number of polls only. -/
theorem waitDRQ_eq (d : Drive) : ∃ result polls, waitDRQ port d = (result, { d with polls }) :=
  poll_eq _ _ d

/-- The register writes before a command select the sector, modulo `2 ^ 28`. -/
theorem command_eq (cmd : UInt8) (lba : UInt32) :
    command port cmd lba d = start cmd { d with regs := lba28ToRegs lba } := rfl

/-- A read command starts a read of the sector in the registers. -/
theorem command_read (lba : UInt32) : command port cmdRead lba d =
    { d with
      regs := lba28ToRegs lba
      pending := some (.read (lba.toNat % 2 ^ 28))
      accesses := d.accesses ++ [.read (lba.toNat % 2 ^ 28)] } := by
  rw [command_eq, start, if_pos rfl, sector_lba28ToRegs]

/-- A write command starts a write of the sector in the registers. -/
theorem command_write (lba : UInt32) : command port cmdWrite lba d =
    { d with
      regs := lba28ToRegs lba
      pending := some (.write (lba.toNat % 2 ^ 28))
      accesses := d.accesses ++ [.write (lba.toNat % 2 ^ 28)] } := by
  rw [command_eq, start, if_neg (by decide), if_pos rfl, sector_lba28ToRegs]

/-! ## What the driver does to a drive -/

/-- **Reading a sector**: the drive is commanded to access the sector that the registers hold, or
nothing at all, and a read that succeeds has filled the buffer from it. -/
theorem readSector_cases (lba : UInt32) (buf : Block 512) {ok : Bool} {buf' : Block 512}
    {d' : Drive} (h : readSector port lba buf d = (ok, buf', d')) :
    d'.image = d.image ∧
      ((ok = false ∧ buf' = buf ∧ d'.accesses = d.accesses) ∨
       (ok = false ∧ buf' = buf ∧ d'.accesses = d.accesses ++ [.read (lba.toNat % 2 ^ 28)]) ∨
       (ok = true ∧ buf' = d.image (lba.toNat % 2 ^ 28) ∧
         d'.accesses = d.accesses ++ [.read (lba.toNat % 2 ^ 28)])) := by
  obtain ⟨busy, polls, hbusy⟩ := waitBusy_eq d
  rw [readSector, hbusy] at h
  cases busy with
  | false =>
    cases h
    exact ⟨rfl, .inl ⟨rfl, rfl, rfl⟩⟩
  | true =>
    obtain ⟨drq, polls', hdrq⟩ := waitDRQ_eq (command port cmdRead lba { d with polls })
    simp only [hdrq] at h
    rw [command_read] at h
    cases drq with
    | false =>
      cases h
      exact ⟨rfl, .inr (.inl ⟨rfl, rfl, rfl⟩)⟩
    | true =>
      cases h
      exact ⟨rfl, .inr (.inr ⟨rfl, rfl, rfl⟩)⟩

/-- **Writing a sector**: the drive is commanded to access the sector that the registers hold, or
nothing at all. Either no sector has changed, or that one holds the data; it does if the write has
succeeded. -/
theorem writeSector_cases (lba : UInt32) (data : Block 512) {ok : Bool} {d' : Drive}
    (h : writeSector port lba data d = (ok, d')) :
    (ok = false ∧ d'.image = d.image ∧ d'.accesses = d.accesses) ∨
    (ok = false ∧ d'.image = d.image ∧
      d'.accesses = d.accesses ++ [.write (lba.toNat % 2 ^ 28)]) ∨
    (d'.image = Function.update d.image (lba.toNat % 2 ^ 28) data ∧
      d'.accesses = d.accesses ++ [.write (lba.toNat % 2 ^ 28)]) := by
  obtain ⟨busy, polls, hbusy⟩ := waitBusy_eq d
  rw [writeSector, hbusy] at h
  cases busy with
  | false =>
    cases h
    exact .inl ⟨rfl, rfl, rfl⟩
  | true =>
    obtain ⟨drq, polls', hdrq⟩ := waitDRQ_eq (command port cmdWrite lba { d with polls })
    simp only [hdrq] at h
    rw [command_write] at h
    cases drq with
    | false =>
      cases h
      exact .inr (.inl ⟨rfl, rfl, rfl⟩)
    | true =>
      -- the flush that follows the transfer changes no sector
      obtain ⟨flushed, polls'', hflush⟩ := waitBusy_eq (outb Reg.statusCmd cmdFlush
        (outsw Reg.data data
          { d with
            regs := lba28ToRegs lba
            pending := some (.write (lba.toNat % 2 ^ 28))
            accesses := d.accesses ++ [.write (lba.toNat % 2 ^ 28)]
            polls := polls' }))
      cases hflush.symm.trans h
      exact .inr (.inr ⟨rfl, rfl⟩)

/-- A call commands the drive to make one access at most. -/
theorem readSector_accesses (lba : UInt32) (buf : Block 512) {ok : Bool} {buf' : Block 512}
    {d' : Drive} (h : readSector port lba buf d = (ok, buf', d')) :
    d'.accesses = d.accesses ∨ d'.accesses = d.accesses ++ [.read (lba.toNat % 2 ^ 28)] := by
  obtain ⟨-, ⟨-, -, heq⟩ | ⟨-, -, heq⟩ | ⟨-, -, heq⟩⟩ := d.readSector_cases lba buf h
  · exact .inl heq
  · exact .inr heq
  · exact .inr heq

/-- `WriteSector` commands the drive to write one sector, or gives up before. -/
theorem writeSector_accesses (lba : UInt32) (data : Block 512) {ok : Bool} {d' : Drive}
    (h : writeSector port lba data d = (ok, d')) :
    d'.accesses = d.accesses ∨ d'.accesses = d.accesses ++ [.write (lba.toNat % 2 ^ 28)] := by
  obtain ⟨-, -, heq⟩ | ⟨-, -, heq⟩ | ⟨-, heq⟩ := d.writeSector_cases lba data h
  · exact .inl heq
  · exact .inr heq
  · exact .inr heq

/-! ## A drive that is always ready -/

/-- The status register says "not busy" and "data request" at every reading. -/
def Ready : Prop := ∀ n, d.status n = 0x08

variable {d}

/-- A ready drive ends a wait with the first poll. -/
theorem Ready.poll (h : d.Ready) {done : UInt8 → Option Bool} (hdone : done 0x08 = some true)
    (n : ℕ) : Ata.poll port done (n + 1) d = (true, { d with polls := d.polls + 1 }) := by
  simp only [Ata.poll, port, inb, if_true, h d.polls, hdone]

/-- A ready drive is not busy. -/
theorem Ready.waitBusy (h : d.Ready) :
    Ata.waitBusy port d = (true, { d with polls := d.polls + 1 }) :=
  h.poll (by decide) 99999

/-- A ready drive has its data ready. -/
theorem Ready.waitDRQ (h : d.Ready) :
    Ata.waitDRQ port d = (true, { d with polls := d.polls + 1 }) :=
  h.poll (by decide) 99999

/-- A read from a ready drive succeeds. -/
theorem Ready.readSector (h : d.Ready) (lba : UInt32) (buf : Block 512) :
    (Ata.readSector port lba buf d).1 = true := by
  have hdrq : (command port cmdRead lba { d with polls := d.polls + 1 }).Ready := h
  simp only [Ata.readSector, h.waitBusy, hdrq.waitDRQ]

/-- A write to a ready drive succeeds. -/
theorem Ready.writeSector (h : d.Ready) (lba : UInt32) (data : Block 512) :
    (Ata.writeSector port lba data d).1 = true := by
  have hdrq : (command port cmdWrite lba { d with polls := d.polls + 1 }).Ready := h
  simp only [Ata.writeSector, h.waitBusy, hdrq.waitDRQ]
  have hflush : (port.outb Reg.statusCmd cmdFlush (port.outsw Reg.data data
      { command port cmdWrite lba { d with polls := d.polls + 1 } with
        polls := (command port cmdWrite lba { d with polls := d.polls + 1 }).polls + 1 })).Ready :=
    h
  rw [hflush.waitBusy]

end Drive

end DavOS.Ata
