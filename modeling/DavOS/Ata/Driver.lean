import DavOS.Lib.ByteBlock
import Mathlib.Tactic.Common

/-!
# The ATA driver

Reference: `drivers/ata/ata.go`.

The driver programs a 28-bit sector number into four registers and polls the status register a
bounded number of times. It is written over the four port instructions, on an arbitrary device.
-/

namespace DavOS.Ata

/-- The port instructions. `insw` and `outsw` are the transfers of 256 words, into and out of a
buffer of 512 bytes. -/
structure Port (σ : Type) where
  inb : UInt16 → σ → UInt8 × σ
  outb : UInt16 → UInt8 → σ → σ
  insw : UInt16 → σ → Block 512 × σ
  outsw : UInt16 → Block 512 → σ → σ

namespace Reg

def data : UInt16 := 0x1F0

def secCount : UInt16 := 0x1F2

def lbaLo : UInt16 := 0x1F3

def lbaMid : UInt16 := 0x1F4

def lbaHi : UInt16 := 0x1F5

def driveHead : UInt16 := 0x1F6

def statusCmd : UInt16 := 0x1F7

end Reg

def cmdRead : UInt8 := 0x20

def cmdWrite : UInt8 := 0x30

def cmdFlush : UInt8 := 0xE7

/-! ## Sector numbers -/

structure LBARegs where
  driveHead : UInt8
  lbaLo : UInt8
  lbaMid : UInt8
  lbaHi : UInt8
deriving DecidableEq, Repr

/-- `LBA28ToRegs` -/
def lba28ToRegs (lba : UInt32) : LBARegs where
  driveHead := (0xE0 : UInt8) ||| ((lba >>> 24) &&& 0x0F).toUInt8
  lbaLo := lba.toUInt8
  lbaMid := (lba >>> 8).toUInt8
  lbaHi := (lba >>> 16).toUInt8

/-- The sector that a drive takes the registers for: the low half of `driveHead`, and the three
others. -/
def LBARegs.sector (r : LBARegs) : ℕ :=
  r.driveHead.toNat % 16 * 2 ^ 24 + r.lbaHi.toNat * 2 ^ 16 + r.lbaMid.toNat * 2 ^ 8 + r.lbaLo.toNat

theorem toNat_driveHead (lba : UInt32) :
    (lba28ToRegs lba).driveHead.toNat = 0xE0 + lba.toNat / 2 ^ 24 % 16 := by
  have hhigh : ((lba >>> 24) &&& 0x0F).toUInt8.toNat = lba.toNat / 2 ^ 24 % 16 := by
    rw [UInt32.toNat_toUInt8, UInt32.toNat_and, UInt32.toNat_shiftRight, Nat.shiftRight_eq_div_pow]
    change (lba.toNat / 2 ^ 24 &&& 2 ^ 4 - 1) % 2 ^ 8 = _
    rw [Nat.and_two_pow_sub_one_eq_mod]
    omega
  have hlt : lba.toNat / 2 ^ 24 % 16 < 2 ^ 4 := Nat.mod_lt _ (by decide)
  rw [lba28ToRegs, UInt8.toNat_or, hhigh]
  exact (Nat.shiftLeft_add_eq_or_of_lt hlt 14).symm

theorem toNat_shiftRight_toUInt8 (lba k : UInt32) (hk : k.toNat < 32) :
    (lba >>> k).toUInt8.toNat = lba.toNat / 2 ^ k.toNat % 2 ^ 8 := by
  rw [UInt32.toNat_toUInt8, UInt32.toNat_shiftRight, Nat.shiftRight_eq_div_pow,
    Nat.mod_eq_of_lt hk]

/-- **The registers hold 28 bits of the sector number**, and the upper four are lost. -/
theorem sector_lba28ToRegs (lba : UInt32) : (lba28ToRegs lba).sector = lba.toNat % 2 ^ 28 := by
  have hlo : (lba28ToRegs lba).lbaLo.toNat = lba.toNat % 2 ^ 8 := UInt32.toNat_toUInt8 lba
  have hmid : (lba28ToRegs lba).lbaMid.toNat = lba.toNat / 2 ^ 8 % 2 ^ 8 :=
    toNat_shiftRight_toUInt8 lba 8 (by decide)
  have hhi : (lba28ToRegs lba).lbaHi.toNat = lba.toNat / 2 ^ 16 % 2 ^ 8 :=
    toNat_shiftRight_toUInt8 lba 16 (by decide)
  rw [LBARegs.sector, toNat_driveHead, hlo, hmid, hhi]
  omega

/-- A number below `2 ^ 28` is what the drive takes the registers for. -/
theorem sector_lba28ToRegs_of_lt {lba : UInt32} (h : lba.toNat < 2 ^ 28) :
    (lba28ToRegs lba).sector = lba.toNat := by
  rw [sector_lba28ToRegs, Nat.mod_eq_of_lt h]

example : lba28ToRegs 0x01234567 = ⟨0xE1, 0x67, 0x45, 0x23⟩ := by decide

/-! ## Transfers -/

section Transfers

variable {σ : Type} (p : Port σ)

def ataTimeout : ℕ := 100000

/-- The loop of `waitBusy` and `waitDRQ`: `done` says with which result a status ends it. -/
def poll (done : UInt8 → Option Bool) : ℕ → σ → Bool × σ
  | 0, s => (false, s)
  | n + 1, s =>
    let (status, s) := p.inb Reg.statusCmd s
    match done status with
    | some result => (result, s)
    | none => poll done n s

def waitBusy (s : σ) : Bool × σ :=
  poll p (fun status => if status &&& 0x80 = 0 then some true else none) ataTimeout s

def waitDRQ (s : σ) : Bool × σ :=
  poll p (fun status =>
    if status &&& 0x01 ≠ 0 then some false
    else if status &&& 0x08 ≠ 0 then some true
    else none) ataTimeout s

/-- The register writes of `ReadSector` and `WriteSector`, with the command at the end. -/
def command (cmd : UInt8) (lba : UInt32) (s : σ) : σ :=
  let regs := lba28ToRegs lba
  let s := p.outb Reg.driveHead regs.driveHead s
  let s := p.outb Reg.secCount 1 s
  let s := p.outb Reg.lbaLo regs.lbaLo s
  let s := p.outb Reg.lbaMid regs.lbaMid s
  let s := p.outb Reg.lbaHi regs.lbaHi s
  p.outb Reg.statusCmd cmd s

/-- `ReadSector`: the result, what the buffer holds afterwards, and the device. -/
def readSector (lba : UInt32) (buf : Block 512) (s : σ) : Bool × Block 512 × σ :=
  match waitBusy p s with
  | (false, s) => (false, buf, s)
  | (true, s) =>
    match waitDRQ p (command p cmdRead lba s) with
    | (false, s) => (false, buf, s)
    | (true, s) =>
      let (buf, s) := p.insw Reg.data s
      (true, buf, s)

def writeSector (lba : UInt32) (data : Block 512) (s : σ) : Bool × σ :=
  match waitBusy p s with
  | (false, s) => (false, s)
  | (true, s) =>
    match waitDRQ p (command p cmdWrite lba s) with
    | (false, s) => (false, s)
    | (true, s) =>
      let s := p.outsw Reg.data data s
      waitBusy p (p.outb Reg.statusCmd cmdFlush s)

end Transfers

end DavOS.Ata
