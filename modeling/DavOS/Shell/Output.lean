import DavOS.Mem.Allocator
import DavOS.Serial.Transport
import DavOS.Shell.Line

/-!
# What the shell works on

Reference: the variables and the printing functions of `shell/shell.go`.

`Machine` collects what the shell calls in other packages, over the state `σ` they share: the
terminal, the file system, the memory map, the timer, the serial port, and the physical memory that
`cat` reads. Of the commands that are not about the agent, those that only print are modelled, and
`Machine.command` stands for what the others do.
-/

namespace DavOS.Shell

open Agent (ascii Name)
open Mem (MMapEntry)

/-! ## History -/

abbrev maxHistory : ℕ := 32

/-- The history ring buffer: `historyBuf`, `historyLen`, `historyHead` and `historyCount`. -/
structure History where
  buf : Vector (Vector UInt8 maxLine) maxHistory
  len : Vector ℕ maxHistory
  head : ℕ
  count : ℕ
  head_lt : head < maxHistory
  count_le : count ≤ maxHistory

namespace History

variable (h : History)

/-- The duplicate check of `execute`. -/
def isDuplicate (line : Line) (start stop : ℕ) : Bool :=
  let lastIdx := (h.head + maxHistory - 1) % maxHistory
  0 < h.count && h.len[lastIdx]! = stop - start &&
    (List.range (stop - start)).all fun i => (h.buf[lastIdx]!)[i]! = line.buf[start + i]!

/-- How `execute` adds the line to the history. -/
def add (line : Line) (start stop : ℕ) : History :=
  if h.isDuplicate line start stop then h
  else
    { buf := h.buf.set! h.head ((List.range (stop - start)).foldl
        (fun b i => b.set! i line.buf[start + i]!) h.buf[h.head]!)
      len := h.len.set! h.head (stop - start)
      head := (h.head + 1) % maxHistory
      count := if h.count < maxHistory then h.count + 1 else h.count
      head_lt := Nat.mod_lt _ (by decide)
      count_le := by
        have := h.count_le
        split <;> omega }

end History

/-! ## The rest of the machine -/

/-- A used entry of the file system. -/
structure FileEntry where
  name : Name
  nameLen : ℕ
  size : UInt64
  page : UInt64

/-- The commands of the shell but `agent`, in the order in which `execute` tries them. -/
inductive Command
  | history | help | clear | echo | ticks | uptime | mem | mmap | mmapmax | pfa | alloc | free | ls
  | write | cat | rm | stat | disk | fatinit | fatformat | fatinfo | fatls | fatcreate | fatread
  | layout | version | run
deriving DecidableEq, Repr

namespace Command

def all : List Command :=
  [history, help, clear, echo, ticks, uptime, mem, mmap, mmapmax, pfa, alloc, free, ls, write, cat,
    rm, stat, disk, fatinit, fatformat, fatinfo, fatls, fatcreate, fatread, layout, version, run]

def literal : Command → String
  | history => "history"
  | help => "help"
  | clear => "clear"
  | echo => "echo"
  | ticks => "ticks"
  | uptime => "uptime"
  | mem => "mem"
  | mmap => "mmap"
  | mmapmax => "mmapmax"
  | pfa => "pfa"
  | alloc => "alloc"
  | free => "free"
  | ls => "ls"
  | write => "write"
  | cat => "cat"
  | rm => "rm"
  | stat => "stat"
  | disk => "disk"
  | fatinit => "fatinit"
  | fatformat => "fatformat"
  | fatinfo => "fatinfo"
  | fatls => "fatls"
  | fatcreate => "fatcreate"
  | fatread => "fatread"
  | layout => "layout"
  | version => "version"
  | run => "run"

end Command

structure Machine (σ : Type) where
  /-- `terminal.PutRune`, for a byte. -/
  putRune : UInt8 → σ → σ
  /-- `getTicks`, or `none` where it is not wired. -/
  getTicks : Option (σ → UInt64 × σ)
  /-- The entries `mem.MMapEntry(i)` for `i` below `mem.MMapCount()`. -/
  mmapEntries : σ → List MMapEntry
  /-- The used ones of the entries `fs.Entry(i)`. -/
  fsEntries : σ → List FileEntry
  /-- `fs.Lookup`: page and size. -/
  fsLookup : Name → ℤ → σ → Option (UInt64 × UInt64)
  fsWrite : Name → ℤ → List UInt8 → σ → Bool × σ
  fsRemove : Name → ℤ → σ → Bool × σ
  /-- The byte at a physical address. -/
  readByte : UInt64 → σ → UInt8
  port : Serial.Port σ
  /-- What a command does to `tmpName` and the machine; it sees the line, the end of its name and
  the end of the line. A `disk` that is neither `read` nor `write` ends in the suggestions. -/
  command : Command → Line → ℕ → ℕ → Name × σ → Name × σ
  /-- The suggestions for a first word that is no command, or `Unknown command`. -/
  suggest : Line → ℕ → ℕ → σ → σ

/-! ## Printing -/

namespace Machine

variable {σ : Type} (m : Machine σ)

/-- `terminal.Print` -/
def print (text : List UInt8) (s : σ) : σ := text.foldl (fun s b => m.putRune b s) s

end Machine

def hexDigit (n : ℕ) : UInt8 := (ascii "0123456789ABCDEF").getD n 0

/-- The text of `printHex32` and `printHexU64`: the lowest `digits` hexadecimal digits of `v`. -/
def hexText (digits v : ℕ) : List UInt8 :=
  (List.range digits).map fun i => hexDigit (v / 16 ^ (digits - 1 - i) % 16)

/-- The loop of `printUint` that fills its buffer from the right. -/
def decDigits : ℕ → ℕ → List UInt8 → List UInt8
  | 0, _, acc => acc
  | fuel + 1, u, acc =>
    if u > 0 then decDigits fuel (u / 10) (UInt8.ofNat (48 + u % 10) :: acc) else acc

/-- The text of `printUint`. -/
def uintText (v : UInt64) : List UInt8 :=
  if v = 0 then ascii "0"
  else if v >>> 32 ≠ 0 then ascii "0x" ++ hexText 16 v.toNat
  else decDigits 10 v.toNat []

/-- The text of `printName`. -/
def nameText (name : Name) (nameLen : ℕ) : List UInt8 :=
  (List.range nameLen).map fun i => name[i]!

/-- The text of `printHistory`. -/
def historyText (h : History) : List UInt8 :=
  let startIdx := (h.head + maxHistory - h.count) % maxHistory
  (List.range h.count).flatMap fun i =>
    let idx := (startIdx + i) % maxHistory
    uintText (UInt64.ofNat (i + 1)) ++ ascii " " ++
      ((List.range h.len[idx]!).map fun k => (h.buf[idx]!)[k]!) ++ ascii "\n"

/-- The text of `printVersion`. -/
def versionText : List UInt8 := ascii "DavOS 0.5.0 (64bit)\n"

/-- The text of `printMemoryMap`. -/
def memoryMapText (entries : List MMapEntry) : List UInt8 :=
  entries.flatMap fun e =>
    ascii "base=0x" ++ hexText 8 e.baseHi.toNat ++ hexText 8 e.baseLo.toNat ++
      ascii " len=0x" ++ hexText 8 e.lenHi.toNat ++ hexText 8 e.lenLo.toNat ++
      ascii " type=" ++ uintText e.typ.toUInt64 ++ ascii "\n"

/-- `printTicks`; `none` is its result `false`. -/
def Machine.printTicks {σ : Type} (m : Machine σ) (s : σ) : Option σ :=
  m.getTicks.map fun getTicks =>
    let (t, s) := getTicks s
    m.print (uintText t ++ ascii "\n") s

end DavOS.Shell
