import Mathlib.Data.Nat.Notation

/-!
# Decimal numbers on the terminal

Reference: `terminal/format.go`.

`FormatInt` fills a buffer from its end. A store outside the buffer would be a panic, here `none`.
-/

namespace DavOS.Terminal

/-- The buffer of `FormatInt`, and where its text starts. -/
structure IntBuffer where
  buf : Vector UInt8 20
  start : ℕ

namespace IntBuffer

/-- `start--` and a store. -/
def push (b : UInt8) (s : IntBuffer) : Option IntBuffer :=
  match s.start with
  | 0 => none
  | start + 1 => some ⟨s.buf.set! start b, start⟩

def text (s : IntBuffer) : List UInt8 := s.buf.toList.drop s.start

end IntBuffer

/-- The loop of `FormatInt`. -/
def pushDigits (u : UInt64) (s : IntBuffer) : Option IntBuffer :=
  if h : u > 0 then do
    let s ← s.push (0x30 + (u % 10).toUInt8)
    pushDigits (u / 10) s
  else some s
termination_by u.toNat
decreasing_by
  have hpos : 0 < u.toNat := UInt64.lt_iff_toNat_lt.mp h
  rw [UInt64.toNat_div]
  exact Nat.div_lt_self hpos (by decide)

/-- `FormatInt`; the magnitude of a negative number is taken so that the smallest one does not
overflow. -/
def formatInt (v : Int64) : Option IntBuffer :=
  let s : IntBuffer := ⟨Vector.replicate 20 0, 20⟩
  if v = 0 then s.push 0x30
  else do
    let negative := v < 0
    let u := if negative then (-(v + 1)).toUInt64 + 1 else v.toUInt64
    let s ← pushDigits u s
    if negative then s.push 0x2D else some s

end DavOS.Terminal
