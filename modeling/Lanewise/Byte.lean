/-
Lanewise/Byte.lean

Conversions between single precision and bytes.

A float becomes the nearest integer, ties to even, and then a byte; what happens
to integers outside the bytes is the caller's choice, an `Overflow`.  NaN gives
0 either way.  Every byte widens exactly.
-/
import Lanewise.F32

namespace Lanewise

/-- What becomes of a rounded value outside the bytes: it is clamped to the nearest
byte, or it keeps the low eight bits of its integer. -/
inductive Overflow where
  | saturating
  | narrowing
deriving DecidableEq, Repr

namespace Overflow

def all : List Overflow := [.saturating, .narrowing]

def name : Overflow → String
  | .saturating => "saturate"
  | .narrowing => "narrow"

/-- The name in diagnostic texts. -/
def label : Overflow → String
  | .saturating => "Saturating"
  | .narrowing => "Narrowing"

end Overflow

namespace Byte

/-- Rounds to the nearest integer and makes it a byte.  From `2 ^ 31` on, floats are
multiples of 256: their low byte is 0 and no integer is formed. -/
def ofF32 (overflow : Overflow) (x : UInt32) : UInt8 :=
  let rounded := F32.roundEven x
  if F32.isNaN rounded then 0
  else
    match overflow with
    | .saturating => UInt8.ofNat (min 255 (F32.toInt rounded).toNat)
    | .narrowing =>
      if 0x80000000 ≤ (F32.toInt rounded).natAbs then 0 else UInt8.ofInt (F32.toInt rounded)

def toF32 (b : UInt8) : UInt32 := F32.ofNat b.toNat

end Byte

end Lanewise
