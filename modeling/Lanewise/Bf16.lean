/-
Lanewise/Bf16.lean

Conversions between single precision and bf16, its upper half.

Narrowing rounds the lower half away, ties to even; the increment runs from the
mantissa into the exponent and at the top into infinity.  A NaN keeps its upper
half and is made quiet, since its payload may lie in the lower half alone.
Widening appends sixteen zero bits and is exact for every pattern.
-/
import Lanewise.Format

namespace Lanewise.Bf16

/-- Rounds a single-precision pattern to bf16. -/
def ofF32 (x : UInt32) : UInt16 :=
  let hi := x >>> 16
  let lo := x &&& 0xFFFF
  if Format.f32.isNaN x then (hi ||| Format.bf16.quietBit).toUInt16
  else
    -- a lower half of exactly one half rounds up only if the kept part is odd
    let threshold := 0x8000 - (hi &&& 1)
    (hi + if threshold < lo then 1 else 0).toUInt16

/-- Widens a bf16 pattern. -/
def toF32 (b : UInt16) : UInt32 := b.toUInt32 <<< 16

end Lanewise.Bf16
