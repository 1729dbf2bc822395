/-
Lanewise/Lanes/Formula.lean

What the kernels compute in one lane.

Each formula is a straight line of lane-wise instructions, so a kernel applies it
to a whole register at once.  None of them looks like the scalar conversion it
stands for: `bf16` adds a bias and shifts where the scalar conversion compares,
and `saturated` clamps first and rounds after.
-/
import Lanewise.F32

namespace Lanewise.Lanes

/-! ### Instructions on one lane -/

/-- The larger of two floats; the second operand if one of them is a NaN. -/
def maxFloat (x y : UInt32) : UInt32 := if F32.lt y x then x else y

/-- The smaller of two floats; the second operand if one of them is a NaN. -/
def minFloat (x y : UInt32) : UInt32 := if F32.lt x y then x else y

/-- All ones where a float is unordered with another one, which is where either is a NaN. -/
def unordered (x y : UInt32) : UInt32 :=
  if F32.isNaN x || F32.isNaN y then 0xFFFFFFFF else 0

/-- Bits of `y` where the mask is set, of `x` where it is not. -/
def blend (x y mask : UInt32) : UInt32 := (x &&& ~~~mask) ||| (y &&& mask)

/-! ### Formulas -/

/-- The bf16 bits of a float in the lower half of the lane. -/
def bf16 (x : UInt32) : UInt32 :=
  let hi : UInt32 := x >>> 16
  let lsb := hi &&& 1
  let biased := x + 0x7FFF
  let rounded : UInt32 := (biased + lsb) >>> 16
  let quiet := hi ||| 0x40
  blend rounded quiet (unordered x x)

/-- The float whose bf16 bits are in the lower half of the lane. -/
def raised (x : UInt32) : UInt32 := x <<< 16

/-- The pattern of 255. -/
def float255 : UInt32 := 0x437F0000

/-- Clamped to the bytes. -/
def clamped (x : UInt32) : UInt32 := minFloat (maxFloat x 0) float255

/-- Clamped to the bytes, rounded, and converted to an integer. -/
def saturated (x : UInt32) : UInt32 := F32.toInt32 (F32.roundEven (clamped x))

/-- The low byte of the rounded integer. -/
def wrapped (x : UInt32) : UInt32 := F32.toInt32 (F32.roundEven x) &&& 0xFF

end Lanewise.Lanes
