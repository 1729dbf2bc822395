/-
Lanewise/Lanes/Half.lean

The instructions that convert between single and half precision.

They follow the rule for conversions between binary formats, and `Format.convert` is this
rule for any two of them:

  * a finite number is rounded once, to the nearest one of the other format, the even one
    of two, and an infinity takes the place of what lies past the finite numbers;
  * an infinity stays one;
  * a NaN is made quiet and keeps the upper part of its mantissa.

Rounding counts in units of the least subnormal numbers.  It asks neither which range the
number comes from nor which one it goes to, where a conversion by fields tells normal,
subnormal and vanishing results apart.
-/
import Lanewise.Lanes.Basic
import Lanewise.Format
import Lanewise.Rounding

namespace Lanewise.Format

/-! ### Conversion between formats -/

/-- A finite number without its sign, in units of the least subnormal number. -/
def unitsOf (fmt : Format) (fields : Fields) : Nat :=
  if fields.exponent = 0 then fields.mantissa.toNat
  else (fields.mantissa.toNat + 1 <<< fmt.mantissaBits.toNat) <<< (fields.exponent.toNat - 1)

/-- The pattern nearest to `n / d` least subnormal numbers, ties to even, without its sign.
Up to twice the least normal number the numbers are one unit apart; from each further power of
two on they are twice as far apart.  A count that reaches the next power of two carries into
the exponent, and past the last one come the infinities. -/
def nearestPattern (fmt : Format) (n d : Nat) : Nat :=
  let places := fmt.mantissaBits.toNat
  let step := (n / d).log2 - places
  min (fmt.exponentMax.toNat <<< places) (step <<< places + divNearestEven n (d <<< step))

/-- A mantissa in the other format, moved so that the topmost bits agree. -/
def alignMantissa (src dst : Format) (mantissa : UInt32) : UInt32 :=
  if src.mantissaBits ≤ dst.mantissaBits then mantissa <<< (dst.mantissaBits - src.mantissaBits)
  else mantissa >>> (src.mantissaBits - dst.mantissaBits)

/-- The pattern of `dst` for a pattern of `src`. -/
def convert (src dst : Format) (bits : UInt32) : UInt32 :=
  let fields := src.unpack bits
  if src.isNaN bits then
    dst.pack ⟨fields.sign, dst.exponentMax, src.alignMantissa dst fields.mantissa ||| dst.quietBit⟩
  else if src.isInfinite bits then dst.infinity fields.sign
  else
    -- the power of two between the least subnormal numbers
    let scale : Int := dst.bias + dst.mantissaBits.toNat - (src.bias + src.mantissaBits.toNat)
    let nearest := dst.nearestPattern (src.unitsOf fields <<< scale.toNat) (1 <<< (-scale).toNat)
    dst.pack { dst.unpack (UInt32.ofNat nearest) with sign := fields.sign }

end Lanewise.Format

namespace Lanewise.Lanes

/-! ### Instructions -/

/-- A float to a half. -/
def toHalf (x : UInt32) : UInt16 := (Format.f32.convert .f16 x).toUInt16

/-- A half to a float. -/
def ofHalf (h : UInt16) : UInt32 := Format.f16.convert .f32 h.toUInt32

/-- Four floats to halves in the lower half of a 128-bit register, zeros above. -/
def halvesOf4 (v : Vector UInt32 4) : Vector UInt16 8 :=
  Vector.ofFn fun i => if i.val < 4 then toHalf (lane v i) else 0

/-- Floats to as many halves. -/
def halvesOf {n : Nat} (v : Vector UInt32 n) : Vector UInt16 n := v.map toHalf

end Lanewise.Lanes
