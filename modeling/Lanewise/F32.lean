/-
Lanewise/F32.lean

Single precision in integer arithmetic on patterns.

The first half is what the conversions and the vector instructions need:
comparison (`lt`), rounding to an integral value (`roundEven`), the integer a
pattern stands for (`toInt`), and the patterns of integers (`ofNat`, `ofInt32`).

The second half ties patterns to rational numbers.  `value` is the exact value
of a finite pattern and `nearest` the pattern of a rational number, rounded to
nearest with ties to even; `add` and `div` compute exactly and round once, which
is what the IEEE operations do where no result is exceptional.
-/
import Lanewise.Format
import Lanewise.Rounding

namespace Lanewise.F32

/-! ### Sign, magnitude and order -/

/-- The pattern without its sign bit.  Among patterns that are not NaN,
magnitudes are ordered as absolute values are. -/
def magnitude (x : UInt32) : UInt32 := x &&& 0x7FFFFFFF

/-- Whether the sign bit is set. -/
def isNegative (x : UInt32) : Bool := x >>> 31 == 1

def isNaN (x : UInt32) : Bool := Format.f32.isNaN x

/-- A pattern's place in the order of values; both zeros have place 0. -/
def place (x : UInt32) : Int :=
  if isNegative x then -((magnitude x).toNat : Int) else (magnitude x).toNat

/-- Strictly less, as values.  A NaN is neither less nor greater than anything. -/
def lt (x y : UInt32) : Bool :=
  !isNaN x && !isNaN y && place x < place y

/-! ### Integral values -/

/-- Rounds to an integral value, ties to even, and keeps the sign.  From `2 ^ 23`
on every value is integral already, and infinities and NaNs are kept too.  Below
one half the result is a zero; between, the pattern is rounded as an integer at
the place of the units bit, where a carry runs from the mantissa into the
exponent as it should. -/
def roundEven (x : UInt32) : UInt32 :=
  let f := Format.f32.unpack x
  let signBit : UInt32 := f.sign <<< 31
  if 150 ≤ f.exponent then x
  else if f.exponent < 126 then signBit
  else if f.exponent = 126 then
    if f.mantissa = 0 then signBit else signBit ||| 0x3F800000
  else
    let shift := 150 - f.exponent
    let half := (1 : UInt32) <<< (shift - 1)
    let units : UInt32 := (x >>> shift) &&& 1
    let fraction : UInt32 := (1 <<< shift) - 1
    (x + (half - 1) + units) &&& ~~~fraction

/-- The integer part of a pattern that is no NaN, toward zero.  An infinity counts
as `2 ^ 128`, the first value past the finite ones. -/
def toInt (x : UInt32) : Int :=
  let f := Format.f32.unpack x
  let significand := (f.mantissa ||| 0x800000).toNat
  let n : Nat :=
    if f.exponent < 127 then 0
    else if f.exponent ≤ 150 then significand >>> (150 - f.exponent).toNat
    else significand <<< (f.exponent - 150).toNat
  if f.sign = 1 then -(n : Int) else n

/-- The pattern nearest to a natural number below `2 ^ 127`. -/
def ofNat (n : Nat) : UInt32 :=
  let k := n.log2
  if n = 0 then 0
  else if k ≤ 23 then UInt32.ofNat ((k + 126) <<< 23 + n <<< (23 - k))
  else UInt32.ofNat ((k + 126) <<< 23 + divNearestEven n (1 <<< (k - 23)))

/-- The pattern nearest to a 32-bit signed integer. -/
def ofInt32 (x : UInt32) : UInt32 :=
  if x >>> 31 = 1 then ofNat (0 - x).toNat ||| 0x80000000 else ofNat x.toNat

/-- The nearest 32-bit signed integer, ties to even; `-2 ^ 31` for a NaN and for a
value that rounds outside the range. -/
def toInt32 (x : UInt32) : UInt32 :=
  let n := toInt (roundEven x)
  if isNaN x || n < -0x80000000 || 0x7FFFFFFF < n then 0x80000000 else UInt32.ofInt n

/-! ### Rational values -/

/-- The exact value of a finite pattern. -/
def value (x : UInt32) : Rat := Format.f32.value x

/-- The exponent of the largest power of two that is at most `n / d`. -/
def floorLog2 (n d : Nat) : Int :=
  let e : Int := n.log2 - d.log2
  if n <<< (-e).toNat < d <<< e.toNat then e - 1 else e

/-- The pattern nearest to `n / d`, ties to even, infinity past the finite ones.
The spacing of patterns is fixed by the power of two at or below the number, and is
that of the subnormals below the normal range; the significand is counted in this
spacing, and a count of `2 ^ 24` carries into the exponent. -/
def nearestQuotient (n d : Nat) : UInt32 :=
  if n = 0 then 0
  else
    let e := max (-126) (floorLog2 n d)
    let significand := divNearestEven (n <<< (23 - e).toNat) (d <<< (e - 23).toNat)
    UInt32.ofNat (min 0x7F800000 ((e + 126).toNat <<< 23 + significand))

/-- The pattern nearest to a rational number, ties to even. -/
def nearest (q : Rat) : UInt32 :=
  let bits := nearestQuotient q.num.natAbs q.den
  if q.num < 0 then bits ||| 0x80000000 else bits

/-- The sum of two finite patterns, rounded once. -/
def add (x y : UInt32) : UInt32 := nearest (value x + value y)

/-- The quotient of two finite patterns, rounded once. -/
def div (x y : UInt32) : UInt32 := nearest (value x / value y)

end Lanewise.F32
