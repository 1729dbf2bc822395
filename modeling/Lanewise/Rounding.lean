/-
Lanewise/Rounding.lean

Rounding to nearest, ties to even, in integer arithmetic.

`divNearestEven n d` is the natural number nearest to `n / d`, and the even one
of two that are equally near.  `shiftRightNearestEven` is the same rounding on
32-bit words where the divisor is a power of two: it looks at the first bit
that falls off (the round bit) and at whether any lower bit is set (the sticky
bit), and never divides.
-/

namespace Lanewise

/-- The integer nearest to `n / d`; of two equally near, the even one. -/
def divNearestEven (n d : Nat) : Nat :=
  let q := n / d
  let r := n % d
  if 2 * r < d then q
  else if d < 2 * r then q + 1
  else q + q % 2

/-- `value / 2 ^ shift` rounded to nearest, ties to even, for `1 ≤ shift ≤ 31`. -/
def shiftRightNearestEven (value shift : UInt32) : UInt32 :=
  let roundBit := (value >>> (shift - 1)) &&& 1
  let sticky := if value &&& ((1 <<< (shift - 1)) - 1) = 0 then 0 else 1
  let kept := value >>> shift
  kept + (roundBit &&& (sticky ||| (kept &&& 1)))

end Lanewise
