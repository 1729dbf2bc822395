/-
Lanewise/F16.lean

Conversions between single precision and IEEE binary16.

Narrowing rounds to nearest, ties to even, over the whole range: normal results,
subnormal results, underflow to a signed zero and overflow to infinity.  A NaN
stays a NaN, is made quiet and keeps the upper bits of its payload.  Widening is
exact, but for NaNs, which come out quiet.
-/
import Lanewise.Format
import Lanewise.Rounding

namespace Lanewise.F16

/-- Single-precision exponent fields up to this one underflow to a zero. -/
def underflowExponent : UInt32 := 101

/-- Single-precision exponent fields from this one on give normal results. -/
def normalExponent : UInt32 := 113

/-- The difference of the two biases. -/
def rebias : UInt32 := 112

/-- How far a significand moves down to count in the spacing of subnormal results. -/
def subnormalShift (exponent : UInt32) : UInt32 := 126 - exponent

/-- Rounds a single-precision pattern to binary16. -/
def ofF32 (x : UInt32) : UInt16 :=
  let f := Format.f32.unpack x
  let signBit : UInt32 := f.sign <<< 15
  if f.exponent = Format.f32.exponentMax then
    if f.mantissa = 0 then (Format.f16.infinity f.sign).toUInt16
    else
      let payload : UInt32 := f.mantissa >>> 13
      (signBit ||| 0x7C00 ||| Format.f16.quietBit ||| payload).toUInt16
  else if normalExponent ≤ f.exponent then
    let exponent := f.exponent - rebias
    if Format.f16.exponentMax ≤ exponent then (Format.f16.infinity f.sign).toUInt16
    else
      -- a carry out of the mantissa runs into the exponent, at the top into infinity
      let rounded := (exponent <<< 10) + shiftRightNearestEven f.mantissa 13
      if 0x7C00 ≤ rounded then (Format.f16.infinity f.sign).toUInt16
      else (signBit ||| rounded).toUInt16
  else if underflowExponent < f.exponent then
    -- a carry out of the ten mantissa bits gives the smallest normal number
    let rounded := shiftRightNearestEven (f.mantissa ||| 0x800000) (subnormalShift f.exponent)
    (signBit ||| rounded).toUInt16
  else signBit.toUInt16

/-- How far a subnormal mantissa moves up to bring its leading one to bit 10. -/
def normalizingShift (mantissa : UInt32) : UInt32 := 10 - mantissa.log2

/-- Widens a binary16 pattern. -/
def toF32 (h : UInt16) : UInt32 :=
  let f := Format.f16.unpack h.toUInt32
  if f.exponent = Format.f16.exponentMax then
    let quiet := if f.mantissa = 0 then 0 else Format.f32.quietBit
    Format.f32.pack ⟨f.sign, Format.f32.exponentMax, (f.mantissa <<< 13) ||| quiet⟩
  else if f.exponent = 0 then
    if f.mantissa = 0 then f.sign <<< 31
    else
      let shift := normalizingShift f.mantissa
      Format.f32.pack ⟨f.sign, normalExponent - shift,
        ((f.mantissa <<< shift) &&& Format.f16.mantissaMask) <<< 13⟩
  else Format.f32.pack ⟨f.sign, f.exponent + rebias, f.mantissa <<< 13⟩

end Lanewise.F16
