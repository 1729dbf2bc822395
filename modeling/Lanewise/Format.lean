/-
Lanewise/Format.lean

Binary floating-point formats, seen as field layouts.

A `Format` says where the sign, the biased exponent and the mantissa sit in a
pattern.  `unpack` splits a pattern into its `Fields`, `pack` puts fields back,
and the predicates `isNaN` and `isInfinite` read the class of a pattern from
its fields alone.  `value` is the number that a finite pattern stands for, as an
exact rational.  Nothing here rounds: rounding belongs to the conversions.

All patterns and fields are 32-bit words whatever the width of the format, and
all arithmetic is arithmetic on such words: what is shifted past bit 31 is lost.
-/

namespace Lanewise

/-- The three fields of a pattern, each moved down to bit 0. -/
structure Fields where
  sign : UInt32
  exponent : UInt32
  mantissa : UInt32
deriving DecidableEq, Repr

/-- A binary floating-point format.  The sign is the topmost of `width` bits and
the mantissa lies at the bottom. -/
structure Format where
  name : String
  width : UInt32
  exponentBits : UInt32
  mantissaBits : UInt32
  bias : Int
deriving DecidableEq, Repr

namespace Format

/-- IEEE binary32. -/
def f32 : Format := ⟨"f32", 32, 8, 23, 127⟩

/-- IEEE binary16. -/
def f16 : Format := ⟨"f16", 16, 5, 10, 15⟩

/-- The upper half of binary32. -/
def bf16 : Format := ⟨"bf16", 16, 8, 7, 127⟩

/-- The low bits that hold the mantissa. -/
def mantissaMask (fmt : Format) : UInt32 := (1 <<< fmt.mantissaBits) - 1

/-- The exponent field of infinities and NaNs: all ones. -/
def exponentMax (fmt : Format) : UInt32 := (1 <<< fmt.exponentBits) - 1

/-- The topmost mantissa bit, set in quiet NaNs. -/
def quietBit (fmt : Format) : UInt32 := 1 <<< (fmt.mantissaBits - 1)

def signShift (fmt : Format) : UInt32 := fmt.width - 1

def unpack (fmt : Format) (bits : UInt32) : Fields where
  sign := (bits >>> fmt.signShift) &&& 1
  exponent := (bits >>> fmt.mantissaBits) &&& fmt.exponentMax
  mantissa := bits &&& fmt.mantissaMask

/-- Puts fields in their places.  A field too wide for its place loses its high bits. -/
def pack (fmt : Format) (fields : Fields) : UInt32 :=
  ((fields.sign &&& 1) <<< fmt.signShift)
    ||| ((fields.exponent &&& fmt.exponentMax) <<< fmt.mantissaBits)
    ||| (fields.mantissa &&& fmt.mantissaMask)

/-- The infinity whose sign is the low bit of `sign`. -/
def infinity (fmt : Format) (sign : UInt32) : UInt32 :=
  fmt.pack ⟨sign, fmt.exponentMax, 0⟩

def isNaN (fmt : Format) (bits : UInt32) : Bool :=
  let fields := fmt.unpack bits
  fields.exponent == fmt.exponentMax && fields.mantissa != 0

def isInfinite (fmt : Format) (bits : UInt32) : Bool :=
  let fields := fmt.unpack bits
  fields.exponent == fmt.exponentMax && fields.mantissa == 0

/-- The exact value of a finite pattern.  The significand has a leading one but in
subnormal patterns, which share the exponent of the smallest normal ones. -/
def value (fmt : Format) (bits : UInt32) : Rat :=
  let fields := fmt.unpack bits
  let mantissa := fields.mantissa.toNat
  let significand := if fields.exponent = 0 then mantissa
    else mantissa + 1 <<< fmt.mantissaBits.toNat
  let exponent : Int := (max 1 fields.exponent.toNat : Nat) - fmt.bias - fmt.mantissaBits.toNat
  let magnitude : Rat :=
    mkRat (significand <<< exponent.toNat : Nat) (1 <<< (-exponent).toNat)
  if fields.sign = 1 then -magnitude else magnitude

end Format

end Lanewise
