/-
Lanewise/ReferenceSet.lean

The reference data that kernels are tried on.

There are three page-aligned buffers of the same number of bytes, one for each
element type: floats that climb from just above 1.12 in steps of a thousandth,
half-precision patterns that count up from one, and bytes that count up.  To try a
direction, as many elements as the float buffer holds are converted into a zeroed
buffer of the same number of bytes, and the whole destination is checksummed.  The
results expected are recorded in `expectedChecksum`.
-/
import Lanewise.AlignedBuffer

namespace Lanewise

/-- Bytes of each reference buffer. -/
def referenceBytes : Nat := 18432

/-- Elements converted to try a direction: the floats of one buffer. -/
def referenceLength : Nat := referenceBytes / Element.f32.width

/-- The checksum of the destination after the reference data are converted.  All floats
lie in the range of bytes, so both overflow rules give the same result. -/
def expectedChecksum : Direction → UInt32
  | .f32ToF16 => 3373450706
  | .f16ToF32 => 2626649712
  | .f32ToBf16 => 2148563683
  | .bf16ToF32 => 4258514672
  | .f32ToU8 _ => 3416643824
  | .u8ToF32 => 736930253

/-- The single-precision pattern of a decimal fraction with nine places. -/
def decimal9 (numerator : Nat) : UInt32 := F32.nearestQuotient numerator 1000000000

/-- The float at an index, with every operation rounded to single precision. -/
def referenceFloat (i : Nat) : UInt32 :=
  F32.add (decimal9 1123456789) (F32.div (F32.ofNat i) (F32.ofNat 1000))

/-- The half-precision pattern at an index. -/
def referenceHalf (i : Nat) : UInt16 := 0x3C00 + UInt16.ofNat i

/-- The byte at an index. -/
def referenceByte (i : Nat) : UInt8 := UInt8.ofNat i

/-- The pattern at an index of the buffer for an element type. -/
def referenceElement : (e : Element) → Nat → e.Bits
  | .f32 => referenceFloat
  | .u16 => referenceHalf
  | .u8 => referenceByte

/-- The contents of the buffer for an element type: the elements that are converted, then
zeros. -/
def referenceData (e : Element) : Array e.Bits :=
  (Array.range referenceLength).map (referenceElement e)
    ++ Array.replicate (referenceBytes / e.width - referenceLength) e.zero

/-- The float buffer's contents, computed once. -/
def referenceFloats : Array UInt32 := referenceData .f32

/-- Four floats just above 1.12: the smallest trial from end to end. -/
def smallInput : Array UInt32 :=
  #[decimal9 1123456789, decimal9 1124456789, decimal9 1125456789, decimal9 1126456789]

/-- The checksum of the small input as half-precision patterns. -/
def smallChecksum : UInt32 := 3117248445

/-- The reference buffers. -/
structure ReferenceSet where
  floats : AlignedBuffer .f32
  halves : AlignedBuffer .u16
  bytes : AlignedBuffer .u8

namespace ReferenceSet

/-- Makes the three buffers and fills them. -/
def make : Session ReferenceSet := do
  let floats ← AlignedBuffer.zeroed .f32 (referenceBytes / Element.f32.width) Host.pageAlignment
  let halves ← AlignedBuffer.zeroed .u16 (referenceBytes / Element.u16.width) Host.pageAlignment
  let bytes ← AlignedBuffer.zeroed .u8 (referenceBytes / Element.u8.width) Host.pageAlignment
  return ⟨{ floats with data := referenceFloats }, { halves with data := referenceData .u16 },
    { bytes with data := referenceData .u8 }⟩

/-- The contents of the buffer for an element type. -/
def data (fixture : ReferenceSet) : (e : Element) → Array e.Bits
  | .f32 => fixture.floats.data
  | .u16 => fixture.halves.data
  | .u8 => fixture.bytes.data

/-- Converts the reference data for a direction, with a kernel if one is given, and
returns the checksum of the destination and how many elements the kernel reported. -/
def trial (fixture : ReferenceSet) (d : Direction) (kernel? : Option Kernel) :
    Session (UInt32 × Nat) := do
  let src := (fixture.data d.source).extract 0 referenceLength
  let dst ← AlignedBuffer.zeroed d.target (referenceBytes / d.target.width) Host.pageAlignment
  let (out, processed) ← Session.convertInto dst.data
    (Converting.within 0 referenceLength (convertWith kernel? d src))
  return (checksum d.target out, processed)

end ReferenceSet

end Lanewise
