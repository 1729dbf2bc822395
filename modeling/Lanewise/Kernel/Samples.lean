/-
Lanewise/Kernel/Samples.lean

Kernels outside the registry.

They are exact in unusual ways or wrong in one way each, to show what validation
notices and what it does not: rounding that differs, a prefix reported too short
or too long, a result never written, a block that no prefix fills, a block of no
elements at all, and faults that the reference data cannot tell.
-/
import Lanewise.Kernel

namespace Lanewise.Samples

/-- Converts the first `count` elements with `f` and keeps the others. -/
def convertFirst {α β : Type} {n : Nat} (f : α → β) (count : Nat) (src : Vector α n)
    (dst : Vector β n) : Vector β n :=
  Vector.ofFn fun i => if i.val < count then f (src.get i) else dst.get i

/-- A kernel that converts with `f` the first `converted n` of `n` elements and reports
`reported n`. -/
def sample (name : String) (direction : Direction) (isa : Isa) (requires : List Feature)
    (lanes unroll : Nat) (preferred : Bool) (f : direction.Source → direction.Target)
    (converted reported : Nat → Nat) : Kernel where
  name := name
  direction := direction
  isa := isa
  requires := requires
  lanes := lanes
  unroll := unroll
  combinedWrite := false
  preferred := preferred
  func := fun {n} src dst => (convertFirst f (converted n) src dst, reported n)

/-- To bytes with overflow clamped, as the scalar conversion does it. -/
abbrev saturating : Direction := .f32ToU8 .saturating

/-- To bytes with overflow wrapped, as the scalar conversion does it. -/
abbrev narrowing : Direction := .f32ToU8 .narrowing

/-- The prefix that blocks of eight fill. -/
def eights (n : Nat) : Nat := Loop.reach 8 n

/-- Clamps to the bytes and drops the fraction. -/
def truncatedByte (x : UInt32) : UInt8 :=
  if F32.isNaN x then 0 else UInt8.ofNat (min 255 (F32.toInt x).toNat)

/-- The upper half, not rounded. -/
def truncatedBf16 (x : UInt32) : UInt16 := (x >>> 16).toUInt16

/-- Half precision without a negative zero. -/
def unsignedZeroF16 (x : UInt32) : UInt16 :=
  if F16.ofF32 x = 0x8000 then 0 else F16.ofF32 x

/-- The byte taken as a signed number. -/
def signedByte (b : UInt8) : UInt32 :=
  if b < 128 then F32.ofNat b.toNat else F32.ofNat (256 - b.toNat) ||| 0x80000000

/-- All sample kernels. -/
def all : List Kernel :=
  [sample "x_trunc_u8" saturating .avx512 [] 4 2 true truncatedByte eights eights,
   sample "x_short_u8" saturating .avx2 [] 4 2 true saturating.scalar
     (fun n => eights n - 8) (fun n => eights n - 8),
   sample "x_exact_u8" saturating .sse41 [] 4 2 true saturating.scalar eights eights,
   sample "x_exact_u8_neon" saturating .neon [.neon, .sve2] 4 2 false saturating.scalar
     eights eights,
   sample "x_whole_u8" saturating .avx2 [] 4 10 false saturating.scalar id id,
   sample "x_lazy_u8" saturating .avx512 [.avx512bw] 4 2 false saturating.scalar
     (fun _ => 0) eights,
   sample "x_long_u8" saturating .avx2 [] 4 2 false saturating.scalar id (fun n => n + 8),
   sample "x_big_block_u8" saturating .avx512 [] 64 128 false saturating.scalar
     (Loop.reach 8192) (Loop.reach 8192),
   sample "x_saturating_narrow" narrowing .avx2 [.avx512bf16] 4 2 true saturating.scalar
     eights eights,
   sample "x_trunc_bf16" .f32ToBf16 .avx512 [] 4 2 true truncatedBf16 eights eights,
   sample "x_unsigned_zero_f16" .f32ToF16 .avx512 [] 4 2 true unsignedZeroF16 eights eights,
   sample "x_signed_u8" .u8ToF32 .neon [] 4 2 true signedByte eights eights,
   sample "x_zero_lanes" saturating .sse41 [] 0 2 false saturating.scalar id id]

end Lanewise.Samples
