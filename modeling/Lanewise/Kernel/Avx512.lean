/-
Lanewise/Kernel/Avx512.lean

The 512-bit kernels: AVX-512F, with F16C for half precision.

Registers hold sixteen floats.  The narrowing conversions truncate each lane by
itself, so lanes stay in order and no permutation is needed.
-/
import Lanewise.Kernel
import Lanewise.Lanes.Formula
import Lanewise.Lanes.Half

namespace Lanewise.Avx512

open Lanes

/-- The bf16 bits of a register, cut out of the lower halves of its lanes. -/
def bf16Words (v : Vector UInt32 16) : Vector UInt16 16 := (v.map bf16).map UInt32.toUInt16

def f32ToF16 : Loop.Body UInt32 UInt16 16 :=
  .single halvesOf

def f32ToF16Merged : Loop.Body UInt32 UInt16 16 :=
  .merged fun a b => join (halvesOf a) (halvesOf b)

def f16ToF32 : Loop.Body UInt16 UInt32 16 :=
  .single fun v => widenLower 16 ofHalf v

def f32ToBf16 : Loop.Body UInt32 UInt16 16 :=
  .single bf16Words

def f32ToBf16Merged : Loop.Body UInt32 UInt16 16 :=
  .merged fun a b => join (bf16Words a) (bf16Words b)

def bf16ToF32 : Loop.Body UInt16 UInt32 16 :=
  .single fun v => (widenLower 16 UInt16.toUInt32 v).map raised

def f32ToU8Saturating : Loop.Body UInt32 UInt8 16 :=
  .single fun v => ((v.map clamped).map F32.toInt32).map UInt32.toUInt8

def f32ToU8Narrowing : Loop.Body UInt32 UInt8 16 :=
  .single fun v => (v.map F32.toInt32).map UInt32.toUInt8

def u8ToF32 : Loop.Body UInt8 UInt32 16 :=
  .single fun v => (widenLower 16 UInt8.toUInt32 v).map F32.ofInt32

def family : Family where
  isa := .avx512
  lanes := 16
  rows :=
    [⟨.f32ToF16, false, false, [.avx512f, .f16c], f32ToF16⟩,
     ⟨.f32ToF16, true, true, [.avx512f, .f16c], f32ToF16Merged⟩,
     ⟨.f16ToF32, false, true, [.avx512f, .f16c], f16ToF32⟩,
     ⟨.f32ToBf16, false, false, [.avx512f], f32ToBf16⟩,
     ⟨.f32ToBf16, true, true, [.avx512f], f32ToBf16Merged⟩,
     ⟨.bf16ToF32, false, true, [.avx512f], bf16ToF32⟩,
     ⟨.f32ToU8 .saturating, false, true, [.avx512f], f32ToU8Saturating⟩,
     ⟨.f32ToU8 .narrowing, false, true, [.avx512f], f32ToU8Narrowing⟩,
     ⟨.u8ToF32, false, true, [.avx512f], u8ToF32⟩]

end Lanewise.Avx512
