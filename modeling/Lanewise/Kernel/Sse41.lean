/-
Lanewise/Kernel/Sse41.lean

The 128-bit kernels: SSE4.1, with F16C for half precision.

Registers hold four floats.  A register of halves or of packed words is stored by
its lower half where it carries the results of one register only.
-/
import Lanewise.Kernel
import Lanewise.Lanes.Formula
import Lanewise.Lanes.Half

namespace Lanewise.Sse41

open Lanes

/-- Rounded lanes of two registers, packed to eight bytes in the lower half. -/
def packToBytes (a b : Vector UInt32 4) : Vector UInt8 (8 + 8) :=
  let words : Vector UInt16 (8 * 1) := packWords 1 a b
  packBytes 1 words words

def f32ToF16 : Loop.Body UInt32 UInt16 4 :=
  .single fun v => lower (n := 4) (halvesOf4 v)

def f32ToF16Merged : Loop.Body UInt32 UInt16 4 :=
  .merged fun a b => unpackLower (n := 4) (halvesOf4 a) (halvesOf4 b)

def f16ToF32 : Loop.Body UInt16 UInt32 4 :=
  .single fun v => widenLower 4 ofHalf v

def f32ToBf16 : Loop.Body UInt32 UInt16 4 :=
  .single fun v =>
    let bits := v.map bf16
    lower (n := 4) (packWords 1 bits bits)

def f32ToBf16Merged : Loop.Body UInt32 UInt16 4 :=
  .merged fun a b => packWords 1 (a.map bf16) (b.map bf16)

def bf16ToF32 : Loop.Body UInt16 UInt32 4 :=
  .single fun v => (widenLower 4 UInt16.toUInt32 v).map raised

def f32ToU8 (formula : UInt32 → UInt32) : Loop.Body UInt32 UInt8 4 :=
  .merged fun a b => lower (n := 8) (packToBytes (a.map formula) (b.map formula))

def u8ToF32 : Loop.Body UInt8 UInt32 4 :=
  .split fun v =>
    ((widenLower 4 UInt8.toUInt32 v).map F32.ofInt32,
      (widenLower 4 UInt8.toUInt32 (shiftDown 4 v)).map F32.ofInt32)

def family : Family where
  isa := .sse41
  lanes := 4
  rows :=
    [⟨.f32ToF16, false, false, [.sse41, .f16c], f32ToF16⟩,
     ⟨.f32ToF16, true, true, [.sse41, .f16c], f32ToF16Merged⟩,
     ⟨.f16ToF32, false, true, [.sse41, .f16c], f16ToF32⟩,
     ⟨.f32ToBf16, false, false, [.sse41], f32ToBf16⟩,
     ⟨.f32ToBf16, true, true, [.sse41], f32ToBf16Merged⟩,
     ⟨.bf16ToF32, false, true, [.sse41], bf16ToF32⟩,
     ⟨.f32ToU8 .saturating, false, true, [.sse41], f32ToU8 saturated⟩,
     ⟨.f32ToU8 .narrowing, false, true, [.sse41], f32ToU8 wrapped⟩,
     ⟨.u8ToF32, false, true, [.sse41], u8ToF32⟩]

end Lanewise.Sse41
