/-
Lanewise/Kernel/Avx2.lean

The 256-bit kernels: AVX2, with F16C for half precision.

Registers hold eight floats.  Packing works within each half of a register, so that
what belongs together comes out as groups in the wrong order; each narrowing store
is preceded by the permutation of groups that puts them right.
-/
import Lanewise.Kernel
import Lanewise.Lanes.Formula
import Lanewise.Lanes.Half

namespace Lanewise.Avx2

open Lanes

/-- Rounded lanes of two registers as sixteen bytes in order.  Packing leaves groups of
four bytes as lanes 0 to 3 of the first, of the second, both once more, then lanes 4
to 7 in the same way. -/
def packToBytes (a b : Vector UInt32 8) : Vector UInt8 16 :=
  let words : Vector UInt16 (8 * 2) := packWords 2 a b
  let bytes : Vector UInt8 (16 + 16) := packBytes 2 words words
  lower (n := 16) (permuteGroups 4 #[0, 4, 1, 5, 0, 4, 1, 5] bytes)

def f32ToF16 : Loop.Body UInt32 UInt16 8 :=
  .single halvesOf

def f32ToF16Merged : Loop.Body UInt32 UInt16 8 :=
  .merged fun a b => join (halvesOf a) (halvesOf b)

def f16ToF32 : Loop.Body UInt16 UInt32 8 :=
  .single fun v => widenLower 8 ofHalf v

def f32ToBf16 : Loop.Body UInt32 UInt16 8 :=
  .single fun v =>
    let bits := v.map bf16
    let words : Vector UInt16 (8 + 8) := packWords 2 bits bits
    lower (n := 8) (permuteGroups 4 #[0, 2, 0, 0] words)

def f32ToBf16Merged : Loop.Body UInt32 UInt16 8 :=
  .merged fun a b =>
    let words : Vector UInt16 (8 + 8) := packWords 2 (a.map bf16) (b.map bf16)
    permuteGroups 4 #[0, 2, 1, 3] words

def bf16ToF32 : Loop.Body UInt16 UInt32 8 :=
  .single fun v => (widenLower 8 UInt16.toUInt32 v).map raised

def f32ToU8 (formula : UInt32 → UInt32) : Loop.Body UInt32 UInt8 8 :=
  .merged fun a b => packToBytes (a.map formula) (b.map formula)

def u8ToF32 : Loop.Body UInt8 UInt32 8 :=
  .split fun v =>
    ((widenLower 8 UInt8.toUInt32 v).map F32.ofInt32,
      (widenLower 8 UInt8.toUInt32 (shiftDown 8 v)).map F32.ofInt32)

def family : Family where
  isa := .avx2
  lanes := 8
  rows :=
    [⟨.f32ToF16, false, false, [.avx2, .f16c], f32ToF16⟩,
     ⟨.f32ToF16, true, true, [.avx2, .f16c], f32ToF16Merged⟩,
     ⟨.f16ToF32, false, true, [.avx2, .f16c], f16ToF32⟩,
     ⟨.f32ToBf16, false, false, [.avx2], f32ToBf16⟩,
     ⟨.f32ToBf16, true, true, [.avx2], f32ToBf16Merged⟩,
     ⟨.bf16ToF32, false, true, [.avx2], bf16ToF32⟩,
     ⟨.f32ToU8 .saturating, false, true, [.avx2], f32ToU8 saturated⟩,
     ⟨.f32ToU8 .narrowing, false, true, [.avx2], f32ToU8 wrapped⟩,
     ⟨.u8ToF32, false, true, [.avx2], u8ToF32⟩]

end Lanewise.Avx2
