/-
Lanewise/Direction.lean

The conversion directions.

A `Direction` fixes the element types on both sides and the meaning of the
conversion: `Direction.scalar` converts one element, and every other way to
convert in this library is measured against it.
-/
import Lanewise.Bf16
import Lanewise.Byte
import Lanewise.Element
import Lanewise.F16

namespace Lanewise

/-- One conversion direction.  Narrowing to bytes comes with its overflow rule. -/
inductive Direction where
  | f32ToF16
  | f16ToF32
  | f32ToBf16
  | bf16ToF32
  | f32ToU8 (overflow : Overflow)
  | u8ToF32
deriving DecidableEq, Repr

namespace Direction

/-- Every direction, in the order in which they are reported. -/
def all : List Direction :=
  [.f32ToF16, .f16ToF32, .f32ToBf16, .bf16ToF32, .f32ToU8 .saturating, .f32ToU8 .narrowing,
    .u8ToF32]

def name : Direction → String
  | .f32ToF16 => "f32_to_f16"
  | .f16ToF32 => "f16_to_f32"
  | .f32ToBf16 => "f32_to_bf16"
  | .bf16ToF32 => "bf16_to_f32"
  | .f32ToU8 .saturating => "f32_to_u8_saturate"
  | .f32ToU8 .narrowing => "f32_to_u8_narrow"
  | .u8ToF32 => "u8_to_f32"

/-- The name in diagnostic texts. -/
def label : Direction → String
  | .f32ToF16 => "F32ToF16"
  | .f16ToF32 => "F16ToF32"
  | .f32ToBf16 => "F32ToBf16"
  | .bf16ToF32 => "Bf16ToF32"
  | .f32ToU8 overflow => "F32ToU8" ++ overflow.label
  | .u8ToF32 => "U8ToF32"

def ofName? (name : String) : Option Direction := all.find? (·.name == name)

/-- The element type converted from. -/
abbrev source : Direction → Element
  | .f32ToF16 => .f32
  | .f16ToF32 => .u16
  | .f32ToBf16 => .f32
  | .bf16ToF32 => .u16
  | .f32ToU8 _ => .f32
  | .u8ToF32 => .u8

/-- The element type converted to. -/
abbrev target : Direction → Element
  | .f32ToF16 => .u16
  | .f16ToF32 => .f32
  | .f32ToBf16 => .u16
  | .bf16ToF32 => .f32
  | .f32ToU8 _ => .u8
  | .u8ToF32 => .f32

/-- Patterns converted from. -/
abbrev Source (d : Direction) : Type := d.source.Bits

/-- Patterns converted to. -/
abbrev Target (d : Direction) : Type := d.target.Bits

/-- The conversion of one element.  It is total: every pattern has a result. -/
def scalar : (d : Direction) → d.Source → d.Target
  | .f32ToF16 => F16.ofF32
  | .f16ToF32 => F16.toF32
  | .f32ToBf16 => Bf16.ofF32
  | .bf16ToF32 => Bf16.toF32
  | .f32ToU8 overflow => Byte.ofF32 overflow
  | .u8ToF32 => Byte.toF32

theorem mem_all (d : Direction) : d ∈ all := by
  rcases d with _ | _ | _ | _ | (_ | _) | _ <;> decide

end Direction

end Lanewise
