/-
Lanewise/Element.lean

The element types of buffers.

Buffers hold bit patterns, never numbers: a 32-bit float is the `UInt32` of its
bits, so that NaN payloads and the sign of zero survive.  Both 16-bit float
formats travel as plain 16-bit words.  `Element.Bits` is the type of patterns
of an element type, `toNat` and `wrap` read and make a pattern as a number, and
`bytes` lays a pattern out in memory, low byte first.
-/

namespace Lanewise

/-- What one buffer element is: a 32-bit float, a 16-bit float pattern, or a byte. -/
inductive Element where
  | f32
  | u16
  | u8
deriving DecidableEq, Repr

namespace Element

/-- The patterns of an element type. -/
abbrev Bits : Element → Type
  | .f32 => UInt32
  | .u16 => UInt16
  | .u8 => UInt8

def name : Element → String
  | .f32 => "f32"
  | .u16 => "u16"
  | .u8 => "u8"

/-- Bytes of one element, which is also the alignment it needs. -/
def width : Element → Nat
  | .f32 => 4
  | .u16 => 2
  | .u8 => 1

/-- The pattern of a number, taken modulo 2 to the number of bits. -/
def wrap : (e : Element) → Nat → e.Bits
  | .f32 => UInt32.ofNat
  | .u16 => UInt16.ofNat
  | .u8 => UInt8.ofNat

/-- A pattern as an unsigned number. -/
def toNat : (e : Element) → e.Bits → Nat
  | .f32 => UInt32.toNat
  | .u16 => UInt16.toNat
  | .u8 => UInt8.toNat

/-- The pattern with no bit set. -/
def zero (e : Element) : e.Bits := e.wrap 0

instance (e : Element) : Inhabited e.Bits := ⟨e.zero⟩

instance : (e : Element) → DecidableEq e.Bits
  | .f32 => inferInstanceAs (DecidableEq UInt32)
  | .u16 => inferInstanceAs (DecidableEq UInt16)
  | .u8 => inferInstanceAs (DecidableEq UInt8)

/-- The bytes of a pattern in memory order, low byte first. -/
def bytes : (e : Element) → e.Bits → List UInt8
  | .f32, x => [UInt32.toUInt8 x, UInt32.toUInt8 (x >>> 8),
      UInt32.toUInt8 (x >>> 16), UInt32.toUInt8 (x >>> 24)]
  | .u16, x => [UInt16.toUInt8 x, UInt16.toUInt8 (x >>> 8)]
  | .u8, x => [x]

/-- The bytes of a buffer in memory order. -/
def bytesOf (e : Element) (data : Array e.Bits) : List UInt8 :=
  data.toList.flatMap e.bytes

theorem length_bytes (e : Element) (x : e.Bits) : (e.bytes x).length = e.width := by
  cases e <;> rfl

theorem length_bytesOf (e : Element) (data : Array e.Bits) :
    (e.bytesOf data).length = data.size * e.width := by
  simp [bytesOf, List.length_flatMap, length_bytes, List.map_const']

end Element

end Lanewise
