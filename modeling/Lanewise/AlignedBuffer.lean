/-
Lanewise/AlignedBuffer.lean

Buffers with an alignment of the caller's choice.

`AlignedBuffer.layout` decides whether a request is possible at all, and which of
its numbers is at fault if it is not; only then is memory asked for.  A buffer of
no bytes needs none; its address is its alignment.
-/
import Lanewise.Checksum
import Lanewise.Session

namespace Lanewise

/-- A buffer of elements whose address is a multiple of `alignment`. -/
structure AlignedBuffer (e : Element) where
  data : Array e.Bits
  alignment : Nat

namespace AlignedBuffer

/-- Sizes in bytes are below `2 ^ 64`. -/
def sizeLimit : Nat := 0x10000000000000000

/-- Sizes rounded up to the alignment stay below `2 ^ 63`. -/
def layoutLimit : Nat := 0x8000000000000000

/-- Whether a number is a power of two. -/
def isPowerOfTwo (n : Nat) : Bool := n != 0 && 1 <<< n.log2 == n

/-- The least multiple of `alignment` that is not below `size`. -/
def roundUp (size alignment : Nat) : Nat := (size + alignment - 1) / alignment * alignment

/-- Whether memory of this size and alignment can exist. -/
def isLayout (size alignment : Nat) : Bool :=
  isPowerOfTwo alignment && roundUp size alignment < layoutLimit

/-- The bytes that `length` elements at an alignment need, if the request is possible.
A wrong alignment and an overflowing size are reported with the number of elements,
an impossible layout with the number of bytes. -/
def layout (e : Element) (length alignment : Nat) : Except Error Nat :=
  let size := length * e.width
  if alignment < e.width then
    .error (.layout length alignment ("alignment below that of " ++ e.name))
  else if sizeLimit ≤ size then
    .error (.layout length alignment "total size overflows usize")
  else if !isLayout size alignment then
    .error (.layout size alignment "invalid parameters to Layout::from_size_align")
  else .ok size

/-- The address of a buffer of no bytes. -/
def dangling (size alignment : Nat) : Except Error Nat :=
  if alignment = 0 then .error (.layout size alignment "alignment must be non-zero")
  else .ok alignment

/-- A buffer of zeros, in memory from an allocator. -/
def zeroedFrom (allocator : Allocator) (e : Element) (length alignment : Nat) :
    Session (AlignedBuffer e) := do
  let size ← Session.check (layout e length alignment)
  if size = 0 then
    let _ ← Session.check (dangling size alignment)
  else
    Session.allocate allocator size alignment
  return ⟨Array.replicate length e.zero, alignment⟩

/-- A buffer that holds the given values, in memory from an allocator. -/
def ofArrayFrom (allocator : Allocator) (e : Element) (values : Array e.Bits) (alignment : Nat) :
    Session (AlignedBuffer e) := do
  let buffer ← zeroedFrom allocator e values.size alignment
  let data ← Session.require (Slice.overwrite buffer.data values)
  return { buffer with data }

/-- A buffer of zeros. -/
def zeroed (e : Element) (length alignment : Nat) : Session (AlignedBuffer e) :=
  zeroedFrom Host.allocator e length alignment

/-- A buffer that holds the given values. -/
def ofArray (e : Element) (values : Array e.Bits) (alignment : Nat) :
    Session (AlignedBuffer e) :=
  ofArrayFrom Host.allocator e values alignment

variable {e : Element}

def length (buffer : AlignedBuffer e) : Nat := buffer.data.size

/-- The bytes of the buffer in memory order. -/
def bytes (buffer : AlignedBuffer e) : List UInt8 := e.bytesOf buffer.data

/-- The buffer in diagnostic texts. -/
def describe (buffer : AlignedBuffer e) : String :=
  "AlignedBuffer \x7b len: " ++ toString buffer.length ++ ", align: "
    ++ toString buffer.alignment ++ " \x7d"

end AlignedBuffer

end Lanewise
