/-
Lanewise/Lanes/Basic.lean

Vector registers and the instructions that move lanes about.

A register is a `Vector` of lanes, lane 0 lowest in memory.  Each instruction is
given by the lane that it puts at each index, in terms of `lane v i`, which reads
lane `i` and is zero past the end.  The packing instructions of the wider
registers work within each section of 128 bits, which is why a permutation has to
follow them.
-/

namespace Lanewise.Lanes

variable {α β : Type} {n : Nat}

/-- Lane `i` of a register, zero past its end. -/
def lane [Inhabited α] (v : Vector α n) (i : Nat) : α := v.getD i default

/-! ### Loads and stores -/

/-- The `n` elements of a buffer from `at` on. -/
def load [Inhabited α] {length : Nat} (n : Nat) (buffer : Vector α length) (start : Nat) :
    Vector α n :=
  Vector.ofFn fun i => lane buffer (start + i)

/-- Writes the lanes of a register over the elements of a buffer from `start` on. -/
def store {length : Nat} (buffer : Vector α length) (start : Nat) (v : Vector α n) :
    Vector α length :=
  Fin.foldl n (fun b i => b.setIfInBounds (start + i) v[i]) buffer

/-! ### Moving lanes -/

/-- The lower half of a register. -/
def lower [Inhabited α] (v : Vector α (n + n)) : Vector α n :=
  Vector.ofFn fun i => lane v i

/-- Two registers side by side, the first one lower in memory. -/
def join (lo hi : Vector α n) : Vector α (n + n) := lo ++ hi

/-- The lower halves of two registers side by side. -/
def unpackLower [Inhabited α] (lo hi : Vector α (n + n)) : Vector α (n + n) :=
  join (lower lo) (lower hi)

/-- Moves lanes down by `k`; zeros come in at the top. -/
def shiftDown [Inhabited α] (k : Nat) (v : Vector α n) : Vector α n :=
  Vector.ofFn fun i => lane v (i + k)

/-- Takes a register as groups of `size` lanes and puts group `order[j]` at place `j`. -/
def permuteGroups [Inhabited α] (size : Nat) (order : Array Nat) (v : Vector α n) : Vector α n :=
  Vector.ofFn fun i => lane v (order.getD (i / size) 0 * size + i % size)

/-- The first `n` lanes of a register, each converted; registers of wider lanes are
filled this way. -/
def widenLower [Inhabited α] {m : Nat} (n : Nat) (f : α → β) (v : Vector α m) : Vector β n :=
  Vector.ofFn fun i => f (lane v i)

/-! ### Packing within sections of 128 bits -/

/-- A signed 32-bit lane clamped to the unsigned 16-bit range. -/
def clampWord (x : UInt32) : UInt16 :=
  if x >>> 31 = 1 then 0 else if 0xFFFF < x then 0xFFFF else x.toUInt16

/-- A signed 16-bit lane clamped to the unsigned 8-bit range. -/
def clampByte (x : UInt16) : UInt8 :=
  if x >>> 15 = 1 then 0 else if 0xFF < x then 0xFF else x.toUInt8

/-- Where a lane of a packed register comes from: packing puts the `k` lanes of a
section of the first operand before the `k` lanes of the same section of the second. -/
def packed [Inhabited α] (k : Nat) (narrow : α → β) (a b : Vector α n) (i : Nat) : β :=
  let base := i / (2 * k) * k
  let j := i % (2 * k)
  narrow (if j < k then lane a (base + j) else lane b (base + (j - k)))

/-- Packs the 32-bit lanes of two registers into words, section by section. -/
def packWords (sections : Nat) (a b : Vector UInt32 (4 * sections)) :
    Vector UInt16 (8 * sections) :=
  Vector.ofFn fun i => packed 4 clampWord a b i

/-- Packs the words of two registers into bytes, section by section. -/
def packBytes (sections : Nat) (a b : Vector UInt16 (8 * sections)) :
    Vector UInt8 (16 * sections) :=
  Vector.ofFn fun i => packed 8 clampByte a b i

end Lanewise.Lanes
