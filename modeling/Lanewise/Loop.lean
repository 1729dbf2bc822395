/-
Lanewise/Loop.lean

Unrolled vector loops.

A kernel's loop advances by blocks of `lanes * unroll` elements over the longest
prefix that blocks fill.  Within a block its body runs once for each register, or
once for each pair of registers.  `Body` has one constructor for each shape that
kernels use, and states which elements the body loads and stores at a position
(`loads`, `stores`) beside what it does (`apply`).

The elements past the prefix are neither read nor written.
-/
import Lanewise.Lanes.Basic

namespace Lanewise

/-- A run of consecutive elements. -/
structure Span where
  start : Nat
  length : Nat
deriving DecidableEq, Repr

namespace Span

/-- The indices of a span, in order. -/
def indices (s : Span) : List Nat := List.range' s.start s.length

end Span

namespace Loop

/-- What a loop does at one position. -/
inductive Body (α β : Type) (lanes : Nat) where
  /-- One register is loaded, converted and stored. -/
  | single (f : Vector α lanes → Vector β lanes)
  /-- Two registers are loaded, and their results leave in one store. -/
  | merged (f : Vector α lanes → Vector α lanes → Vector β (lanes + lanes))
  /-- One load brings in what fills two registers, stored one after the other. -/
  | split (f : Vector α (lanes + lanes) → Vector β lanes × Vector β lanes)

namespace Body

variable {α β : Type} {lanes : Nat}

/-- The registers' worth of elements that one run of the body converts. -/
def registers : Body α β lanes → Nat
  | single _ => 1
  | merged _ => 2
  | split _ => 2

/-- The source elements read at a position, load by load. -/
def loads : Body α β lanes → Nat → List Span
  | single _, start => [⟨start, lanes⟩]
  | merged _, start => [⟨start, lanes⟩, ⟨start + lanes, lanes⟩]
  | split _, start => [⟨start, lanes + lanes⟩]

/-- The destination elements written at a position, store by store. -/
def stores : Body α β lanes → Nat → List Span
  | single _, start => [⟨start, lanes⟩]
  | merged _, start => [⟨start, lanes + lanes⟩]
  | split _, start => [⟨start, lanes⟩, ⟨start + lanes, lanes⟩]

/-- Runs the body at a position. -/
def apply [Inhabited α] {n : Nat} (body : Body α β lanes) (src : Vector α n)
    (dst : Vector β n) (start : Nat) : Vector β n :=
  match body with
  | single f => Lanes.store dst start (f (Lanes.load lanes src start))
  | merged f =>
    Lanes.store dst start
      (f (Lanes.load lanes src start) (Lanes.load lanes src (start + lanes)))
  | split f =>
    let (lo, hi) := f (Lanes.load (lanes + lanes) src start)
    Lanes.store (Lanes.store dst start lo) (start + lanes) hi

end Body

/-- The length of the longest prefix that blocks fill. -/
def reach (block n : Nat) : Nat := n - n % block

/-- The positions of the body in the order of execution: blocks outside, and inside a
block one position for each of its registers or pairs of them. -/
def positions (lanes unroll registers stop : Nat) : List Nat :=
  (List.range (stop / (lanes * unroll))).flatMap fun block =>
    (List.range ((unroll + registers - 1) / registers)).map fun step =>
      block * (lanes * unroll) + step * registers * lanes

/-- Runs a body over the prefix of a buffer, and tells how long the prefix is. -/
def run {α β : Type} [Inhabited α] {lanes n : Nat} (unroll : Nat) (body : Body α β lanes)
    (src : Vector α n) (dst : Vector β n) : Vector β n × Nat :=
  let stop := reach (lanes * unroll) n
  ((positions lanes unroll body.registers stop).foldl (body.apply src) dst, stop)

end Loop

end Lanewise
