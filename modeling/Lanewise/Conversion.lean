/-
Lanewise/Conversion.lean

Converting one buffer into another.

The destination is state: a conversion that ends early leaves it as it is at that
moment, so that "the destination is unchanged" is a statement about the final
`Workspace`.  The workspace also remembers which kernels were called, in order.

`convertScalar` converts element by element.  `invoke` runs one kernel, after
checking the lengths and the direction.  `convertWith` is how conversions are
done: a kernel, if there is one, converts as many elements as it reports, and the
rest is converted element by element.
-/
import Lanewise.Kernel
import Lanewise.Slice

namespace Lanewise

/-- The destination of a conversion under way, and the kernels called so far. -/
structure Workspace (τ : Type) where
  dst : Array τ
  calls : Array Kernel := #[]

/-- Computations on a destination of patterns `τ`. -/
abbrev Converting (τ : Type) (α : Type) : Type := EStateM Stop (Workspace τ) α

namespace Converting

variable {τ α : Type}

/-- Refuses with an error if there is one. -/
def check (result : Except Error α) : Converting τ α :=
  match result with
  | .ok a => pure a
  | .error e => throw (.error e)

/-- Faults if a rule is broken. -/
def require (result : Except Fault α) : Converting τ α :=
  match result with
  | .ok a => pure a
  | .error f => throw (.fault f)

/-- Works on the elements from `start` up to `stop` as on a destination of their own. -/
def within (start stop : Nat) (act : Converting τ α) : Converting τ α := fun w =>
  match act { w with dst := w.dst.extract start stop } with
  | .ok a part => .ok a { part with dst := Slice.splice w.dst start part.dst }
  | .error s part => .error s { part with dst := Slice.splice w.dst start part.dst }

end Converting

/-- Converts element by element, between buffers of equal lengths. -/
def convertScalar (d : Direction) (src : Array d.Source) : Converting d.Target Unit := fun w =>
  if src.size = w.dst.size then .ok () { w with dst := src.map d.scalar }
  else .error (.fault .unequalLengths) w

/-- Converts the elements from `start` on element by element. -/
def convertTail (d : Direction) (src : Array d.Source) (start : Nat) :
    Converting d.Target Unit := do
  let rest ← Converting.require (Slice.tail src start)
  let size := (← get).dst.size
  Converting.require (Slice.checkTail start size)
  Converting.within start size (convertScalar d rest)

namespace Kernel

/-- Calls the kernel's function, which faults on buffers of different lengths. -/
def call (k : Kernel) (src : Array k.direction.Source) : Converting k.direction.Target Nat :=
  fun w =>
    let calls := w.calls.push k
    if h : w.dst.size = src.size then
      let (out, processed) := k.func ⟨src, rfl⟩ ⟨w.dst, h⟩
      .ok processed ⟨out.toArray, calls⟩
    else .error (.fault .unequalLengths) { w with calls }

/-- Calls the function of a kernel known to be of direction `d`. -/
def callFor (k : Kernel) :
    (d : Direction) → k.direction = d → Array d.Source → Converting d.Target Nat
  | _, rfl => k.call

/-- Runs the kernel on a conversion, if the lengths agree and the direction is its own,
and returns how many leading elements it reports as converted. -/
def invoke (k : Kernel) (d : Direction) (src : Array d.Source) : Converting d.Target Nat := do
  Converting.check (checkLengths src.size (← get).dst.size)
  if h : k.direction = d then
    k.callFor d h src
  else
    throw (.error (.directionMismatch k.name d))

end Kernel

/-- Converts with a kernel, if one is given, and finishes element by element.  Returns
how many elements the kernel reported. -/
def convertWith (kernel? : Option Kernel) (d : Direction) (src : Array d.Source) :
    Converting d.Target Nat := do
  Converting.check (checkLengths src.size (← get).dst.size)
  let processed ← match kernel? with
    | some k => k.invoke d src
    | none => pure 0
  convertTail d src processed
  return processed

end Lanewise
