/-
Lanewise/Registry.lean

Registries of kernels and the order of preference among them.

A registry is a list; the same kernel may be in it twice.  `candidates` are the
kernels that may serve a direction on a processor, best first: wider registers
before narrower ones, within a width a family's choice before its other kernels,
and otherwise in the order of the registry.
-/
import Lanewise.Kernel.Avx2
import Lanewise.Kernel.Avx512
import Lanewise.Kernel.Sse41

namespace Lanewise

/-- The kernels to choose from. -/
structure Registry where
  kernels : List Kernel

namespace Registry

/-- The compiled kernels, widest family first. -/
def compiled : Registry := ⟨[Avx512.family, Avx2.family, Sse41.family].flatMap Family.kernels⟩

def size (r : Registry) : Nat := r.kernels.length

def names (r : Registry) : List String := r.kernels.map Kernel.name

/-- The first kernel of a name. -/
def find? (r : Registry) (name : String) : Option Kernel := r.kernels.find? (·.name == name)

/-- The kernels that may run on a processor. -/
def admissible (r : Registry) (caps : Capabilities) : List Kernel :=
  r.kernels.filter (·.isSupported caps)

/-- Whether a kernel is at least as welcome as another one. -/
def preferable (a b : Kernel) : Bool :=
  b.isa.width < a.isa.width || (a.isa.width == b.isa.width && (a.preferred || !b.preferred))

/-- The kernels that may serve a direction on a processor, best first. -/
def candidates (r : Registry) (d : Direction) (caps : Capabilities) : List Kernel :=
  ((r.admissible caps).filter (·.direction == d)).mergeSort preferable

end Registry

end Lanewise
