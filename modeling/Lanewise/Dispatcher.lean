/-
Lanewise/Dispatcher.lean

Choosing kernels, and converting with the chosen ones.

A `Dispatcher` holds for every direction the kernel that serves it, or none where
element-wise conversion does.  `withRegistry` takes the candidates of each direction
in their order of preference and chooses the first that passes validation;
`withKernel` puts a named kernel in the place of the one chosen for its direction.

`parConvert` cuts long buffers into chunks that are converted independently of each
other, here one after the other in a given order.
-/
import Lanewise.Registry
import Lanewise.Validation

namespace Lanewise

/-- The kernels that serve the directions on a processor. -/
structure Dispatcher where
  capabilities : Capabilities
  /-- The kernel of a direction, if one serves it. -/
  kernel : Direction → Option Kernel

namespace Dispatcher

/-- A dispatcher without kernels. -/
def scalarOn (caps : Capabilities) : Dispatcher := ⟨caps, fun _ => none⟩

/-- A dispatcher that never runs vector code. -/
def scalar : Dispatcher := scalarOn .none

/-- The name of what serves a direction. -/
def nameOf (kernel? : Option Kernel) : String :=
  match kernel? with
  | some k => k.name
  | none => "scalar"

def selected (dispatcher : Dispatcher) (d : Direction) : String := nameOf (dispatcher.kernel d)

/-- Puts a kernel in charge of a direction. -/
def assign (table : Direction → Option Kernel) (d : Direction) (kernel? : Option Kernel) :
    Direction → Option Kernel :=
  fun d' => if d' = d then kernel? else table d'

/-! ### Selection -/

/-- The first of the kernels that passes validation.  Those before it are reported. -/
def firstValid (caps : Capabilities) (fixture : ReferenceSet) :
    List Kernel → Session (Option Kernel)
  | [] => return none
  | k :: rest => do
    match ← Session.attempt (validateKernel k caps fixture) with
    | .ok () => return some k
    | .error cause =>
      Session.log (.rejected k.name cause)
      firstValid caps fixture rest

/-- Chooses for one direction. -/
def select (registry : Registry) (caps : Capabilities) (fixture : ReferenceSet)
    (table : Direction → Option Kernel) (d : Direction) :
    Session (Direction → Option Kernel) := do
  let kernel? ← firstValid caps fixture (registry.candidates d caps)
  Session.log (.selected d (nameOf kernel?))
  return assign table d kernel?

/-- Chooses among the kernels of a registry.  Without reference data nothing can be
validated, and nothing is chosen. -/
def withRegistry (caps : Capabilities) (registry : Registry) : Session Dispatcher := do
  Session.log (.selecting caps registry.size)
  match ← Session.attempt ReferenceSet.make with
  | .error cause =>
    Session.log (.fixtureUnavailable cause)
    return scalarOn caps
  | .ok fixture =>
    let table ← Direction.all.foldlM (select registry caps fixture) fun _ => none
    return ⟨caps, table⟩

/-- Chooses among the compiled kernels. -/
def new (caps : Capabilities) : Session Dispatcher := withRegistry caps .compiled

/-- Chooses among the compiled kernels, and puts the named one in charge of its direction
if it passes validation. -/
def withKernel (caps : Capabilities) (name : String) : Session Dispatcher := do
  match Registry.compiled.find? name with
  | none => throw (.error (.unknownKernel name))
  | some k =>
    let fixture ← ReferenceSet.make
    validateKernel k caps fixture
    let dispatcher ← new caps
    Session.log (.pinned k.name k.direction)
    return { dispatcher with kernel := assign dispatcher.kernel k.direction (some k) }

/-! ### Conversion -/

/-- Converts a buffer. -/
def convert (dispatcher : Dispatcher) (d : Direction) (src : Array d.Source) :
    Converting d.Target Unit := do
  let _ ← convertWith (dispatcher.kernel d) d src

def f32ToF16 (dispatcher : Dispatcher) (src : Array UInt32) : Converting UInt16 Unit :=
  dispatcher.convert .f32ToF16 src

def f16ToF32 (dispatcher : Dispatcher) (src : Array UInt16) : Converting UInt32 Unit :=
  dispatcher.convert .f16ToF32 src

def f32ToBf16 (dispatcher : Dispatcher) (src : Array UInt32) : Converting UInt16 Unit :=
  dispatcher.convert .f32ToBf16 src

def bf16ToF32 (dispatcher : Dispatcher) (src : Array UInt16) : Converting UInt32 Unit :=
  dispatcher.convert .bf16ToF32 src

def f32ToU8 (dispatcher : Dispatcher) (overflow : Overflow) (src : Array UInt32) :
    Converting UInt8 Unit :=
  dispatcher.convert (.f32ToU8 overflow) src

def u8ToF32 (dispatcher : Dispatcher) (src : Array UInt8) : Converting UInt32 Unit :=
  dispatcher.convert .u8ToF32 src

/-- The method for a direction. -/
def typed (dispatcher : Dispatcher) :
    (d : Direction) → Array d.Source → Converting d.Target Unit
  | .f32ToF16 => dispatcher.f32ToF16
  | .f16ToF32 => dispatcher.f16ToF32
  | .f32ToBf16 => dispatcher.f32ToBf16
  | .bf16ToF32 => dispatcher.bf16ToF32
  | .f32ToU8 overflow => dispatcher.f32ToU8 overflow
  | .u8ToF32 => dispatcher.u8ToF32

/-! ### Conversion in chunks -/

/-- Buffers of fewer elements are not cut. -/
def parallelThreshold : Nat := 262144

/-- Elements in a chunk: a multiple of every compiled kernel's block. -/
def chunkSize : Nat := 24576

/-- The number of chunks of a buffer; the last one may be shorter. -/
def chunkCount (length : Nat) : Nat := (length + chunkSize - 1) / chunkSize

/-- Converts one chunk. -/
def convertChunk (dispatcher : Dispatcher) (d : Direction) (src : Array d.Source) (i : Nat) :
    Converting d.Target Unit :=
  let start := i * chunkSize
  let stop := start + chunkSize
  Converting.within start stop (dispatcher.convert d (src.extract start stop))

/-- Converts a buffer in chunks, taken in the order that `schedule` makes of their number.
A chunk that fails is the last to run. -/
def parConvertBy (schedule : Nat → List Nat) (dispatcher : Dispatcher) (d : Direction)
    (src : Array d.Source) : Converting d.Target Unit := do
  Converting.check (checkLengths src.size (← get).dst.size)
  if src.size < parallelThreshold then
    dispatcher.convert d src
  else
    (schedule (chunkCount src.size)).forM (dispatcher.convertChunk d src)

/-- Converts a buffer in chunks from first to last. -/
def parConvert (dispatcher : Dispatcher) (d : Direction) (src : Array d.Source) :
    Converting d.Target Unit :=
  dispatcher.parConvertBy List.range d src

end Dispatcher

end Lanewise
