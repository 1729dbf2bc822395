/-
Lanewise/Kernel.lean

Kernels and the families they come in.

A `Kernel` is a conversion function for buffers of equal lengths together with
what is known about it beforehand: its direction, the features it requires, and
how many elements it converts in one block.  It returns the destination it leaves
and how many leading elements it reports as converted.  Nothing in the type says
that the report is true: that is what validation is for.

A `Family` is a table of loop bodies for one instruction set, and each of its rows
gives four kernels, one for each unroll factor.
-/
import Lanewise.Capabilities
import Lanewise.Isa
import Lanewise.Loop

namespace Lanewise

/-- A conversion function and what is known about it. -/
structure Kernel where
  name : String
  direction : Direction
  isa : Isa
  /-- The features without which the function must not run. -/
  requires : List Feature
  /-- Elements in one register. -/
  lanes : Nat
  /-- Registers in one block. -/
  unroll : Nat
  /-- Whether the results of two registers leave in one store. -/
  combinedWrite : Bool
  /-- Whether the kernel is its family's choice for the direction. -/
  preferred : Bool
  /-- The destination after the run, and the number of elements reported as converted. -/
  func : {n : Nat} → Vector direction.Source n → Vector direction.Target n →
    Vector direction.Target n × Nat

namespace Kernel

/-- Elements in one block.  The product is a 64-bit word: what does not fit is lost, so
that a block may have no elements although there are lanes. -/
def block (k : Kernel) : Nat := k.lanes * k.unroll % 0x10000000000000000

def isSupported (k : Kernel) (caps : Capabilities) : Bool := caps.supports k.requires

/-- The kernel in diagnostic texts. -/
def describe (k : Kernel) : String :=
  "Kernel \x7b name: \"" ++ k.name ++ "\", direction: " ++ k.direction.label ++ ", isa: "
    ++ k.isa.label ++ ", requires: [" ++ ", ".intercalate (k.requires.map Feature.label)
    ++ "], lanes: " ++ toString k.lanes ++ ", unroll: " ++ toString k.unroll
    ++ ", combined_write: " ++ toString k.combinedWrite ++ ", preferred: "
    ++ toString k.preferred ++ " \x7d"

end Kernel

/-- A line of a family's table: a loop body for one direction. -/
structure Family.Row (lanes : Nat) where
  direction : Direction
  /-- Whether the body merges two registers into one store. -/
  combinedWrite : Bool
  /-- Whether the kernel of unroll factor 4 is the family's choice for the direction. -/
  preferred : Bool
  requires : List Feature
  body : Loop.Body direction.Source direction.Target lanes

/-- The kernels of one instruction set. -/
structure Family where
  isa : Isa
  /-- Floats in one register. -/
  lanes : Nat
  rows : List (Family.Row lanes)

namespace Family

/-- The unroll factors for which kernels are made. -/
def unrolls : List Nat := [2, 4, 6, 8]

/-- The direction, the way of writing, the unroll factor and the family, joined by `_`. -/
def Row.kernelName {lanes : Nat} (row : Row lanes) (isa : Isa) (unroll : Nat) : String :=
  row.direction.name ++ (if row.combinedWrite then "_cw_" else "_") ++ toString unroll ++ "_"
    ++ isa.name

/-- The kernel of a row for one unroll factor. -/
def Row.kernel {lanes : Nat} (row : Row lanes) (isa : Isa) (unroll : Nat) : Kernel where
  name := row.kernelName isa unroll
  direction := row.direction
  isa := isa
  requires := row.requires
  lanes := lanes
  unroll := unroll
  combinedWrite := row.combinedWrite
  preferred := row.preferred && unroll == 4
  func := Loop.run unroll row.body

/-- The kernels of a family in the order of its table. -/
def kernels (family : Family) : List Kernel :=
  family.rows.flatMap fun row => unrolls.map fun unroll => row.kernel family.isa unroll

end Family

end Lanewise
