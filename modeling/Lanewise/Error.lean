/-
Lanewise/Error.lean

What can go wrong.

Conversions of elements are total, so an `Error` comes from what surrounds them:
making buffers, comparing lengths, choosing kernels, checking their results, and
reading configuration.  An `Error` is an answer.  A `Fault` is not: it says that
a caller broke a rule it had to keep, such as an index within its bounds, and it
ends the whole computation.  `Stop` is either of the two.
-/
import Lanewise.Direction
import Lanewise.Feature

namespace Lanewise

/-- The refusals a caller can act on. -/
inductive Error where
  /-- No memory of this size and alignment was to be had. -/
  | allocation (size alignment : Nat) (detail : String)
  /-- No memory can have this size and alignment. -/
  | layout (size alignment : Nat) (detail : String)
  /-- Source and destination hold different numbers of elements. -/
  | lengthMismatch (input output : Nat)
  /-- A result differs from the recorded one. -/
  | checksumMismatch (kernel : String) (expected actual : UInt32)
  /-- The processor lacks a feature that the kernel requires. -/
  | unsupportedKernel (kernel : String) (missing : Feature)
  /-- No compiled kernel has this name. -/
  | unknownKernel (name : String)
  /-- A kernel converted another number of elements than its block implies. -/
  | granularity (kernel : String) (processed expected : Nat)
  /-- A kernel was given a conversion of another direction. -/
  | directionMismatch (kernel : String) (expected : Direction)
  /-- No feature has this name. -/
  | unknownFeature (name : String)
deriving DecidableEq, Repr

/-- The text of an error. -/
def Error.message : Error → String
  | .allocation size alignment detail =>
    "Memory allocation failed: " ++ detail ++ " (requested " ++ toString size ++ " bytes with "
      ++ toString alignment ++ " byte alignment)"
  | .layout size alignment detail =>
    "Invalid memory layout: " ++ detail ++ " (size: " ++ toString size ++ ", alignment: "
      ++ toString alignment ++ ")"
  | .lengthMismatch input output =>
    "Length mismatch: input has " ++ toString input ++ " elements, output has " ++ toString output
  | .checksumMismatch kernel expected actual =>
    "Validation failed for " ++ kernel ++ ": expected checksum " ++ toString expected.toNat
      ++ ", actual " ++ toString actual.toNat
  | .unsupportedKernel kernel missing =>
    "Kernel " ++ kernel ++ " requires CPU feature " ++ missing.name
  | .unknownKernel name => "Unknown kernel: " ++ name
  | .granularity kernel processed expected =>
    "Kernel " ++ kernel ++ " converted " ++ toString processed ++ " of " ++ toString expected
      ++ " elements"
  | .directionMismatch kernel expected =>
    "Kernel " ++ kernel ++ " does not implement " ++ expected.name
  | .unknownFeature name => "Unknown CPU feature: " ++ name

/-- The broken rules. -/
inductive Fault where
  /-- Element-wise conversion of buffers of different lengths. -/
  | unequalLengths
  /-- An index at or past the length. -/
  | indexOutOfBounds (index length : Nat)
  /-- A range that ends past the length. -/
  | rangeEnd (stop length : Nat)
  /-- A range that ends before it starts. -/
  | rangeOrder (start stop : Nat)
  /-- A range or a tail that starts past the length. -/
  | rangeStart (start length : Nat)
  /-- A remainder by zero. -/
  | zeroDivisor
  /-- A copy of all elements between buffers of different lengths. -/
  | copyLengths (source target : Nat)
deriving DecidableEq, Repr

/-- The text of a fault. -/
def Fault.message : Fault → String
  | .unequalLengths => "assertion \x60left == right\x60 failed: Buffers must be the same length"
  | .indexOutOfBounds index length =>
    "index out of bounds: the len is " ++ toString length ++ " but the index is " ++ toString index
  | .rangeEnd stop length =>
    "range end index " ++ toString stop ++ " out of range for slice of length " ++ toString length
  | .rangeOrder start stop =>
    "slice index starts at " ++ toString start ++ " but ends at " ++ toString stop
  | .rangeStart start length =>
    "range start index " ++ toString start ++ " out of range for slice of length "
      ++ toString length
  | .zeroDivisor => "attempt to calculate the remainder with a divisor of zero"
  | .copyLengths source target =>
    "copy_from_slice: source slice length (" ++ toString source
      ++ ") does not match destination slice length (" ++ toString target ++ ")"

/-- Why a computation ended without a result. -/
inductive Stop where
  | error (e : Error)
  | fault (f : Fault)
deriving DecidableEq, Repr

/-- Source and destination must hold the same number of elements. -/
def checkLengths (input output : Nat) : Except Error Unit :=
  if input = output then .ok () else .error (.lengthMismatch input output)

end Lanewise
