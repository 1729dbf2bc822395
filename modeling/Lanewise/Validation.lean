/-
Lanewise/Validation.lean

Trying kernels before they are trusted.

A kernel passes if the processor has what it requires, if on the reference data it
reports exactly the prefix that its blocks fill, and if the destination has the
recorded checksum.  The checks come in this order, and a kernel that the processor
does not support is never called.  The scalar conversions are held to the same
checksums.
-/
import Lanewise.ReferenceSet

namespace Lanewise

/-- Compares a buffer's checksum with the recorded one. -/
def verify (label : String) (e : Element) (data : Array e.Bits) (expected : UInt32) :
    Except Error Unit :=
  let actual := checksum e data
  if actual = expected then .ok () else .error (.checksumMismatch label expected actual)

/-- Tries a kernel on the reference data. -/
def validateKernel (k : Kernel) (caps : Capabilities) (fixture : ReferenceSet) :
    Session Unit := do
  if let some missing := caps.missing? k.requires then
    throw (.error (.unsupportedKernel k.name missing))
  let (actual, processed) ← fixture.trial k.direction (some k)
  if k.block = 0 then
    throw (.fault .zeroDivisor)
  let expected := Loop.reach k.block referenceLength
  if processed ≠ expected then
    throw (.error (.granularity k.name processed expected))
  if actual ≠ expectedChecksum k.direction then
    throw (.error (.checksumMismatch k.name (expectedChecksum k.direction) actual))

/-- Tries the scalar conversion on the reference data. -/
def validateScalar (d : Direction) (fixture : ReferenceSet) : Session Unit := do
  let (actual, _) ← fixture.trial d none
  if actual ≠ expectedChecksum d then
    throw (.error (.checksumMismatch (d.name ++ "_scalar") (expectedChecksum d) actual))

end Lanewise
