/-
Lanewise/Report.lean

The report on a processor.

The program masks out what the configuration disables, tries the scalar conversions
and every compiled kernel on the reference data, chooses kernels, and converts a
small input as a last trial.  Everything it prints and logs goes into the host's
journal.  Its exit code is 0 if all is well, 1 if a conversion or a kernel failed
its trial, and 2 if it could not come that far.
-/
import Lanewise.Dispatcher
import Lanewise.Text.Padding

namespace Lanewise.Report

/-- The features to use: those of the processor without the disabled ones. -/
def configure (detected : Capabilities) (disabled? : Option String) : Session Capabilities := do
  match disabled? with
  | none => return detected
  | some names =>
    let caps ← Session.check (detected.restrictByNames names)
    Session.log (.masking names)
    return caps

/-! ### The table of kernels -/

/-- A row of the table, up to the status. -/
def columns (kernel isa block : String) : String :=
  Text.padRight 32 kernel ++ " " ++ Text.padLeft 8 isa ++ " " ++ Text.padLeft 7 block ++ "  "

def header : String := columns "kernel" "isa" "block" ++ "status"

def row (k : Kernel) (status : String) : String :=
  columns k.name k.isa.name (toString k.block) ++ status

/-- How the trial of a kernel ended. -/
inductive Verdict where
  | passed
  | skipped (missing : Feature)
  | failed (cause : Error)
deriving DecidableEq

namespace Verdict

/-- A kernel that the processor does not support is skipped, any other error is a failure. -/
def ofResult : Except Error Unit → Verdict
  | .ok () => passed
  | .error (.unsupportedKernel _ missing) => skipped missing
  | .error cause => failed cause

def text : Verdict → String
  | passed => "ok"
  | skipped missing => "skipped (no " ++ missing.name ++ ")"
  | failed cause => "FAILED: " ++ cause.message

def isFailure : Verdict → Bool
  | failed _ => true
  | _ => false

end Verdict

/-- Tries one kernel and prints its row. -/
def tryKernel (caps : Capabilities) (fixture : ReferenceSet) (k : Kernel) : Session Verdict := do
  let verdict := Verdict.ofResult (← Session.attempt (validateKernel k caps fixture))
  Session.print (row k verdict.text)
  return verdict

/-- Prints the table, and returns how many kernels passed and failed. -/
def printTable (caps : Capabilities) (fixture : ReferenceSet) : Session (Nat × Nat) := do
  Session.print header
  let verdicts ← Registry.compiled.kernels.mapM (tryKernel caps fixture)
  return (verdicts.count .passed, verdicts.countP Verdict.isFailure)

/-! ### The program -/

/-- Tries the scalar conversion of a direction; whether it is right. -/
def tryScalar (fixture : ReferenceSet) (d : Direction) : Session Bool := do
  match ← Session.attempt (validateScalar d fixture) with
  | .ok () => return true
  | .error cause =>
    Session.log (.scalarMismatch d cause)
    return false

/-- Four hexadecimal digits, or as many as it takes. -/
def hex4 (n : Nat) : String :=
  let digits := Nat.toDigits 16 n
  String.ofList (List.replicate (4 - digits.length) '0' ++ digits)

/-- Converts the small input to half precision and compares the result. -/
def smokeTest (dispatcher : Dispatcher) : Session Unit := do
  let (halves, _) ← Session.convertInto (Array.replicate smallInput.size 0)
    (dispatcher.f32ToF16 smallInput)
  Session.check (verify (dispatcher.selected .f32ToF16) .u16 halves smallChecksum)
  Session.print ("f32 -> f16 [" ++ ", ".intercalate (halves.toList.map (hex4 ·.toNat))
    ++ "] (crc " ++ toString (checksum .u16 halves).toNat ++ ")")

/-- The whole report; whether the conversions and all kernels passed. -/
def run (detected : Capabilities) (disabled? : Option String) : Session Bool := do
  let caps ← configure detected disabled?
  Session.print ("cpu: " ++ caps.describe)
  let fixture ← ReferenceSet.make
  let scalars ← Direction.all.mapM (tryScalar fixture)
  let (passed, failed) ← printTable caps fixture
  Session.print (toString passed ++ " kernels passed, " ++ toString failed ++ " failed")
  let dispatcher ← Dispatcher.new caps
  Session.print ""
  Direction.all.forM fun d =>
    Session.print (Text.padRight 20 d.name ++ " -> " ++ dispatcher.selected d)
  smokeTest dispatcher
  return scalars.all id && failed == 0

/-- The exit code of the program. -/
def exitCode (detected : Capabilities) (disabled? : Option String) : Session Nat := do
  match ← Session.attempt (run detected disabled?) with
  | .ok true => return 0
  | .ok false => return 1
  | .error cause =>
    Session.log (.aborted cause)
    return 2

/-- The features that the program looks for on an x86 processor. -/
def probed : List Feature := [.sse41, .avx2, .f16c, .avx512f, .avx512bw, .avx512bf16]

end Lanewise.Report
