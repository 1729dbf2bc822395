/-
Lanewise/Main.lean

The command line: reports on the processor it runs on.

`SIMDCAST_DISABLE` lists features to mask out, and `RUST_LOG` says which log lines
are shown among the report.
-/
import Lanewise.Report

namespace Lanewise.Report

/-- The word that stands for a feature among a processor's flags. -/
def flag (f : Feature) : String :=
  match f with
  | .sse41 => "sse4_1"
  | .avx512bf16 => "avx512_bf16"
  | other => other.name

/-- The probed features whose flags occur in a description of the processor. -/
def featuresOf (description : String) : Capabilities :=
  let words := (Text.pieces '\n' description.toList).flatMap (Text.pieces ' ')
  .ofList (probed.filter fun f => words.contains (flag f).toList)

/-- The system's description of the processor, empty if there is none. -/
def processorDescription : IO String := do
  try IO.FS.readFile "/proc/cpuinfo"
  catch _ => return ""

end Lanewise.Report

open Lanewise in
/-- Prints the report and returns its exit code. -/
def main : IO UInt32 := do
  let detected := Report.featuresOf (← Report.processorDescription)
  let disabled? ← IO.getEnv "SIMDCAST_DISABLE"
  let filter := Log.Filter.parse (← IO.getEnv "RUST_LOG")
  match (Report.exitCode detected disabled?).run (Host.refusing []) with
  | .ok code host =>
    for text in host.output filter do
      IO.println text
    return UInt32.ofNat code
  | .error stop host =>
    for text in host.output filter do
      IO.println text
    IO.eprintln (match stop with
      | .error e => e.message
      | .fault f => f.message)
    return 101
