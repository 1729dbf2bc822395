/-
Lanewise/Feature.lean

Processor features and the names under which they are configured.

`Feature.ofName?` reads a name as people write it: blanks around it and the case
of ASCII letters do not matter, and the dot of `sse4.1` may be left out.
-/
import Lanewise.Text.Blank

namespace Lanewise

/-- An extension of the instruction set.  The first six belong to x86, the others
to 64-bit Arm. -/
inductive Feature where
  | sse41
  | avx2
  | f16c
  | avx512f
  | avx512bw
  | avx512bf16
  | neon
  | fp16
  | bf16
  | sve
  | sve2
deriving DecidableEq, Repr

namespace Feature

/-- Every feature, in the order in which they are reported. -/
def all : List Feature :=
  [.sse41, .avx2, .f16c, .avx512f, .avx512bw, .avx512bf16, .neon, .fp16, .bf16, .sve, .sve2]

def name : Feature → String
  | .sse41 => "sse4.1"
  | .avx2 => "avx2"
  | .f16c => "f16c"
  | .avx512f => "avx512f"
  | .avx512bw => "avx512bw"
  | .avx512bf16 => "avx512bf16"
  | .neon => "neon"
  | .fp16 => "fp16"
  | .bf16 => "bf16"
  | .sve => "sve"
  | .sve2 => "sve2"

/-- The name in diagnostic texts. -/
def label : Feature → String
  | .sse41 => "Sse41"
  | .avx2 => "Avx2"
  | .f16c => "F16c"
  | .avx512f => "Avx512f"
  | .avx512bw => "Avx512bw"
  | .avx512bf16 => "Avx512bf16"
  | .neon => "Neon"
  | .fp16 => "Fp16"
  | .bf16 => "Bf16"
  | .sve => "Sve"
  | .sve2 => "Sve2"

/-- The form in which names are compared: trimmed, in lower-case ASCII letters, and
with the dot of `sse4.1`. -/
def normalize (text : List Char) : List Char :=
  let lowered := (Text.trim text).map Char.toLower
  if lowered = "sse41".toList then "sse4.1".toList else lowered

/-- The feature that a text names, if it names one. -/
def ofName? (text : List Char) : Option Feature :=
  all.find? fun f => f.name.toList == normalize text

theorem mem_all (f : Feature) : f ∈ all := by cases f <;> decide

end Feature

end Lanewise
