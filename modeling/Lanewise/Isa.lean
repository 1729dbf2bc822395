/-
Lanewise/Isa.lean

The instruction-set families that kernels are written for.
-/

namespace Lanewise

/-- An instruction-set family. -/
inductive Isa where
  | sse41
  | avx2
  | avx512
  | neon
deriving DecidableEq, Repr

namespace Isa

/-- Every family. -/
def all : List Isa := [.sse41, .avx2, .avx512, .neon]

def name : Isa → String
  | .sse41 => "sse41"
  | .avx2 => "avx2"
  | .avx512 => "avx512"
  | .neon => "neon"

/-- The name in diagnostic texts. -/
def label : Isa → String
  | .sse41 => "Sse41"
  | .avx2 => "Avx2"
  | .avx512 => "Avx512"
  | .neon => "Neon"

/-- Bits of a register. -/
def width : Isa → Nat
  | .sse41 => 128
  | .avx2 => 256
  | .avx512 => 512
  | .neon => 128

def ofName? (name : String) : Option Isa := all.find? (·.name == name)

end Isa

end Lanewise
