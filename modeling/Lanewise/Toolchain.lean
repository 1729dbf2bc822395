/-
Lanewise/Toolchain.lean

Which kernels a compiler can build.

The 512-bit kernels need a compiler that knows their instructions: release 89 of its
minor versions, or any nightly one.  `Toolchain.ofVersion` reads what the compiler
says about its version, and `Toolchain.directives` are the instructions to the build
tool that follow from it.

What the compiler prints need not be valid text.  It is read byte by byte, each byte
as the character of its number: all that matters is ASCII, which this leaves alone.
-/
import Lanewise.Text.Blank

namespace Lanewise

/-- What is known about the compiler. -/
structure Toolchain where
  nightly : Bool
  /-- The second component of the release number, 0 if it is not known. -/
  minor : Nat
deriving DecidableEq, Repr

namespace Toolchain

/-- The first stable minor release that knows the 512-bit instructions. -/
def avx512Minor : Nat := 89

/-! ### Reading the version text -/

/-- Whether a word occurs in a text. -/
def mentions (word : List Char) : List Char → Bool
  | [] => word.isEmpty
  | c :: cs => word.isPrefixOf (c :: cs) || mentions word cs

/-- The lines of a text.  What follows the last line feed is a line without an end, and
keeps its carriage return. -/
def lines (text : List Char) : List (List Char) :=
  let all := Text.pieces '\n' text
  all.dropLast.map Text.dropReturn ++ all.getLast?.toList

/-- What follows a label at the beginning of a line. -/
def afterLabel? (label line : List Char) : Option (List Char) :=
  if label.isPrefixOf line then some (line.drop label.length) else none

/-- The number written in decimal digits, if it is below 2^32; a plus sign may precede
the digits. -/
def number? (text : List Char) : Option Nat :=
  let digits := match text with
    | '+' :: rest => rest
    | other => other
  if digits.isEmpty || !digits.all Char.isDigit then none
  else
    let n := digits.foldl (fun n c => n * 10 + (c.toNat - '0'.toNat)) 0
    if n < 0x100000000 then some n else none

/-- The minor version in the first line that tells the release. -/
def minor? (text : List Char) : Option Nat := do
  let release ← (lines text).findSome? (afterLabel? "release: ".toList)
  let component ← (Text.pieces '.' release)[1]?
  number? component

def ofVersion (text : List Char) : Toolchain where
  nightly := mentions "nightly".toList text
  minor := (minor? text).getD 0

/-- The text of bytes, each read as the character of its number. -/
def textOfBytes (bytes : List UInt8) : List Char := bytes.map fun b => Char.ofNat b.toNat

/-! ### Decisions -/

/-- Whether a stable release of this number knows the 512-bit instructions. -/
def avx512Stable (tool : Toolchain) : Bool := avx512Minor ≤ tool.minor

/-- Whether the 512-bit instructions have to be enabled as an unstable feature. -/
def avx512Nightly (tool : Toolchain) : Bool := tool.nightly && !tool.avx512Stable

def isX86 (arch : String) : Bool := arch == "x86" || arch == "x86_64"

def channel (tool : Toolchain) : String := if tool.nightly then "nightly" else "stable"

/-- What the build tool is told for a target architecture. -/
def directives (tool : Toolchain) (arch : String) : List String :=
  ["cargo:rustc-cfg=rustc_channel=\"" ++ tool.channel ++ "\""]
    ++ (if isX86 arch && (tool.avx512Stable || tool.avx512Nightly) then
        ["cargo:rustc-cfg=avx512"] else [])
    ++ (if isX86 arch && tool.avx512Nightly then ["cargo:rustc-cfg=avx512_nightly"] else [])
    ++ ["cargo::rustc-check-cfg=cfg(rustc_channel, values(\"nightly\", \"stable\"))",
      "cargo::rustc-check-cfg=cfg(avx512)",
      "cargo::rustc-check-cfg=cfg(avx512_nightly)"]

/-- When the build has to be configured again. -/
def triggers : List String :=
  ["cargo:rerun-if-changed=build.rs", "cargo:rerun-if-env-changed=RUSTC"]

/-- The exit code and the output of configuring a build.  Without a compiler there is
no version to read, and the configuration fails. -/
def configure (version? : Option (List UInt8)) (arch? : Option String) : Nat × List String :=
  match version? with
  | none => (101, triggers)
  | some version =>
    (0, triggers ++ (ofVersion (textOfBytes version)).directives (arch?.getD ""))

end Toolchain

end Lanewise
