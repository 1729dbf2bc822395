/-
Lanewise/Log.lean

What is reported while kernels are chosen and checked.

A `Log.Line` is one report: what happened, with its data.  `level` and `target`
say how important it is and which part of the library speaks, and `render` writes
it down.  A `Log.Filter` decides which lines are shown, from directives such as
`info` or `lanes=debug`: of those whose target begins the line's target the
longest one decides.
-/
import Lanewise.Capabilities

namespace Lanewise.Log

/-- How important a line is, the most important first. -/
inductive Level where
  | error
  | warn
  | info
  | debug
  | trace
deriving DecidableEq, Repr

namespace Level

def all : List Level := [.error, .warn, .info, .debug, .trace]

def rank : Level → Nat
  | .error => 1
  | .warn => 2
  | .info => 3
  | .debug => 4
  | .trace => 5

def name : Level → String
  | .error => "error"
  | .warn => "warn"
  | .info => "info"
  | .debug => "debug"
  | .trace => "trace"

/-- The level at the head of a line, five characters wide. -/
def heading : Level → String
  | .error => "ERROR"
  | .warn => " WARN"
  | .info => " INFO"
  | .debug => "DEBUG"
  | .trace => "TRACE"

/-- The level of a name, in any case. -/
def ofName? (name : String) : Option Level :=
  let wanted := name.toList.map Char.toLower
  all.find? fun level => level.name.toList == wanted

end Level

/-- One report. -/
inductive Line where
  /-- Kernels are about to be chosen among so many. -/
  | selecting (caps : Capabilities) (kernels : Nat)
  /-- The reference data could not be made; nothing is chosen. -/
  | fixtureUnavailable (cause : Error)
  /-- A candidate did not pass. -/
  | rejected (kernel : String) (cause : Error)
  /-- What will serve a direction. -/
  | selected (direction : Direction) (implementation : String)
  /-- A kernel was put in the place of the chosen one. -/
  | pinned (kernel : String) (direction : Direction)
  /-- Features are masked out by configuration. -/
  | masking (names : String)
  /-- The scalar conversion differs from the recorded result. -/
  | scalarMismatch (direction : Direction) (cause : Error)
  /-- The program gives up. -/
  | aborted (cause : Error)
deriving DecidableEq

namespace Line

def level : Line → Level
  | selecting .. => .info
  | fixtureUnavailable .. => .warn
  | rejected .. => .warn
  | selected .. => .debug
  | pinned .. => .info
  | masking .. => .info
  | scalarMismatch .. => .error
  | aborted .. => .error

/-- The part of the library that speaks: the choice of kernels, or the program. -/
def target : Line → String
  | selecting .. => "simdcast::dispatch"
  | fixtureUnavailable .. => "simdcast::dispatch"
  | rejected .. => "simdcast::dispatch"
  | selected .. => "simdcast::dispatch"
  | pinned .. => "simdcast::dispatch"
  | masking .. => "simdcast"
  | scalarMismatch .. => "simdcast"
  | aborted .. => "simdcast"

def text : Line → String
  | selecting caps kernels =>
    "selecting conversion kernels capabilities=" ++ caps.describe ++ " kernels="
      ++ toString kernels
  | fixtureUnavailable cause =>
    "reference fixture unavailable, using scalar conversions error=" ++ cause.message
  | rejected kernel cause =>
    "kernel rejected kernel=\"" ++ kernel ++ "\" error=" ++ cause.message
  | selected direction implementation =>
    "selected direction=" ++ direction.name ++ " kernel=\"" ++ implementation ++ "\""
  | pinned kernel direction =>
    "kernel pinned kernel=\"" ++ kernel ++ "\" direction=" ++ direction.name
  | masking names => "masking CPU features disabled=" ++ names
  | scalarMismatch direction cause =>
    "scalar reference does not match direction=" ++ direction.name ++ " error=" ++ cause.message
  | aborted cause => "validation aborted error=" ++ cause.message

/-- The line as it is written. -/
def render (line : Line) : String :=
  line.level.heading ++ " " ++ line.target ++ ": " ++ line.text

end Line

/-- The lines at a level and above it. -/
def atLevel (level : Level) (lines : List Line) : List Line :=
  lines.filter fun line => line.level.rank ≤ level.rank

/-- Lines whose target begins with `target` are shown down to `level`, or not at all. -/
structure Directive where
  target : List Char
  level : Option Level
deriving DecidableEq

/-- What is shown. -/
structure Filter where
  directives : List Directive
deriving DecidableEq

namespace Filter

/-- Everything at a level and above it. -/
def upTo (level : Level) : Filter := ⟨[⟨[], some level⟩]⟩

/-- Of two directives the one with the longer target, the second if they are alike. -/
def closer (best? : Option Directive) (d : Directive) : Option Directive :=
  match best? with
  | none => some d
  | some best => if d.target.length < best.target.length then some best else some d

/-- Whether a line is shown.  A line that no directive is about is not. -/
def shows (filter : Filter) (line : Line) : Bool :=
  let about := filter.directives.filter fun d => d.target.isPrefixOf line.target.toList
  match about.foldl closer none with
  | some ⟨_, some level⟩ => line.level.rank ≤ level.rank
  | _ => false

/-- A level or `off`. -/
def parseLevel (text : List Char) : Option (Option Level) :=
  if text.map Char.toLower = "off".toList then some none
  else (Level.ofName? (String.ofList text)).map some

/-- A level for all targets, a target with its level, or a target alone, which is then
shown at every level. -/
def parseDirective (text : List Char) : Option Directive :=
  match Text.pieces '=' text with
  | [whole] =>
    match parseLevel whole with
    | some level => some ⟨[], level⟩
    | none => some ⟨whole, some .trace⟩
  | [target, level] => (parseLevel level).map fun level => ⟨target, level⟩
  | _ => none

/-- Directives separated by commas.  A setting without any shows errors alone.  If there
is no setting, or one that cannot be read, everything from `info` up is shown. -/
def parse (setting? : Option String) : Filter :=
  match setting? with
  | none => upTo .info
  | some text =>
    match ((Text.pieces ',' text.toList).filter fun piece => !piece.isEmpty).mapM
        parseDirective with
    | some [] => upTo .error
    | some directives => ⟨directives⟩
    | none => upTo .info

end Filter

end Lanewise.Log
