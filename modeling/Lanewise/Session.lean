/-
Lanewise/Session.lean

Computations that ask the host for memory and tell what they do.

The host is a value.  It says which page allocations it refuses, by their position
in the order of requests, counts them, and keeps a journal of all that happened:
kernels called, lines logged, lines printed.  Memory beyond its addresses it refuses
whatever the position.  A `Session` is a computation on it, and a refusal of one is
an error that `attempt` turns into a value.
-/
import Lanewise.Conversion
import Lanewise.Log

namespace Lanewise

/-- Something that happened. -/
inductive Event where
  | called (kernel : Kernel)
  | logged (line : Log.Line)
  | printed (text : String)

/-- The surroundings of a computation. -/
structure Host where
  /-- Which page allocations are refused, counted from 0. -/
  refuses : Nat → Bool
  /-- The page allocations requested so far, refused ones included. -/
  requested : Nat := 0
  journal : Array Event := #[]

namespace Host

/-- A host that refuses the page allocations at the given positions. -/
def refusing (positions : List Nat) : Host where
  refuses := fun i => positions.contains i

/-- The logged lines, oldest first. -/
def lines (host : Host) : List Log.Line :=
  host.journal.toList.filterMap fun
    | .logged line => some line
    | _ => none

/-- The called kernels, oldest first. -/
def calls (host : Host) : List Kernel :=
  host.journal.toList.filterMap fun
    | .called k => some k
    | _ => none

/-- Everything printed and the log lines that the filter lets pass, in the order in which
they came.  Each is written with a line feed after it. -/
def output (host : Host) (filter : Log.Filter) : List String :=
  host.journal.toList.filterMap fun
    | .printed text => some text
    | .logged line => if filter.shows line then some line.render else none
    | .called _ => none

/-- The output as a reader sees it, line by line. -/
def transcript (host : Host) (filter : Log.Filter) : List String :=
  (host.output filter).flatMap Text.linesOf

/-- The alignment of pages. -/
def pageAlignment : Nat := 4096

/-- The addresses of a process are below `2 ^ 47`. -/
def addressLimit : Nat := 0x800000000000

/-- Whether the next request for memory of this size and alignment is refused.  A block
at an unknown address needs its alignment as room beside its size, so a great alignment
is refused as a great size is. -/
def denies (host : Host) (size alignment : Nat) : Bool :=
  addressLimit ≤ size + alignment || (alignment == pageAlignment && host.refuses host.requested)

/-- The host after a request for memory.  Requests for pages are counted. -/
def counted (host : Host) (alignment : Nat) : Host :=
  if alignment == pageAlignment then { host with requested := host.requested + 1 } else host

end Host

/-- Who is asked for zeroed memory of a size and an alignment.  The answer is whether there is
none, and the host as it is afterwards. -/
abbrev Allocator : Type := Nat → Nat → Host → Bool × Host

/-- The host is asked itself. -/
def Host.allocator : Allocator := fun size alignment host =>
  (host.denies size alignment, host.counted alignment)

/-- Computations on a host. -/
abbrev Session (α : Type) : Type := EStateM Stop Host α

namespace Session

variable {α τ : Type}

def record (event : Event) : Session Unit :=
  modify fun host => { host with journal := host.journal.push event }

def log (line : Log.Line) : Session Unit := record (.logged line)

def print (text : String) : Session Unit := record (.printed text)

/-- Refuses with an error if there is one. -/
def check (result : Except Error α) : Session α :=
  match result with
  | .ok a => pure a
  | .error e => throw (.error e)

/-- Faults if a rule is broken. -/
def require (result : Except Fault α) : Session α :=
  match result with
  | .ok a => pure a
  | .error f => throw (.fault f)

/-- Turns an error into a value.  A fault stays a fault. -/
def attempt (act : Session α) : Session (Except Error α) := fun host =>
  match act host with
  | .ok a host => .ok (.ok a) host
  | .error (.error e) host => .ok (.error e) host
  | .error (.fault f) host => .error (.fault f) host

/-- Converts into a destination, and returns it with the conversion's result.  The kernels
called go into the journal whether or not the conversion succeeds. -/
def convertInto (dst : Array τ) (act : Converting τ α) : Session (Array τ × α) := fun host =>
  let note (calls : Array Kernel) : Host :=
    { host with journal := host.journal ++ calls.map Event.called }
  match act { dst } with
  | .ok a w => .ok (w.dst, a) (note w.calls)
  | .error s w => .error s (note w.calls)

/-- Asks for zeroed memory of a positive size. -/
def allocate (allocator : Allocator) (size alignment : Nat) : Session Unit := fun host =>
  match allocator size alignment host with
  | (true, after) => .error (.error (.allocation size alignment "allocator returned null")) after
  | (false, after) => .ok () after

end Session

end Lanewise
