/-
Lanewise/Slice.lean

Access to parts of a buffer within its bounds.

Every operation that takes an index or a range from a caller checks it first and
faults if it does not fit; of a range, the start is checked before the end, and the
order last.
`splice` alone checks nothing: it writes as much of a part as there is room for.
-/
import Lanewise.Error

namespace Lanewise.Slice

variable {α : Type}

def checkIndex (index length : Nat) : Except Fault Unit :=
  if index < length then .ok () else .error (.indexOutOfBounds index length)

def checkRange (start stop length : Nat) : Except Fault Unit :=
  if length < start then .error (.rangeStart start length)
  else if length < stop then .error (.rangeEnd stop length)
  else if stop < start then .error (.rangeOrder start stop)
  else .ok ()

def checkTail (start length : Nat) : Except Fault Unit :=
  if length < start then .error (.rangeStart start length) else .ok ()

/-- The element at an index. -/
def get (data : Array α) (index : Nat) : Except Fault α :=
  match data[index]? with
  | some x => .ok x
  | none => .error (.indexOutOfBounds index data.size)

/-- The elements of a range. -/
def range (data : Array α) (start stop : Nat) : Except Fault (Array α) := do
  checkRange start stop data.size
  return data.extract start stop

/-- The elements from an index on. -/
def tail (data : Array α) (start : Nat) : Except Fault (Array α) := do
  checkTail start data.size
  return data.extract start data.size

/-- Writes a part over the elements from `start` on and keeps all others. -/
def splice (data : Array α) (start : Nat) (part : Array α) : Array α :=
  data.extract 0 start ++ part.extract 0 (data.size - start)
    ++ data.extract (start + part.size) data.size

/-- Replaces the element at an index. -/
def set (data : Array α) (index : Nat) (x : α) : Except Fault (Array α) := do
  checkIndex index data.size
  return data.setIfInBounds index x

/-- Replaces every element of a range by one value. -/
def fill (data : Array α) (start stop : Nat) (x : α) : Except Fault (Array α) := do
  checkRange start stop data.size
  return splice data start (Array.replicate (stop - start) x)

/-- Writes values over all elements. -/
def overwrite (data values : Array α) : Except Fault (Array α) :=
  if values.size = data.size then .ok (splice data 0 values)
  else .error (.copyLengths values.size data.size)

/-- Writes values over the first elements. -/
def copy (data values : Array α) : Except Fault (Array α) := do
  checkRange 0 values.size data.size
  return splice data 0 values

end Lanewise.Slice
