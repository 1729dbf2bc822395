/-
Lanewise/Text/Padding.lean

Placing a text in a field.

A `Padding` may cut a text to a number of characters and then fills it with
spaces up to a width.  A text wider than the field is left as it is.
-/

namespace Lanewise.Text

/-- Where a text stands in a wider field. -/
inductive Alignment where
  | left
  | center
  | right
deriving DecidableEq, Repr

/-- A field: how wide it is, where the text stands in it, and how many characters
of the text are kept at most. -/
structure Padding where
  width : Nat := 0
  alignment : Alignment := .left
  limit : Option Nat := none
deriving DecidableEq, Repr

namespace Padding

def spaces (n : Nat) : List Char := List.replicate n ' '

/-- Cuts, then fills.  In the middle of a field an odd space goes to the right. -/
def apply (p : Padding) (text : String) : String :=
  let kept := match p.limit with
    | none => text.toList
    | some n => text.toList.take n
  let free := p.width - kept.length
  String.ofList <| match p.alignment with
    | .left => kept ++ spaces free
    | .center => spaces (free / 2) ++ kept ++ spaces (free - free / 2)
    | .right => spaces free ++ kept

end Padding

/-- A text at the left of a field. -/
def padRight (width : Nat) (text : String) : String := Padding.apply ⟨width, .left, none⟩ text

/-- A text at the right of a field. -/
def padLeft (width : Nat) (text : String) : String := Padding.apply ⟨width, .right, none⟩ text

end Lanewise.Text
