/-
Lanewise/Text/Blank.lean

White space, and cutting text at separators and blanks.

`isBlank` holds of the characters with the Unicode property `White_Space`.
Texts are taken apart as lists of characters: `pieces` cuts at every separator
and `trim` removes blanks from both ends.  A line ends with a line feed, or with a
carriage return and a line feed; a carriage return elsewhere belongs to the line.
-/

namespace Lanewise.Text

/-- The characters with the property `White_Space`, as ranges of code points. -/
def blankRanges : List (Nat × Nat) :=
  [(0x09, 0x0D), (0x20, 0x20), (0x85, 0x85), (0xA0, 0xA0), (0x1680, 0x1680), (0x2000, 0x200A),
    (0x2028, 0x2029), (0x202F, 0x202F), (0x205F, 0x205F), (0x3000, 0x3000)]

def isBlank (c : Char) : Bool :=
  blankRanges.any fun (lo, hi) => lo ≤ c.toNat && c.toNat ≤ hi

/-- Removes the blanks at both ends. -/
def trim (cs : List Char) : List Char :=
  ((cs.dropWhile isBlank).reverse.dropWhile isBlank).reverse

/-- Cuts a list at every occurrence of `separator`; the pieces are one more than
the separators. -/
def pieces {α : Type} [BEq α] (separator : α) : List α → List (List α)
  | [] => [[]]
  | c :: cs =>
    if c == separator then [] :: pieces separator cs
    else
      match pieces separator cs with
      | [] => [[c]]
      | piece :: rest => (c :: piece) :: rest

/-- A line that a line feed ended, without the carriage return before the line feed. -/
def dropReturn (line : List Char) : List Char :=
  if line.getLast? = some '\r' then line.dropLast else line

/-- The lines of a text that is written with a line feed after it. -/
def linesOf (text : String) : List String :=
  (pieces '\n' text.toList).map fun line => String.ofList (dropReturn line)

theorem pieces_ne_nil {α : Type} [BEq α] (separator : α) (cs : List α) :
    pieces separator cs ≠ [] := by
  fun_induction pieces separator cs <;> simp_all

end Lanewise.Text
