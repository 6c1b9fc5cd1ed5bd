/-
  NumericMethods/Text/Lines.lean
  ==============================
  **The lines of a text.**

  A line ends with a line feed, which may have a carriage return before it.  A text that
  ends with a line feed has no further, empty line.
-/

namespace NumericMethods.Text

/-- A line without the carriage return it ends with. -/
def dropReturn (cs : List Char) : List Char :=
  if cs.getLast? = some '\r' then cs.dropLast else cs

/-- The pieces between line feeds as lines. -/
def linesOfPieces : List (List Char) → List (List Char)
  | [] => []
  | [last] => if last.isEmpty then [] else [last]
  | piece :: rest => dropReturn piece :: linesOfPieces rest

/-- The lines of a text. -/
def lines (cs : List Char) : List (List Char) := linesOfPieces (cs.splitOn '\n')

end NumericMethods.Text
