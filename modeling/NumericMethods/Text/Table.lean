/-
  NumericMethods/Text/Table.lean
  ==============================
  **Tables drawn with rounded boxes.**

  A table has a line above, between and below all rows, one space of padding on both sides
  of every cell, and left-aligned texts.  A column is as wide as the widest line of its
  cells, a row as high as its highest cell, and short rows are filled with empty cells.  A
  table without any cell is the empty text.
-/
import NumericMethods.Text.Width

namespace NumericMethods.Text

/-- The lines of a text, of which there is at least one. -/
def linesOf (cs : List Char) : List (List Char) := cs.splitOn '\n'

namespace Table

/-- A cell: the lines of its text. -/
abbrev Cell := List (List Char)

/-- The width of a cell. -/
def cellWidth (cell : Cell) : Nat := (cell.map lineWidth).foldl max 0

/-- The cells of a row, filled up to `count`. -/
def filled (count : Nat) (row : List Cell) : List Cell :=
  row ++ List.replicate (count - row.length) [[]]

/-- The widths of the columns of rows of one length. -/
def columnWidths (count : Nat) (rows : List (List Cell)) : List Nat :=
  (List.range count).map fun j =>
    rows.foldl (fun w row => max w (cellWidth (row.getD j [[]]))) 0

/-- A horizontal line with its three kinds of crossings. -/
def rule (left cross right : Char) (widths : List Nat) : List Char :=
  left :: ((widths.map fun w => List.replicate (w + 2) '─').intersperse [cross]).flatten ++
    [right]

/-- One line of a cell, padded to the width of its column. -/
def padded (w : Nat) (line : List Char) : List Char :=
  ' ' :: line ++ List.replicate (w - lineWidth line) ' ' ++ [' ']

/-- The lines of a row. -/
def rowLines (widths : List Nat) (row : List Cell) : List (List Char) :=
  let height := (row.map List.length).foldl max 0
  (List.range height).map fun i =>
    '│' :: ((List.zipWith (fun w cell => padded w (cell.getD i [])) widths row).intersperse
      ['│']).flatten ++ ['│']

/-- The lines of a table with at least one cell. -/
def lines (count : Nat) (rows : List (List Cell)) : List (List Char) :=
  let widths := columnWidths count rows
  let between := rule '├' '┼' '┤' widths
  rule '╭' '┬' '╮' widths ::
    ((rows.map (rowLines widths)).intersperse [between]).flatten ++
    [rule '╰' '┴' '╯' widths]

/-- The text of a table. -/
def render (records : List (List String)) : String :=
  let count := (records.map List.length).foldl max 0
  if count = 0 then ""
  else
    let rows := records.map fun r => filled count (r.map fun s => linesOf s.toList)
    String.ofList ((lines count rows).intersperse ['\n']).flatten

end Table

end NumericMethods.Text
