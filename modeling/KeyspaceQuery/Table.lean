import KeyspaceQuery.Text.Width

/-! Tables drawn with `+`, `-` and `|`: a border above, below and between all rows, and a blank on
both sides of each cell. A cell may have several lines, and its row is then as high as its highest
cell. -/

namespace KeyspaceQuery.Table

/-- The lines of a cell, empty ones too. -/
def cellLines (cell : String) : List (List Char) := cell.toList.splitOn '\n'

def cellWidth (cell : String) : Nat := ((cellLines cell).map Text.width).foldl max 0

/-- The width of each column: that of its widest cell. -/
def widths : List (List String) → List Nat
  | [] => []
  | row :: rows =>
    rows.foldl (fun ws row => ws.zipWith max (row.map cellWidth)) (row.map cellWidth)

def border (ws : List Nat) : String :=
  String.ofList ('+' :: ws.flatMap fun w => List.replicate (w + 2) '-' ++ ['+'])

/-- One line of a row, from one line of each of its cells. -/
def rowLine (ws : List Nat) (pieces : List (List Char)) : String :=
  String.ofList ('|' :: (ws.zip pieces).flatMap fun (w, piece) =>
    ' ' :: piece ++ List.replicate (w - Text.width piece) ' ' ++ [' ', '|'])

def rowLines (ws : List Nat) (row : List String) : List String :=
  let cells := row.map cellLines
  let height := (cells.map List.length).foldl max 0
  (List.range height).map fun i => rowLine ws (cells.map fun lines => lines[i]?.getD [])

def lines (rows : List (List String)) : List String :=
  let ws := widths rows
  border ws :: rows.flatMap fun row => rowLines ws row ++ [border ws]

def text (rows : List (List String)) : String := "\n".intercalate (lines rows)

end KeyspaceQuery.Table
