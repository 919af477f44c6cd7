import KeyspaceQuery.Proofs.Text.Lines
import KeyspaceQuery.Report
import KeyspaceQuery.Table

/-! The lines of a table, which are told by their first characters. The tables of the command are
drawn so: whatever the cells hold, a line is a border or begins with a bar, since a cell with line
feeds is spread over as many lines. -/

namespace KeyspaceQuery

open Text (OneLine)

/-- The line is part of a table, as its first character tells. -/
def Table.isDrawn (line : String) : Bool := line.toList.head?.any fun c => c = '+' || c = '|'

/-- Each line of a table begins with `+` or `|`, whatever the cells hold. -/
def Drawer.IsRuled (draw : Drawer) : Prop :=
  ∀ columns rows, columns ≠ [] → (∀ row ∈ rows, row.length = columns.length) →
    ∀ line ∈ Text.splitLines (draw (columns :: rows)), Table.isDrawn line

namespace Table

variable {rows : List (List String)} {row : List String} {line : String}

theorem isDrawn_border (ws : List Nat) : isDrawn (border ws) := by simp [isDrawn, border]

theorem isDrawn_rowLine (ws : List Nat) (pieces : List (List Char)) :
    isDrawn (rowLine ws pieces) := by
  simp [isDrawn, rowLine]

theorem oneLine_border (ws : List Nat) : OneLine (border ws) := by
  simp [OneLine, border, List.mem_replicate]

theorem oneLine_rowLine {pieces : List (List Char)} (h : ∀ piece ∈ pieces, '\n' ∉ piece)
    (ws : List Nat) : OneLine (rowLine ws pieces) := by
  rw [OneLine, rowLine, String.toList_ofList]
  intro hnewline
  obtain ⟨⟨w, piece⟩, hmem, hnewline⟩ :=
    List.mem_flatMap.1 ((List.mem_cons.1 hnewline).resolve_left (by decide))
  have hpiece : '\n' ∉ piece := h piece (List.of_mem_zip hmem).2
  simp [hpiece, List.mem_replicate] at hnewline

/-- The pieces that stand side by side in a row have no line feeds. -/
theorem not_mem_of_mem_pieces {i : Nat} {piece : List Char}
    (h : piece ∈ (row.map cellLines).map fun lines => lines[i]?.getD []) : '\n' ∉ piece := by
  obtain ⟨lines, hlines, rfl⟩ := List.mem_map.1 h
  obtain ⟨cell, -, rfl⟩ := List.mem_map.1 hlines
  cases hi : (cellLines cell)[i]? with
  | none => exact List.not_mem_nil
  | some piece => exact Text.not_mem_of_mem_splitOn (List.mem_of_getElem? hi)

/-- A line of a table is a border or belongs to a row. -/
theorem mem_lines_cases (h : line ∈ lines rows) :
    (∃ ws, line = border ws) ∨ ∃ (ws : List Nat) (row : List String) (i : Nat),
      line = rowLine ws ((row.map cellLines).map fun lines => lines[i]?.getD []) := by
  rcases List.mem_cons.1 h with rfl | h
  · exact .inl ⟨_, rfl⟩
  obtain ⟨row, -, h⟩ := List.mem_flatMap.1 h
  rcases List.mem_append.1 h with h | h
  · obtain ⟨i, -, rfl⟩ := List.mem_map.1 h
    exact .inr ⟨_, row, i, rfl⟩
  · exact .inl ⟨_, List.mem_singleton.1 h⟩

theorem isDrawn_of_mem_lines (h : line ∈ lines rows) : isDrawn line := by
  rcases mem_lines_cases h with ⟨ws, rfl⟩ | ⟨ws, row, i, rfl⟩
  · exact isDrawn_border ws
  · exact isDrawn_rowLine ws _

theorem oneLine_of_mem_lines (h : line ∈ lines rows) : OneLine line := by
  rcases mem_lines_cases h with ⟨ws, rfl⟩ | ⟨ws, row, i, rfl⟩
  · exact oneLine_border ws
  · exact oneLine_rowLine (fun _ => not_mem_of_mem_pieces) ws

theorem splitLines_text (rows : List (List String)) : Text.splitLines (text rows) = lines rows :=
  Text.splitLines_intercalate (fun _ => oneLine_of_mem_lines) (List.cons_ne_nil _ _)

theorem isRuled_text : Drawer.IsRuled text := by
  intro columns rows _ _ line hline
  rw [splitLines_text] at hline
  exact isDrawn_of_mem_lines hline

end Table

end KeyspaceQuery
