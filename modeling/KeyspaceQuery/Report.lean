import KeyspaceQuery.Program
import KeyspaceQuery.Text.Lines

/-! What is printed for a text: the canonical form of each of its statements, with a table of the
filters behind it where that is asked for, or the error that refuses the text. What the table looks
like is left to whoever draws it. -/

namespace KeyspaceQuery

/-- A table as a text, drawn from its rows. The first row has the names of the columns. -/
abbrev Drawer := List (List String) → String

/-- A filter as a row of the table. -/
def Filter.row (f : Filter) : List String :=
  [f.key, f.operator.symbol, ", ".intercalate f.values]

structure Report where
  /-- What is printed, each with a line feed behind it. A table may have line feeds of its own. -/
  entries : List String
  succeeded : Bool
  deriving DecidableEq, Repr

def Report.text (r : Report) : String := Text.unlines r.entries

section Drawer

variable (draw : Drawer) (showFilters : Bool)

def Filter.table (filters : List Filter) : String :=
  draw (["attribute", "operator", "values"] :: filters.map row)

def Statement.report (s : Statement) : List String :=
  s.render :: if showFilters && !s.filters.isEmpty then [Filter.table draw s.filters] else []

def Program.report (p : Program) : List String :=
  match p.toList with
  | [] => ["No statements"]
  | list => list.flatMap (Statement.report draw showFilters)

def evaluate (text : String) : Except Fault Report :=
  match parseProgram text with
  | .ok p => .ok ⟨p.report draw showFilters, true⟩
  | .error (.syntaxError e) => .ok ⟨["Syntax Error: " ++ e.message], false⟩
  | .error (.fault f) => .error f

end Drawer

end KeyspaceQuery
