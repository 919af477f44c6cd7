/-! Places in a query text. Lines and columns are counted from zero and shown from one. -/

namespace KeyspaceQuery

structure Position where
  line : Nat
  column : Nat
  deriving DecidableEq, Repr

namespace Position

def start : Position := ⟨0, 0⟩

/-- One column to the right. -/
def right (p : Position) : Position := ⟨p.line, p.column + 1⟩

/-- The first column of the next line. -/
def newline (p : Position) : Position := ⟨p.line + 1, 0⟩

/-- The place that follows the character `c` at `p`. Only a line feed ends a line. -/
def after (p : Position) (c : Char) : Position := if c = '\n' then p.newline else p.right

def message (p : Position) : String :=
  "line " ++ (p.line + 1).repr ++ ", char " ++ (p.column + 1).repr

end Position

end KeyspaceQuery
