import KeyspaceQuery.Statement.Parser

/-! Programs: statements with semicolons between them. The whole text is read, up to the first
error. -/

namespace KeyspaceQuery

/-- A text without statements has a form of its own. -/
inductive Program
  | empty
  | statements (list : List Statement)
  deriving DecidableEq, Repr

namespace Program

def ofList : List Statement → Program
  | [] => empty
  | s :: rest => statements (s :: rest)

def toList : Program → List Statement
  | empty => []
  | statements list => list

theorem toList_ofList (ss : List Statement) : (ofList ss).toList = ss := by
  cases ss <;> rfl

theorem eq_ofList_iff {p : Program} {ss : List Statement} :
    p = ofList ss ↔ ss = [] ∧ p = empty ∨ ss ≠ [] ∧ p = statements ss := by
  cases ss <;> simp [ofList]

theorem ofList_ne_statements_nil (ss : List Statement) : ofList ss ≠ .statements [] := by
  cases ss <;> nofun

end Program

namespace Parser

def endsStatement (t : Token) : Bool := t.kind = .endOfInput || t.kind = .semicolon

theorem endsStatement_iff {t : Token} :
    endsStatement t ↔ t.kind = .semicolon ∨ t.kind = .endOfInput := by
  simp [endsStatement, or_comm]

/-- `DROP` leaves the token that closes it to the program. -/
def close (s : Statement) : Parser Unit :=
  if s.nodeType = .dropKeyspace then terminator else pure ()

/-- Reads the statement that comes next, if any, behind those read so far. -/
def programStep (read : List Statement) : Parser (Round (List Statement) (List Statement)) := do
  let t ← next fun t => if endsStatement t then .consume t else .leave t
  if t.kind = .endOfInput then return .done read
  else if t.kind = .semicolon then return .again read
  else
    let s ← statement
    close s
    return .again (read ++ [s])

theorem advances_programStep : Advances programStep := fun read =>
  progresses_bind (P := fun t => t.kind = .semicolon)
    (progresses_next fun t u h => by
      by_cases ht : endsStatement t
      · simp only [if_pos ht]
        exact ⟨nofun, fun | rfl => h ▸ nofun⟩
      · simp only [if_neg ht]
        exact ⟨fun | rfl => ht (by simp [endsStatement, h]), nofun⟩)
    fun t h => by
      split
      · exact progresses_pure id
      · exact progresses_bind progresses_statement fun _ h => absurd trivial h

def program : Parser Program := do return .ofList (← rounds programStep advances_programStep [])

end Parser

def parseProgram (text : String) : Except Failure Program := Parser.program.parse text

end KeyspaceQuery
