import KeyspaceQuery.Statement.Render
import KeyspaceQuery.SyntaxError

/-! What a parser notes down while it works: each token it pulls from the text, and the start and
the outcome of each statement. A token that is put back and taken again is not noted again. -/

namespace KeyspaceQuery

inductive Event
  | scanned (t : Token)
  | started (t : Token)
  | parsed (s : Statement)
  | failed (e : SyntaxError)
  deriving DecidableEq, Repr

namespace Event

/-- Tokens are noted as `TRACE`, statements as `DEBUG`. -/
def level : Event → String
  | scanned _ => "TRACE"
  | _ => "DEBUG"

def message : Event → String
  | scanned t => "scanned " ++ t.kind.name ++ " at " ++ t.position.message
  | started t => "parsing statement starting with " ++ t.describe
  | parsed s => "parsed " ++ s.nodeType.name ++ ": " ++ s.render
  | failed e => "parse failed: " ++ e.message

end Event

abbrev Journal := Array Event

end KeyspaceQuery
