import KeyspaceQuery.Statement
import KeyspaceQuery.Text.Quoted

/-! The canonical text of a statement, on one line and closed by a semicolon. -/

namespace KeyspaceQuery

open Text (quote)

def ValueGroup.render (g : ValueGroup) : String := g.operator.text.intercalate (g.values.map quote)

def Comparand.render : Comparand → String
  | literal value => quote value
  | group g => g.render

def Filter.render : Filter → String
  | equality key value => key ++ Operator.equality.text ++ value.render
  | between key bounds => key ++ Operator.between.text ++ bounds.render

/-- The words of a `WHERE` clause after `WHERE`. -/
def Filter.renderAll (filters : List Filter) : String := " AND ".intercalate (filters.map render)

/-- A single key is announced by `KEY`, any other number by `KEYS`. -/
def Statement.keyWord (keys : List String) : String := if keys.length = 1 then "KEY" else "KEYS"

def Statement.render : Statement → String
  | create keyspace keys =>
    "CREATE KEYSPACE " ++ keyspace.text ++ " WITH " ++ keyWord keys ++ " " ++
      ", ".intercalate keys ++ ";"
  | drop keyspace => "DROP KEYSPACE " ++ keyspace.text ++ ";"
  | select keyspace filters =>
    "SELECT FROM " ++ keyspace.text ++ " WHERE " ++ Filter.renderAll filters ++ ";"
  | upsert value keyspace filters =>
    "UPSERT " ++ quote value ++ " INTO " ++ keyspace.text ++ " WHERE " ++
      Filter.renderAll filters ++ ";"
  | delete keyspace filters =>
    "DELETE FROM " ++ keyspace.text ++ " WHERE " ++ Filter.renderAll filters ++ ";"

end KeyspaceQuery
