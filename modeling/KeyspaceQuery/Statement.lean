/-! Statements of the query language as trees. A tree may hold more than can be written: any names,
any operators and any number of keys, filters and values. -/

namespace KeyspaceQuery

/-- The name of a keyspace: identifiers joined by dots. -/
structure Path where
  text : String
  deriving DecidableEq, Repr

/-- The pieces between the dots. A path without a dot is one segment, the empty path too. -/
def Path.segments (p : Path) : List String := (p.text.toList.splitOn '.').map String.ofList

inductive Operator
  | equality | and | or | between
  deriving DecidableEq, Repr

/-- Values joined by one operator: the pair of an `OR`, or the bounds of a `BETWEEN`, which `AND`
joins. -/
structure ValueGroup where
  operator : Operator
  values : List String
  deriving DecidableEq, Repr

def ValueGroup.either (first second : String) : ValueGroup := ⟨.or, [first, second]⟩

def ValueGroup.range (lower upper : String) : ValueGroup := ⟨.and, [lower, upper]⟩

inductive Comparand
  | literal (value : String)
  | group (values : ValueGroup)
  deriving DecidableEq, Repr

/-- A condition on one key attribute of a row. -/
inductive Filter
  | equality (key : String) (value : Comparand)
  | between (key : String) (bounds : ValueGroup)
  deriving DecidableEq, Repr

inductive Statement
  | create (keyspace : Path) (keys : List String)
  | drop (keyspace : Path)
  | select (keyspace : Path) (filters : List Filter)
  | upsert (value : String) (keyspace : Path) (filters : List Filter)
  | delete (keyspace : Path) (filters : List Filter)
  deriving DecidableEq, Repr

/-- The kinds of node in a tree. -/
inductive NodeType
  | createKeyspace | dropKeyspace | select | upsert | delete | stringLiteral | stringLiteralGroup
  | expression | keyAttribute | between
  deriving DecidableEq, Repr

def NodeType.name : NodeType → String
  | createKeyspace => "CreateKeyspace"
  | dropKeyspace => "DropKeyspace"
  | select => "Select"
  | upsert => "Upsert"
  | delete => "Delete"
  | stringLiteral => "StringLiteral"
  | stringLiteralGroup => "StringLiteralGroup"
  | expression => "Expression"
  | keyAttribute => "KeyAttribute"
  | between => "Between"

namespace Operator

def name : Operator → String
  | equality => "Equality"
  | and => "And"
  | or => "Or"
  | between => "Between"

def symbol : Operator → String
  | equality => "="
  | and => "AND"
  | or => "OR"
  | between => "BETWEEN"

/-- The operator as it stands between its operands. -/
def text (o : Operator) : String := " " ++ o.symbol ++ " "

end Operator

namespace Comparand

def nodeType : Comparand → NodeType
  | literal _ => .stringLiteral
  | group _ => .stringLiteralGroup

def values : Comparand → List String
  | literal value => [value]
  | group g => g.values

end Comparand

namespace Filter

def nodeType : Filter → NodeType
  | equality _ _ => .expression
  | between _ _ => .between

def operator : Filter → Operator
  | equality _ _ => .equality
  | between _ _ => .between

def key : Filter → String
  | equality key _ => key
  | between key _ => key

/-- The values the key is compared with, in the order they are written. -/
def values : Filter → List String
  | equality _ value => value.values
  | between _ bounds => bounds.values

end Filter

namespace Statement

def nodeType : Statement → NodeType
  | create _ _ => .createKeyspace
  | drop _ => .dropKeyspace
  | select _ _ => .select
  | upsert _ _ _ => .upsert
  | delete _ _ => .delete

theorem nodeType_eq_dropKeyspace_iff {s : Statement} :
    s.nodeType = .dropKeyspace ↔ ∃ p, s = .drop p := by
  cases s <;> simp [nodeType]

def keyspace : Statement → Path
  | create keyspace _ => keyspace
  | drop keyspace => keyspace
  | select keyspace _ => keyspace
  | upsert _ keyspace _ => keyspace
  | delete keyspace _ => keyspace

/-- The filters of the `WHERE` clause. Statements about a keyspace itself have none. -/
def filters : Statement → List Filter
  | create _ _ => []
  | drop _ => []
  | select _ filters => filters
  | upsert _ _ filters => filters
  | delete _ filters => filters

end Statement

end KeyspaceQuery
