import KeyspaceQuery.Parser

/-! Statements read from their text. Blanks may stand between any two tokens, except inside the name
of a keyspace. `DROP` is complete with its keyspace, and all other statements take the semicolon or
the end of the input that closes them. -/

namespace KeyspaceQuery

/-- What the filters of a statement may use. -/
structure Admits where
  between : Bool
  logicalOr : Bool
  deriving DecidableEq, Repr

/-- `SELECT` and `DELETE` may address many rows. -/
def Admits.read : Admits := ⟨true, true⟩

/-- `UPSERT` has to resolve to exactly one row. -/
def Admits.write : Admits := ⟨false, false⟩

namespace Parser

open SyntaxError (unexpected notAllowed)

def expect (kind : TokenKind) (expected : List Expectation) : Parser Token :=
  next fun t => if t.kind = kind then .consume t else .reject (unexpected t expected)

def string : Parser String := do return (← expect .str Expected.string).literal

def identifier : Parser String := do return (← expect .identifier Expected.identifier).literal

def word (k : Keyword) (expected : List Expectation) : Parser Unit := do
  let _ ← expect (.keyword k) expected

def terminator : Parser Unit :=
  next fun t => match t.kind with
    | .endOfInput | .semicolon => .consume ()
    | _ => .reject (unexpected t Expected.terminator)

/-- A part of a path, and whether it ends in a dot. -/
structure PathSoFar where
  text : String
  dotted : Bool

def pathStep (path : PathSoFar) : Parser (Round PathSoFar (PathSoFar × Token)) :=
  nextRaw fun t => match t.kind with
    | .dot =>
      if path.dotted then .reject (unexpected t Expected.identifier)
      else .consume (.again ⟨path.text ++ ".", true⟩)
    | .identifier => .consume (.again ⟨path.text ++ t.literal, false⟩)
    | _ => .leave (.done (path, t))

theorem advances_pathStep : Advances pathStep := fun path =>
  progresses_nextRaw fun t r hr => by
    cases r with
    | done => exact hr.elim
    | again s => constructor <;> (split <;> try split) <;> simp_all

/-- The token behind the path is put back even if the path ends in a dot and is refused. -/
def keyspace : Parser Path := do
  let first ← expect .identifier Expected.keyspace
  let (path, last) ← rounds pathStep advances_pathStep ⟨first.literal, false⟩
  if path.dotted then reject (unexpected last Expected.identifier) else return ⟨path.text⟩

/-- A value, or a single pair of values where `OR` is admitted. -/
def equality (admits : Admits) (key : String) : Parser Filter := do
  let first ← string
  let pair ← next fun t => match t.kind with
    | .and | .endOfInput | .semicolon => .leave false
    | .or => if admits.logicalOr then .consume true else .reject (notAllowed .logicalOr t)
    | _ =>
      .reject (unexpected t (if admits.logicalOr then Expected.logical else Expected.and))
  if pair then return .equality key (.group (.either first (← string)))
  else return .equality key (.literal first)

def range (key : String) : Parser Filter := do
  let lower ← string
  let _ ← expect .and Expected.and
  let upper ← string
  return .between key (.range lower upper)

def filter (admits : Admits) : Parser Filter := do
  let key ← identifier
  let isRange ← next fun t => match t.kind with
    | .equal => .consume false
    | .keyword .between =>
      if admits.between then .consume true else .reject (notAllowed .between t)
    | _ => .reject (unexpected t (if admits.between then Expected.operator else Expected.equal))
  if isRange then range key else equality admits key

/-- The token that closes the list of filters is taken with it. -/
def moreFilters : Parser Bool :=
  next fun t => match t.kind with
    | .endOfInput | .semicolon => .consume false
    | .and => .consume true
    | _ => .reject (unexpected t Expected.moreFilters)

theorem progresses_moreFilters : moreFilters.Progresses (· = true) :=
  progresses_next fun t again h => by subst h; constructor <;> split <;> simp_all

def filters (admits : Admits) : Parser (List Filter) :=
  oneOrMore moreFilters progresses_moreFilters (filter admits)

/-- The token that closes the list of keys is put back. -/
def moreKeys : Parser Bool :=
  next fun t => match t.kind with
    | .endOfInput | .semicolon => .leave false
    | .comma => .consume true
    | _ => .reject (unexpected t Expected.moreKeys)

theorem progresses_moreKeys : moreKeys.Progresses (· = true) :=
  progresses_next fun t again h => by subst h; constructor <;> split <;> simp_all

def keys : Parser (List String) := do
  let several ← next fun t => match t.kind with
    | .keyword .key => .consume false
    | .keyword .keys => .consume true
    | _ => .reject (unexpected t Expected.keyOrKeys)
  if several then oneOrMore moreKeys progresses_moreKeys identifier else return [← identifier]

/-- A statement behind `CREATE KEYSPACE`. -/
def create : Parser Statement := do
  let path ← keyspace
  word .withWord Expected.withWord
  let keys ← keys
  terminator
  return .create path keys

/-- A statement behind `DROP KEYSPACE`. -/
def drop : Parser Statement := do return .drop (← keyspace)

def keyspaceWhere (admits : Admits) : Parser (Path × List Filter) := do
  let path ← keyspace
  word .whereWord Expected.whereWord
  return (path, ← filters admits)

/-- A statement behind `SELECT` or `DELETE`. -/
def fromWhere (build : Path → List Filter → Statement) : Parser Statement := do
  word .fromWord Expected.fromWord
  let (path, filters) ← keyspaceWhere .read
  return build path filters

/-- A statement behind `UPSERT`. -/
def upsert : Parser Statement := do
  let value ← string
  word .into Expected.into
  let (path, filters) ← keyspaceWhere .write
  return .upsert value path filters

/-- The outcome of a statement is noted, unless `CREATE` or `DROP` is not followed by `KEYSPACE`. -/
def statement : Parser Statement := do
  let t ← next .consume
  note (.started t)
  match t.kind with
  | .keyword .create => do
    word .keyspace Expected.keyspaceWord
    reported create
  | .keyword .drop => do
    word .keyspace Expected.keyspaceWord
    reported drop
  | .keyword .select => reported (fromWhere .select)
  | .keyword .delete => reported (fromWhere .delete)
  | .keyword .upsert => reported upsert
  | _ => reported (reject (unexpected t Expected.statement))

theorem progresses_statement : statement.Progresses fun _ => True :=
  progresses_bind (P := fun t => t.kind ≠ .endOfInput)
    (progresses_next fun t _ h => ⟨nofun, fun | rfl => h⟩)
    fun t h => progresses_bind (P := fun _ => False) (fun _ _ _ _ h => h.elim) fun _ _ => by
      rw [Decidable.not_not.1 h]
      exact progresses_reported progresses_reject

end Parser

def parseStatement (text : String) : Except Failure Statement := Parser.statement.parse text

end KeyspaceQuery
