import KeyspaceQuery.Position
import KeyspaceQuery.Text.Alphabetic
import KeyspaceQuery.Text.Numeric

/-! The tokens of the query language and the words that are reserved in it. -/

namespace KeyspaceQuery

inductive Keyword
  | create | select | upsert | into | delete | drop | fromWord | whereWord | keyspace | withWord
  | key | keys | between
  deriving DecidableEq, Repr

namespace Keyword

def all : List Keyword :=
  [create, select, upsert, into, delete, drop, fromWord, whereWord, keyspace, withWord, key, keys,
    between]

/-- The one spelling of the keyword: case matters. -/
def text : Keyword → String
  | create => "CREATE"
  | select => "SELECT"
  | upsert => "UPSERT"
  | into => "INTO"
  | delete => "DELETE"
  | drop => "DROP"
  | fromWord => "FROM"
  | whereWord => "WHERE"
  | keyspace => "KEYSPACE"
  | withWord => "WITH"
  | key => "KEY"
  | keys => "KEYS"
  | between => "BETWEEN"

def name : Keyword → String
  | create => "Create"
  | select => "Select"
  | upsert => "Upsert"
  | into => "Into"
  | delete => "Delete"
  | drop => "Drop"
  | fromWord => "From"
  | whereWord => "Where"
  | keyspace => "Keyspace"
  | withWord => "With"
  | key => "Key"
  | keys => "Keys"
  | between => "Between"

end Keyword

/-- `AND` and `OR` join filters and values and are no keywords. -/
inductive TokenKind
  | whitespace | dot | comma | semicolon | equal | and | or
  | keyword (k : Keyword)
  | identifier
  | str
  /-- A string that a line feed or the end of the text cuts off. -/
  | badString
  /-- A string up to a backslash pair that stands for nothing. -/
  | badEscape
  | illegal
  | endOfInput
  deriving DecidableEq, Repr

namespace TokenKind

/-- What a word is: a logical operator, a keyword, or else an identifier. -/
def ofWord (word : String) : TokenKind :=
  if word = "AND" then .and
  else if word = "OR" then .or
  else match Keyword.all.find? (fun k => k.text = word) with
    | some k => .keyword k
    | none => .identifier

def keyword? : TokenKind → Option Keyword
  | keyword k => some k
  | _ => none

/-- How the kind reads in a message about what was found. -/
def display : TokenKind → String
  | whitespace => "WS"
  | dot => "."
  | comma => ","
  | semicolon => ";"
  | equal => "="
  | and => "AND"
  | or => "OR"
  | keyword k => k.text
  | identifier => "IDENT"
  | str => "TEXTUAL"
  | badString => "BADSTRING"
  | badEscape => "BADESCAPE"
  | illegal => "ILLEGAL"
  | endOfInput => "EOF"

/-- How the kind reads in the journal. -/
def name : TokenKind → String
  | whitespace => "Whitespace"
  | dot => "Dot"
  | comma => "Comma"
  | semicolon => "Semicolon"
  | equal => "Equal"
  | and => "And"
  | or => "Or"
  | keyword k => "Keyword(" ++ k.name ++ ")"
  | identifier => "Identifier"
  | str => "Str"
  | badString => "BadString"
  | badEscape => "BadEscape"
  | illegal => "Illegal"
  | endOfInput => "EOF"

end TokenKind

/-- The literal is the text of a word, of a run of blanks or of an illegal character, the decoded
value of a string, and empty for punctuation and the end of the input. -/
structure Token where
  kind : TokenKind
  position : Position
  literal : String
  deriving DecidableEq, Repr

namespace Token

/-- An identifier is shown with its name, any other token by its kind alone. -/
def describe (t : Token) : String :=
  match t.kind with
  | .identifier => "IDENTIFIER (" ++ t.literal ++ ")"
  | kind => kind.display

/-- What the token takes from the text: the end of the input takes nothing and can be had again. -/
def weight (t : Token) : Nat := if t.kind = .endOfInput then 0 else 1

theorem weight_le_one (t : Token) : t.weight ≤ 1 := by unfold weight; split <;> decide

theorem weight_pos {t : Token} (h : t.kind ≠ .endOfInput) : 0 < t.weight := by simp [weight, h]

def isBlank (c : Char) : Bool := c == ' ' || c == '\t' || c == '\n' || c == '\r'

def isWordStart (c : Char) : Bool := Text.isAlphabetic c || c == '_'

def isWordChar (c : Char) : Bool := Text.isAlphabetic c || Text.isNumeric c || c == '_'

theorem isWordChar_of_isWordStart {c : Char} (h : isWordStart c) : isWordChar c := by
  simp_all [isWordStart, isWordChar]
  exact h.elim (fun h => .inl (.inl h)) .inr

end Token

end KeyspaceQuery
