import KeyspaceQuery.Token

/-! Why a query text is refused, and where. An error names the token found and what could have
stood in its place, or a part of the filter grammar that the statement does not admit. -/

namespace KeyspaceQuery

/-- What a statement may admit in its filters beyond equality with one value. -/
inductive Capability
  | logicalOr
  | between
  deriving DecidableEq, Repr

def Capability.text : Capability → String
  | logicalOr => "OR"
  | between => "BETWEEN"

/-- One entry of an error's list of alternatives. A keyspace is asked for at its first segment. -/
inductive Expectation
  | keyword (k : Keyword)
  | keyspace | identifier | string | equal | comma | and | or | semicolon | endOfInput
  deriving DecidableEq, Repr

namespace Expectation

def text : Expectation → String
  | keyword k => k.text
  | keyspace => "keyspace"
  | identifier => "identifier"
  | string => "string"
  | equal => "EQ"
  | comma => "COMMA"
  | and => "AND"
  | or => "OR"
  | semicolon => "SEMICOLON"
  | endOfInput => "EOF"

/-- The kind of token that meets the expectation. -/
def kind : Expectation → TokenKind
  | keyword k => .keyword k
  | keyspace => .identifier
  | identifier => .identifier
  | string => .str
  | equal => .equal
  | comma => .comma
  | and => .and
  | or => .or
  | semicolon => .semicolon
  | endOfInput => .endOfInput

end Expectation

namespace Expected

def statement : List Expectation :=
  [.keyword .create, .keyword .drop, .keyword .select, .keyword .delete, .keyword .upsert]
def keyspaceWord : List Expectation := [.keyword .keyspace]
def keyspace : List Expectation := [.keyspace]
def identifier : List Expectation := [.identifier]
def string : List Expectation := [.string]
def withWord : List Expectation := [.keyword .withWord]
def keyOrKeys : List Expectation := [.keyword .key, .keyword .keys]
/-- A semicolon ends the list as well and goes unmentioned. -/
def moreKeys : List Expectation := [.comma, .endOfInput]
def terminator : List Expectation := [.endOfInput, .semicolon]
def fromWord : List Expectation := [.keyword .fromWord]
def into : List Expectation := [.keyword .into]
def whereWord : List Expectation := [.keyword .whereWord]
def moreFilters : List Expectation := [.endOfInput, .semicolon, .and]
def operator : List Expectation := [.equal, .keyword .between]
def equal : List Expectation := [.equal]
def logical : List Expectation := [.and, .or]
def and : List Expectation := [.and]

def all : List (List Expectation) :=
  [statement, keyspaceWord, keyspace, identifier, string, withWord, keyOrKeys, moreKeys,
    terminator, fromWord, into, whereWord, moreFilters, operator, equal, logical, and]

end Expected

inductive SyntaxError.Cause
  | unexpected (found : String) (expected : List String)
  | notAllowed (capability : Capability)
  deriving DecidableEq, Repr

def SyntaxError.Cause.message : SyntaxError.Cause → String
  | unexpected found expected => "found " ++ found ++ ", expected " ++ ", ".intercalate expected
  | notAllowed capability => capability.text ++ " not allowed"

structure SyntaxError where
  cause : SyntaxError.Cause
  position : Position
  deriving DecidableEq, Repr

namespace SyntaxError

/-- The error of finding `t` where only `expected` could stand. -/
def unexpected (t : Token) (expected : List Expectation) : SyntaxError :=
  ⟨.unexpected t.describe (expected.map Expectation.text), t.position⟩

def notAllowed (capability : Capability) (t : Token) : SyntaxError :=
  ⟨.notAllowed capability, t.position⟩

def message (e : SyntaxError) : String := e.cause.message ++ " at " ++ e.position.message

end SyntaxError

end KeyspaceQuery
