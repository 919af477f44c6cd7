import KeyspaceQuery.Text.Lines

/-! Files as a command sees them: the text at a path, or why there is none. A tree of files is
searched name by name, and the first name that cannot be followed decides. -/

namespace KeyspaceQuery

inductive FileError
  | notFound | notDirectory | isDirectory | nameTooLong | undecodable
  | other (cause : String)
  deriving DecidableEq, Repr

def FileError.cause : FileError → String
  | notFound => "No such file or directory (os error 2)"
  | notDirectory => "Not a directory (os error 20)"
  | isDirectory => "Is a directory (os error 21)"
  | nameTooLong => "File name too long (os error 36)"
  | undecodable => Text.notUtf8
  | other cause => cause

/-- Files and directories by the names on the way to them from the root, which is a directory. Paths
that do not begin with a slash are followed from the working directory. -/
structure FileTree where
  files : List (List String × List UInt8)
  directories : List (List String)
  working : List String

namespace FileTree

inductive Node
  | file (bytes : List UInt8)
  | directory
  deriving DecidableEq, Repr

def node? (tree : FileTree) (place : List String) : Option Node :=
  if place = [] ∨ place ∈ tree.directories then some .directory
  else (tree.files.lookup place).map .file

/-- The most bytes in a name, and in a path. -/
def maxName : Nat := 255

def maxPath : Nat := 4095

/-- Follows names from a place. Only a directory can be gone on from, even by `.` or `..` or by the
empty name behind a slash. -/
def follow (tree : FileTree) (place : List String) : List String → Except FileError Node
  | [] =>
    match tree.node? place with
    | some node => .ok node
    | none => .error .notFound
  | name :: rest =>
    match tree.node? place with
    | none => .error .notFound
    | some (.file _) => .error .notDirectory
    | some .directory =>
      if name = "" ∨ name = "." then follow tree place rest
      else if name = ".." then follow tree place.dropLast rest
      else if maxName < name.utf8ByteSize then .error .nameTooLong
      else follow tree (place ++ [name]) rest

def read (tree : FileTree) (path : String) : Except FileError (List UInt8) := do
  if maxPath < path.utf8ByteSize then throw .nameTooLong
  let start := if path.toList.head? = some '/' then [] else tree.working
  match ← tree.follow start ((path.toList.splitOn '/').map String.ofList) with
  | .file bytes => return bytes
  | .directory => throw .isDirectory

end FileTree

end KeyspaceQuery
