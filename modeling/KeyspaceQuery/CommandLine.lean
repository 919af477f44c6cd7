import KeyspaceQuery.Files
import KeyspaceQuery.Session
import KeyspaceQuery.Table

/-! The command `keyql`: what its arguments ask for, and what it then prints. Arguments are taken from
left to right, and the first one that is wrong, or that asks for the version or for help, decides. -/

namespace KeyspaceQuery.CommandLine

inductive UsageError
  | unknownOption (text : String)
  | secondQuery (text : String)
  | repeated (option : String)
  | missingPath
  | unexpectedValue (option : String)
  | fileAndQuery
  deriving DecidableEq, Repr

def UsageError.message : UsageError → String
  | unknownOption text => "unknown option " ++ text
  | secondQuery text => "more than one query: " ++ text
  | repeated option => option ++ " is given more than once"
  | missingPath => "--file needs a path"
  | unexpectedValue option => option ++ " takes no value"
  | fileAndQuery => "--file and a query exclude each other"

inductive Request
  | version | help
  | evaluate (query : String) (showFilters : Bool)
  | evaluateFile (path : String) (showFilters : Bool)
  | converse (showFilters : Bool)
  deriving DecidableEq, Repr

/-- What has been given so far. -/
structure Given where
  query : Option String := none
  file : Option String := none
  filters : Bool := false
  deriving DecidableEq, Repr

namespace Given

def addQuery (g : Given) (text : String) : Except UsageError Given :=
  match g.query with
  | none => .ok { g with query := some text }
  | some _ => .error (.secondQuery text)

def addFile (g : Given) (path : String) : Except UsageError Given :=
  match g.file with
  | some _ => .error (.repeated "--file")
  | none => if path = "" then .error .missingPath else .ok { g with file := some path }

def addFilters (g : Given) : Except UsageError Given :=
  if g.filters then .error (.repeated "--filters") else .ok { g with filters := true }

/-- A file and a query exclude each other, and a conversation is had when neither is given. -/
def request (g : Given) : Except UsageError Request :=
  match g.file, g.query with
  | none, none => .ok (.converse g.filters)
  | none, some query => .ok (.evaluate query g.filters)
  | some path, none => .ok (.evaluateFile path g.filters)
  | some _, some _ => .error .fileAndQuery

end Given

inductive Flag
  | file | filters | version | help
  deriving DecidableEq, Repr

/-- An argument by its form. A dash alone is a query, and a letter's value may follow it in the same
argument, with or without `=`. -/
inductive Argument
  | query (text : String)
  | endOfOptions
  | flag (f : Flag) (value : Option String)
  | unknown (text : String)
  deriving DecidableEq, Repr

namespace Argument

/-- The parts before and behind the first `=`. -/
def splitValue (cs : List Char) : String × Option String :=
  match cs.dropWhile (· != '=') with
  | [] => (String.ofList cs, none)
  | _ :: value => (String.ofList (cs.takeWhile (· != '=')), some (String.ofList value))

def ofLong (text : String) (cs : List Char) : Argument :=
  match splitValue cs with
  | ("file", value) => .flag .file value
  | ("filters", value) => .flag .filters value
  | ("version", value) => .flag .version value
  | ("help", value) => .flag .help value
  | _ => .unknown text

/-- Only `-f` takes a value. What follows the other letters is never looked at. -/
def ofShort (text : String) (c : Char) (cs : List Char) : Argument :=
  match c, cs with
  | 'f', [] => .flag .file none
  | 'f', '=' :: value => .flag .file (some (String.ofList value))
  | 'f', value => .flag .file (some (String.ofList value))
  | 'V', _ => .flag .version none
  | 'h', _ => .flag .help none
  | _, _ => .unknown text

def ofString (text : String) : Argument :=
  match text.toList with
  | ['-', '-'] => .endOfOptions
  | '-' :: '-' :: cs => ofLong text cs
  | '-' :: c :: cs => ofShort text c cs
  | _ => .query text

/-- The argument can stand as the value of the option before it. -/
def isPlain : Argument → Bool
  | query _ => true
  | _ => false

end Argument

/-- Reads arguments behind those already given. Behind `--` all are queries. -/
def parse (g : Given) : List String → Except UsageError Request
  | [] => g.request
  | text :: rest =>
    match Argument.ofString text with
    | .query text => do parse (← g.addQuery text) rest
    | .endOfOptions => do (← rest.foldlM Given.addQuery g).request
    | .flag .file (some path) => do parse (← g.addFile path) rest
    | .flag .file none =>
      match rest with
      | [] => .error .missingPath
      | path :: rest =>
        if (Argument.ofString path).isPlain then do parse (← g.addFile path) rest
        else .error .missingPath
    | .flag .filters none => do parse (← g.addFilters) rest
    | .flag .version none => .ok .version
    | .flag .help none => .ok .help
    | .flag _ (some _) => .error (.unexpectedValue text)
    | .unknown text => .error (.unknownOption text)

structure Outcome where
  exit : UInt32
  output : String
  errors : String := ""
  deriving DecidableEq, Repr

namespace Outcome

def ofFault (output : String) (f : Fault) : Outcome := ⟨101, output, f.message ++ "\n"⟩

def ofReport : Except Fault Report → Outcome
  | .ok report => ⟨if report.succeeded then 0 else 1, report.text, ""⟩
  | .error f => ofFault "" f

def ofFileError (path : String) (e : FileError) : Outcome :=
  ⟨1, "", "Error: Failed to open " ++ path ++ "\n\nCaused by:\n    " ++ e.cause ++ "\n"⟩

def ofSession : String × Session.Ending → Outcome
  | (output, .farewell) => ⟨0, output, ""⟩
  | (output, .undecodable) => ⟨1, output, "Error: " ++ Text.notUtf8 ++ "\n"⟩
  | (output, .fault f) => ofFault output f

end Outcome

def versionText : String := "keyql 0.1.0\n"

def usageText : String :=
  "Usage: keyql [--filters] [QUERY | --file PATH]\n\n" ++
    "Prints the canonical form of the statements in QUERY or in the file at PATH,\n" ++
    "or of those typed line by line when neither is given.\n\n" ++
    "  -f, --file PATH  evaluate the statements in a file\n" ++
    "      --filters    print the filters of each statement as a table\n" ++
    "  -V, --version    print the version\n" ++
    "  -h, --help       print this text\n"

/-- The text of a file, from its bytes. -/
def fileText (bytes : Except FileError (List UInt8)) : Except FileError String := do
  match Text.decode? (← bytes) with
  | some text => return text
  | none => throw .undecodable

/-- What is printed, given how tables are drawn, the files there are and all of the input. -/
def Request.outcome (draw : Drawer) (files : String → Except FileError (List UInt8))
    (input : List UInt8) : Request → Outcome
  | .version => ⟨0, versionText, ""⟩
  | .help => ⟨0, usageText, ""⟩
  | .evaluate query showFilters => .ofReport (KeyspaceQuery.evaluate draw showFilters query)
  | .evaluateFile path showFilters =>
    match fileText (files path) with
    | .ok text => .ofReport (KeyspaceQuery.evaluate draw showFilters text)
    | .error e => .ofFileError path e
  | .converse showFilters => .ofSession (Session.run draw showFilters input)

/-- Runs the command. A wrong usage is told on the error stream alone. -/
def run (files : String → Except FileError (List UInt8)) (input : List UInt8)
    (args : List String) : Outcome :=
  match parse {} args with
  | .ok request => request.outcome Table.text files input
  | .error e => ⟨2, "", "error: " ++ e.message ++ "\n\n" ++ usageText⟩

end KeyspaceQuery.CommandLine
