import KeyspaceQuery.Report
import KeyspaceQuery.Text.Blank

/-! A conversation line by line. Each line is evaluated on its own, unless it begins with a dot and
is a command to the session. All that one line leaves to the next is whether filters are shown. -/

namespace KeyspaceQuery.Session

inductive Command
  | blank | exit | help | toggleFilters | unknown
  | evaluate (text : String)
  deriving DecidableEq, Repr

/-- Commands are compared in lower case. The one character beyond ASCII whose lower case is an ASCII
letter alone is the Kelvin sign, and no command has a `k`. -/
def lower (s : String) : String := String.ofList (s.toList.map Char.toLower)

def Command.ofName (name : String) : Command :=
  if name ∈ [".exit", ".quit", ".close"] then .exit
  else if name ∈ [".help", ".h", ".?"] then .help
  else if name = ".filters" then .toggleFilters
  else .unknown

def Command.ofLine (line : String) : Command :=
  let text := Text.trim line
  match text.toList with
  | [] => .blank
  | '.' :: _ => .ofName (lower text)
  | _ => .evaluate text

def banner : String := "keyql\n"

def prompt : String := "> "

def farewell : String := "Goodbye.\n"

def helpText : String :=
  "Statements: CREATE KEYSPACE, DROP KEYSPACE, SELECT, UPSERT, DELETE.\n" ++
    "Meta commands: .filters (toggle filter table), .help, .exit\n"

/-- Why a session is over. -/
inductive Ending
  | farewell
  /-- A line is not UTF-8. -/
  | undecodable
  | fault (f : Fault)
  deriving DecidableEq, Repr

/-- The answer to a line: the session goes on, with filters shown or not, or it ends. -/
inductive Reply
  | more (output : String) (showFilters : Bool)
  | last (output : String) (ending : Ending)
  deriving DecidableEq, Repr

section Drawer

variable (draw : Drawer)

def respond (showFilters : Bool) : Command → Reply
  | .blank => .more "" showFilters
  | .exit => .last farewell .farewell
  | .help => .more helpText showFilters
  | .toggleFilters =>
    .more (if showFilters then "Filter table off.\n" else "Filter table on.\n") !showFilters
  | .unknown => .more "Error! Command not recognised.\n" showFilters
  | .evaluate text =>
    match KeyspaceQuery.evaluate draw showFilters text with
    | .ok report => .more report.text showFilters
    | .error f => .last "" (.fault f)

/-- The answer to a line as it was typed. -/
def reply (showFilters : Bool) (line : List UInt8) : Reply :=
  match Text.decode? line with
  | none => .last "" .undecodable
  | some line => respond draw showFilters (.ofLine line)

/-- All that is printed for some lines and the end of the input behind them. -/
def transcript (showFilters : Bool) : List (List UInt8) → String × Ending
  | [] => (prompt ++ farewell, .farewell)
  | line :: rest =>
    match reply draw showFilters line with
    | .last output ending => (prompt ++ output, ending)
    | .more output showFilters =>
      let (text, ending) := transcript showFilters rest
      (prompt ++ output ++ text, ending)

def run (showFilters : Bool) (input : List UInt8) : String × Ending :=
  let (text, ending) := transcript draw showFilters (Text.lines input)
  (banner ++ text, ending)

end Drawer

end KeyspaceQuery.Session
