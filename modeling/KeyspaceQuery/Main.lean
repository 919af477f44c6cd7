import KeyspaceQuery.CommandLine

/-! The command itself. A conversation is had line by line, so that each answer is seen before the
next line is typed. -/

namespace KeyspaceQuery.CommandLine

/-- The code of the system says why a path cannot be read. It comes with or without a minus. -/
def fileError (e : IO.Error) : FileError :=
  match e with
  | .noFileOrDirectory .. => .notFound
  | .inappropriateType _ code _ => if code = 20 ∨ code = -20 then .notDirectory else .isDirectory
  | .invalidArgument _ code _ =>
    if code = 36 ∨ code = -36 then .nameTooLong else .other (toString e)
  | e => .other (toString e)

def readFile (path : String) : IO (Except FileError (List UInt8)) := do
  try return .ok (← IO.FS.readBinFile path).toList
  catch e => return .error (fileError e)

/-- The bytes up to the next line feed, none at the end of the input. -/
partial def readLine (input : IO.FS.Stream) (line : ByteArray) : IO ByteArray := do
  let byte ← input.read 1
  if byte.isEmpty then return line
  let line := line ++ byte
  if byte.toList = [10] then return line else readLine input line

partial def converse (input output : IO.FS.Stream) (showFilters : Bool) : IO Session.Ending := do
  output.putStr Session.prompt
  output.flush
  let line ← readLine input .empty
  if line.isEmpty then
    output.putStr Session.farewell
    return .farewell
  match Session.reply Table.text showFilters line.toList with
  | .more text showFilters =>
    output.putStr text
    converse input output showFilters
  | .last text ending =>
    output.putStr text
    return ending

def finish (o : Outcome) : IO UInt32 := do
  (← IO.getStdout).putStr o.output
  (← IO.getStderr).putStr o.errors
  return o.exit

end KeyspaceQuery.CommandLine

open KeyspaceQuery CommandLine in
def main (args : List String) : IO UInt32 := do
  match parse {} args with
  | .ok (.converse showFilters) =>
    let output ← IO.getStdout
    output.putStr Session.banner
    let ending ← converse (← IO.getStdin) output showFilters
    finish (.ofSession ("", ending))
  | .ok (.evaluateFile path showFilters) =>
    let bytes ← readFile path
    finish (Request.outcome Table.text (fun _ => bytes) [] (.evaluateFile path showFilters))
  | _ => finish (run (fun _ => .error .notFound) [] args)
