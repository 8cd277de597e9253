import Drawscript.CommandLine

/-!
# The executable

Reads the arguments, the files that they name and the standard input, and writes what the command
line gives.
-/

set_option autoImplicit false

open Drawscript Drawscript.CommandLine

/-- The contents of a file. -/
def readSource (name : String) : IO (Except FileError String) := do
  try
    return .ok (← IO.FS.readFile name)
  catch e =>
    match e with
    | .noFileOrDirectory .. => return .error .missing
    | _ => return .error (.other (toString e))

/-- Answer prompt lines until the session ends. -/
partial def promptLoop (session : Session) : IO Unit := do
  let input ← IO.getStdin
  let line ← input.getLine
  let (output, next) :=
    if line.isEmpty then (Prompt.farewell, none) else Prompt.step session line
  IO.print output.out
  IO.eprint output.err
  if let some session := next then promptLoop session

/-- The command. -/
def main (args : List String) : IO UInt32 := do
  match Arguments.read? {} args with
  | none =>
    IO.eprintln usage
    return 2
  | some request =>
    let contents ← request.files.mapM fun name => return (name, ← readSource name)
    let files : Files := fun name => (contents.lookup name).getD (.error .missing)
    match request with
    | .perform .repl _ options _ =>
      match loadConfig files options with
      | .error message =>
        IO.eprintln ("Error: " ++ message)
        return 1
      | .ok config =>
        IO.print Prompt.greeting.out
        promptLoop (Session.new config)
        return 0
    | request =>
      let result := request.carryOut files ""
      IO.print result.output.out
      IO.eprint result.output.err
      return UInt32.ofNat result.exit
