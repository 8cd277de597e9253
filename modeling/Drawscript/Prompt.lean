import Drawscript.Session
import Drawscript.Text.Backspace

/-!
# The prompt

A line-based prompt for a session. The backspaces in a line are carried out first. Then a line that
starts with a colon is a command, and any other line that is not blank is added to the program.
`step` answers one line, `runAll` a whole input.
-/

set_option autoImplicit false

namespace Drawscript

/-- Texts for the two output channels. -/
structure Output where
  out : String := ""
  err : String := ""
deriving Repr, DecidableEq

namespace Output

/-- One output after another. -/
def append (a b : Output) : Output :=
  ⟨a.out ++ b.out, a.err ++ b.err⟩

/-- Lines for the main channel. -/
def lines (texts : List String) : Output :=
  { out := String.join (texts.map fun text => text ++ "\n") }

end Output

namespace Prompt

open Text

/-- What is shown at the start. -/
def greeting : Output :=
  .lines
    [ "BOOSE REPL v0.1.0",
      "Enter program lines, then :run. Type :help for help, :quit to exit.",
      "" ]

/-- What is shown at the end. -/
def farewell : Output :=
  .lines ["Goodbye!"]

/-- What is shown on `:help`. -/
def help : Output :=
  .lines
    [ "BOOSE REPL Commands:",
      "  :run, :r        Run the program buffer from a clean state",
      "  :list, :l       Show the program buffer",
      "  :vars           Show variables after the last run",
      "  :reset          Clear the program buffer and state",
      "  :help, :h, :?   Show this help",
      "  :quit, :q       Exit the REPL",
      "",
      "Any other line is appended to the program, e.g.:",
      "  int size = 40",
      "  moveto 100, 100",
      "  circle size" ]

/-- A run as it is shown: diagnostics, texts written, and why it was stopped. -/
def report (r : Report) : Output :=
  let shown := Output.lines (r.diagnostics.map Diagnostic.display ++ r.written)
  match r.error with
  | some e => { shown with err := "Canvas error: " ++ e.message ++ "\n" }
  | none => shown

/-- A number in at least four columns. -/
def padded (n : Nat) : String :=
  let digits := toString n
  String.ofList (List.replicate (4 - digits.length) ' ') ++ digits

/-- The program lines with their numbers. -/
def listing (lines : List String) : List String :=
  lines.zipIdx.map fun (line, index) => padded (index + 1) ++ "  " ++ line

/-- Answer a command; the session ends if none is left. -/
def command (session : Session) (text : String) : Output × Option Session :=
  if text ∈ [":quit", ":q", ":exit"] then (farewell, none)
  else if text ∈ [":help", ":h", ":?"] then (help, some session)
  else if text ∈ [":run", ":r"] then
    let (r, session) := session.run
    (report r, some session)
  else if text ∈ [":list", ":l"] then (.lines (listing session.lines), some session)
  else if text = ":reset" then (.lines ["Program buffer cleared."], some session.reset)
  else if text = ":vars" then (.lines session.bindings, some session)
  else (.lines ["Unknown command: " ++ text, "Type :help for help."], some session)

/-- Answer a line; the session ends if none is left. -/
def step (session : Session) (line : String) : Output × Option Session :=
  let text := trim (applyBackspaces line.toList)
  match text with
  | [] => ({}, some session)
  | ':' :: _ => command session (String.ofList text)
  | _ => ({}, some (session.push (String.ofList text)))

/-- Answer lines up to the end of the session or of the lines. -/
def answer (session : Session) : List String → Output
  | [] => farewell
  | line :: rest =>
    match step session line with
    | (output, some session) => output.append (answer session rest)
    | (output, none) => output

/-- The lines of an input. A line break at the end starts no line. -/
def inputLines (input : String) : List String :=
  let pieces := input.toList.splitOnP (· == '\n')
  let pieces := if pieces.getLast? = some [] then pieces.dropLast else pieces
  pieces.map String.ofList

/-- Greet and answer a whole input. -/
def runAll (config : Config) (input : String) : Output :=
  greeting.append (answer (Session.new config) (inputLines input))

end Prompt

end Drawscript
