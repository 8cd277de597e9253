import Drawscript.Canvas.Basic
import Drawscript.Interpreter

/-!
# Sessions

A session collects program lines and runs them, each time as a whole, on an empty store and a fresh
canvas.
-/

set_option autoImplicit false

namespace Drawscript

/-- The lines collected so far, and the interpreter with what the last run left. -/
structure Session where
  lines : List String
  interpreter : Interpreter

/-- What a run in a session has to show. -/
structure Report where
  diagnostics : List Diagnostic
  /-- The texts written, in order. -/
  written : List String
  error : Option CanvasError

namespace Session

/-- A session without lines. -/
def new (config : Config) : Session :=
  ⟨[], Interpreter.new config⟩

/-- Add a line to the program. -/
def push (session : Session) (line : String) : Session :=
  { session with lines := session.lines ++ [line] }

/-- Forget the lines and all that was left by runs. -/
def reset (session : Session) : Session :=
  ⟨[], session.interpreter.reset⟩

/-- The program as a source text. -/
def source (session : Session) : String :=
  "\n".intercalate session.lines

/-- Run the program. Without a canvas of the configured size there is no run. -/
def run (session : Session) : Report × Session :=
  let size := session.interpreter.config.canvas
  match Canvas.new size.width size.height with
  | .error e => (⟨[], [], some e⟩, session)
  | .ok canvas =>
    let result := session.interpreter.run session.source canvas
    (⟨result.diagnostics, result.surface.written, result.error⟩,
      { session with interpreter := result.interpreter })

/-- The variables with their values, sorted by name. -/
def bindings (session : Session) : List String :=
  session.interpreter.store.scope.sorted.map fun (name, value) => name ++ " = " ++ value.display

end Session

end Drawscript
