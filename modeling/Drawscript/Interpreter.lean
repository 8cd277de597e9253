import Drawscript.Exec
import Drawscript.Stmt.Parser

/-!
# The interpreter

An interpreter keeps its store from one run to the next. `run` starts from an empty store with the
program of a source text; `execute` runs statements on the store as it is.
-/

set_option autoImplicit false

namespace Drawscript

/-- A configuration, and the store left by the last run. -/
structure Interpreter where
  config : Config
  store : Store

/-- What a run leaves behind. -/
structure RunResult (σ : Type) where
  interpreter : Interpreter
  surface : σ
  diagnostics : List Diagnostic
  error : Option CanvasError

namespace Interpreter

variable {σ : Type} [Surface σ]

/-- A fresh interpreter. -/
def new (config : Config) : Interpreter :=
  ⟨config, Store.empty config.scopeMode⟩

/-- Forget all variables, arrays and methods. -/
def reset (interpreter : Interpreter) : Interpreter :=
  { interpreter with store := interpreter.store.reset }

/-- The value of a variable. -/
def get? (interpreter : Interpreter) (name : String) : Option Value :=
  interpreter.store.get? name

/-- The end of running statements on the store as it is. -/
def outcome (interpreter : Interpreter) (stmts : List Stmt) (surface : σ) : Outcome σ :=
  runBody interpreter.config interpreter.config.maxCallDepth stmts
    { store := interpreter.store, surface := surface }

/-- Run statements on the store as it is. -/
def execute (interpreter : Interpreter) (stmts : List Stmt) (surface : σ) : RunResult σ :=
  let outcome := interpreter.outcome stmts surface
  let m := outcome.machine
  { interpreter := { interpreter with store := m.store }
    surface := m.surface
    diagnostics := m.diagnostics
    error := outcome.refusal? }

/-- Run the program of a source text on an empty store. Problems of the text come first. -/
def run (interpreter : Interpreter) (source : String) (surface : σ) : RunResult σ :=
  let parsed := Parsed.ofSource source
  let result := interpreter.reset.execute parsed.stmts surface
  { result with diagnostics := parsed.diagnostics ++ result.diagnostics }

end Interpreter

end Drawscript
