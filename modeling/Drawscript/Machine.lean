import Drawscript.Canvas.Surface
import Drawscript.Config
import Drawscript.Diagnostic
import Drawscript.Expr.Condition
import Drawscript.Store.Basic

/-!
# The machine

The state of a running program: the store, the calls that are running, the surface, and all that has
happened so far. Evaluating an expression can report problems, so it changes the machine; it then
yields the value that stands in for the missing one. A step of the machine is either done or stopped
by the surface, and keeps the machine in both cases.
-/

set_option autoImplicit false

namespace Drawscript

/-- A running call: the name of the method, and the name it was called by. -/
structure Frame where
  method : String
  calledAs : String
deriving Repr, DecidableEq

/-- Something that happens in a run: a diagnostic is reported, or the surface answers a request. -/
inductive Event where
  | reported (diagnostic : Diagnostic)
  | requested (request : Request) (refusal : Option CanvasError)

/-- The state of a running program. -/
structure Machine (σ : Type) where
  store : Store
  /-- The running calls, the innermost first. -/
  frames : List Frame := []
  surface : σ
  /-- What has happened, the latest first. -/
  events : List Event := []

/-- The end of a step: done, or stopped by the surface. -/
inductive Outcome (σ : Type) where
  | done (machine : Machine σ)
  | stopped (refusal : CanvasError) (machine : Machine σ)

namespace Outcome

variable {σ : Type}

/-- The machine at the end of a step. -/
def machine : Outcome σ → Machine σ
  | done m => m
  | stopped _ m => m

/-- The refusal that stopped a step. -/
def refusal? : Outcome σ → Option CanvasError
  | done _ => none
  | stopped e _ => some e

end Outcome

namespace Machine

variable {σ : Type}

/-! ## Reports -/

/-- Report a notice that belongs to a place. -/
def say (place : Place) (notice : Notice) (m : Machine σ) : Machine σ :=
  { m with events := .reported ⟨notice, some place⟩ :: m.events }

/-- Report a note. -/
def note (place : Place) (message : String) (m : Machine σ) : Machine σ :=
  m.say place (.note message)

/-- Report a warning. -/
def warn (place : Place) (message : String) (m : Machine σ) : Machine σ :=
  m.say place (.warning message)

/-- Report a problem. -/
def report (place : Place) (cause : Cause) (m : Machine σ) : Machine σ :=
  m.say place (.problem cause)

/-- Report problems of value, in order. -/
def reportAll (place : Place) (errors : List EvalError) (m : Machine σ) : Machine σ :=
  errors.foldl (fun m e => m.report place (.evaluation e)) m

/-- The diagnostics reported, in order. -/
def diagnostics (m : Machine σ) : List Diagnostic :=
  m.events.reverse.filterMap fun
    | .reported d => some d
    | .requested _ _ => none

/-! ## Variables -/

/-- Give a variable a value. -/
def set (name : String) (value : Value) (m : Machine σ) : Machine σ :=
  { m with store := m.store.set name value }

/-- Forget a variable. -/
def remove (name : String) (m : Machine σ) : Machine σ :=
  { m with store := m.store.remove name }

/-! ## Evaluation -/

/-- The value of an expression. -/
def eval (mode : EvalMode) (place : Place) (text : String) (m : Machine σ) : Value × Machine σ :=
  match evaluate mode m.store.scope text.toList with
  | .ok value => (value, m)
  | .error e => (e.fallback, m.report place (.evaluation e))

/-- The value of an expression that has to be a number. A text is reported. -/
def evalNumber? (mode : EvalMode) (place : Place) (text : String) (m : Machine σ) :
    Option Value × Machine σ :=
  match m.eval mode place text with
  | (.text s, m) => (none, m.report place (.evaluation (.notNumeric s)))
  | (value, m) => (some value, m)

/-- The value of an expression that has to be a number, zero for a text. -/
def evalNumber (mode : EvalMode) (place : Place) (text : String) (m : Machine σ) :
    Value × Machine σ :=
  match m.evalNumber? mode place text with
  | (value, m) => (value.getD (.real 0), m)

/-- The real an expression stands for, zero for a text. -/
def evalReal (mode : EvalMode) (place : Place) (text : String) (m : Machine σ) :
    Float × Machine σ :=
  match m.evalNumber mode place text with
  | (value, m) => (value.number?.getD 0, m)

/-- The integer an expression stands for. -/
def evalWhole? (mode : EvalMode) (place : Place) (text : String) (m : Machine σ) :
    Option Int64 × Machine σ :=
  match m.evalNumber mode place text with
  | (value, m) => (value.whole?, m)

/-- The index an expression stands for. Anything but an integer is reported. -/
def evalIndex? (mode : EvalMode) (place : Place) (text : String) (m : Machine σ) :
    Option Int64 × Machine σ :=
  match m.evalWhole? mode place text with
  | (some index, m) => (some index, m)
  | (none, m) => (none, m.report place (.bounds (.nonIntegralIndex text)))

/-- Whether a condition holds. -/
def test (mode : EvalMode) (place : Place) (text : String) (m : Machine σ) : Bool × Machine σ :=
  match Condition.test mode m.store.scope text.toList with
  | (result, errors) => (result, m.reportAll place errors)

/-! ## Drawing -/

/-- Put a request to the surface. -/
def perform [Surface σ] (request : Request) (m : Machine σ) : Outcome σ :=
  match Surface.perform request m.surface with
  | (none, surface) =>
    .done { m with surface := surface, events := .requested request none :: m.events }
  | (some e, surface) =>
    .stopped e { m with surface := surface, events := .requested request (some e) :: m.events }

end Machine

end Drawscript
