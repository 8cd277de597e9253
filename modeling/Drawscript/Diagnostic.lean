import Drawscript.Error
import Drawscript.Source.Span

/-!
# Diagnostics

What a program run or a parse has to say: notes on what was done, warnings, and problems with their
causes. A diagnostic is a notice with the place it belongs to. Problems of value are warnings,
because the statement goes on with another value; all other problems are errors.
-/

set_option autoImplicit false

namespace Drawscript

/-- How serious a notice is. -/
inductive Severity where
  | note
  | warning
  | error
deriving Repr, DecidableEq

/-- The name of the severity. -/
def Severity.name : Severity → String
  | note => "note"
  | warning => "warning"
  | error => "error"

/-- What there is to say: a note, a warning, or a problem with its cause. -/
inductive Notice where
  | note (message : String)
  | warning (message : String)
  | problem (cause : Cause)

namespace Notice

/-- How serious the notice is. -/
def severity : Notice → Severity
  | note _ => .note
  | warning _ => .warning
  | problem cause => if cause.family = .evaluation then .warning else .error

/-- The family of the problem, if it is one. -/
def family? : Notice → Option Family
  | problem cause => some cause.family
  | _ => none

/-- The wording of the notice. -/
def message : Notice → String
  | note text => text
  | warning text => text
  | problem cause => cause.message

end Notice

/-- A notice and the place it belongs to, if it belongs to one. -/
structure Diagnostic where
  notice : Notice
  place : Option Place

namespace Diagnostic

/-- How serious the diagnostic is. -/
def severity (d : Diagnostic) : Severity :=
  d.notice.severity

/-- The wording of the diagnostic. -/
def message (d : Diagnostic) : String :=
  d.notice.message

/-- The diagnostic is an error. -/
def isError (d : Diagnostic) : Bool :=
  d.severity = .error

/-- The diagnostic on one line: severity, line number if it has a place, and message. -/
def display (d : Diagnostic) : String :=
  let severity := d.severity.name
  let message := d.message
  match d.place with
  | some place => s!"[{severity}] line {place.line}: {message}"
  | none => s!"[{severity}] {message}"

end Diagnostic

end Drawscript
