/-!
# Modes

Two choices a host makes for a run: how expressions are evaluated, and how the variables of a caller
are kept while a method runs.
-/

set_option autoImplicit false

namespace Drawscript

/-- How expressions are evaluated. -/
inductive EvalMode where
  /-- Variables are replaced in the text, which is then split at one operator. -/
  | legacy
  /-- The text is read as an expression with the usual precedence of operators. -/
  | precedence
deriving Repr, DecidableEq

namespace EvalMode

/-- The name of the mode. -/
def name : EvalMode → String
  | legacy => "legacy"
  | precedence => "precedence"

/-- The mode with the given name. -/
def ofName (name : String) : Except String EvalMode :=
  if name = "legacy" then .ok .legacy
  else if name = "precedence" then .ok .precedence
  else .error s!"unknown evaluation mode '{name}', expected 'legacy' or 'precedence'"

end EvalMode

/-- How the variables of a caller are kept while a method runs. -/
inductive ScopeMode where
  /-- Every call keeps the scope of its caller. -/
  | stack
  /-- There is room for one scope, so that a call inside a call loses the one kept before. -/
  | singleSlot
deriving Repr, DecidableEq

namespace ScopeMode

/-- The name of the mode. -/
def name : ScopeMode → String
  | stack => "stack"
  | singleSlot => "single-slot"

/-- The mode with the given name. -/
def ofName (name : String) : Except String ScopeMode :=
  if name = "stack" then .ok .stack
  else if name = "single-slot" then .ok .singleSlot
  else .error s!"unknown scope mode '{name}', expected 'stack' or 'single-slot'"

end ScopeMode

end Drawscript
