import Drawscript.Expr.Substitution
import Drawscript.Mode

/-!
# Scopes

One scope is active at a time, and a variable is looked up there alone. Entering a scope keeps the
active one; leaving takes it back. In stack mode every entered scope is kept. In single-slot mode
there is room for one kept scope: entering while the room is taken loses what it held, and leaving
when it is empty changes nothing.
-/

set_option autoImplicit false

namespace Drawscript

/-- The active scope and the kept ones, the latest first. -/
structure Scopes where
  mode : ScopeMode
  active : Scope := {}
  kept : List Scope := []

namespace Scopes

/-- The number of scopes held. -/
def depth (scopes : Scopes) : Nat :=
  scopes.kept.length + 1

/-- The kept scopes once another scope has been entered. -/
def keep (scopes : Scopes) : List Scope :=
  match scopes.mode with
  | .stack => scopes.active :: scopes.kept
  | .singleSlot => scopes.active :: scopes.kept.dropLast

/-- Make a scope the active one and keep the one that was. -/
def enter (scopes : Scopes) (scope : Scope) : Scopes :=
  { scopes with active := scope, kept := scopes.keep }

/-- Leave the active scope for the one kept last, and give what was left. Without a kept scope the
active one stays; it is then given in single-slot mode and not in stack mode. -/
def leave (scopes : Scopes) : Option Scope × Scopes :=
  match scopes.kept with
  | scope :: kept => (some scopes.active, { scopes with active := scope, kept := kept })
  | [] =>
    match scopes.mode with
    | .stack => (none, scopes)
    | .singleSlot => (some scopes.active, scopes)

/-- The value of a variable. -/
def get? (scopes : Scopes) (name : String) : Option Value :=
  scopes.active.get? name

/-- Give a variable a value. -/
def set (scopes : Scopes) (name : String) (value : Value) : Scopes :=
  { scopes with active := scopes.active.insert name value }

/-- Forget a variable. -/
def remove (scopes : Scopes) (name : String) : Scopes :=
  { scopes with active := scopes.active.erase name }

/-- Forget everything. -/
def reset (scopes : Scopes) : Scopes :=
  { mode := scopes.mode }

end Scopes

end Drawscript
