import Drawscript.Expr.Precedence
import Drawscript.Expr.Single
import Drawscript.Mode

/-!
# Evaluation of expressions

A text in double quotes is itself a value; any other text is evaluated by the mode.
-/

set_option autoImplicit false

namespace Drawscript

open Text

/-- The value of an expression text. -/
def evaluate (mode : EvalMode) (scope : Scope) (text : List Char) : Except EvalError Value :=
  let text := trim text
  match unquote? text with
  | some inner => .ok (.text (String.ofList inner))
  | none =>
    match mode with
    | .legacy => Single.evaluate scope text
    | .precedence => Precedence.evaluate scope text

end Drawscript
