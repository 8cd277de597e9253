import Drawscript.Error
import Drawscript.Expr.Substitution
import Drawscript.Number.Reader

/-!
# Expressions with a single operator

The evaluator of the legacy mode. Variables are replaced in the text and blanks dropped. The text is
then split at the first `-` that is an operator, or else at the first such `+`, `*` or `/`; a `-` or
`+` at the start or right after an operator character is a sign. A side that is no number counts as
zero.
-/

set_option autoImplicit false

namespace Drawscript.Single

open Text

/-- The operators, in the order in which they are looked for. -/
inductive Operator where
  | minus
  | plus
  | times
  | divide
deriving Repr, DecidableEq

namespace Operator

/-- All operators, in the order in which they are looked for. -/
def all : List Operator :=
  [minus, plus, times, divide]

/-- The character of the operator. -/
def char : Operator → Char
  | minus => '-'
  | plus => '+'
  | times => '*'
  | divide => '/'

end Operator

/-- The characters of the operators. -/
def isOperatorChar (c : Char) : Bool :=
  c == '+' || c == '-' || c == '*' || c == '/'

/-- A character that comes after `before` is a sign. -/
def isSign (before : Option Char) (c : Char) : Bool :=
  (c == '-' || c == '+') && before.all isOperatorChar

/-- The parts of the text, which comes after `before`, on either side of the first occurrence of a
character as an operator. -/
def splitAt? (op : Char) (before : Option Char) : List Char → Option (List Char × List Char)
  | [] => none
  | c :: rest =>
    if c = op ∧ isSign before c = false then some ([], rest)
    else (splitAt? op (some c) rest).map fun (left, right) => (c :: left, right)

/-- The result of an operator. The text is the expression it stands in. -/
def apply (text : String) (op : Operator) (x y : Float) : Except EvalError Float :=
  match op with
  | .minus => .ok (x - y)
  | .plus => .ok (x + y)
  | .times => .ok (x * y)
  | .divide => if y.abs < tolerance then .error (.divisionByZero text) else .ok (x / y)

/-- The number on one side of an operator. -/
def side (text : List Char) : Float :=
  (Number.finite? text).getD 0

/-- The operator at which a text is split, and its two sides. -/
def split? (text : List Char) : Option (Operator × List Char × List Char) :=
  Operator.all.findSome? fun op =>
    (splitAt? op.char none text).map fun (left, right) => (op, left, right)

/-- The value of a text without variables and blanks. The first text is the expression it was made
from. -/
def compactValue (text : String) (compact : List Char) : Except EvalError Value :=
  match split? compact with
  | some (op, left, right) =>
    match apply text op (side left) (side right) with
    | .ok x => .ok (Value.ofFloat x)
    | .error e => .error e
  | none =>
    match Number.finite? compact with
    | some x => .ok (Value.ofFloat x)
    | none => .error (.unparsable text)

/-- The value of an expression text by a single operator. -/
def evaluate (scope : Scope) (text : List Char) : Except EvalError Value :=
  compactValue (String.ofList text) ((substitute scope text).filter fun c => !isBlank c)

end Drawscript.Single
