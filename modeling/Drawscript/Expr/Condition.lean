import Drawscript.Expr.Eval

/-!
# Conditions

A condition compares two operands, or asks whether one value counts as true. The comparison is the
first of `>=`, `<=`, `>`, `<`, `==`, `!=` that occurs in the text; if it occurs more than once, the
whole text is taken for one value. Problems met on the way are collected, and the values that stand
in for them are used.
-/

set_option autoImplicit false

namespace Drawscript

open Text

/-- The comparisons. -/
inductive Comparison where
  | atLeast
  | atMost
  | greater
  | less
  | equal
  | different
deriving Repr, DecidableEq

namespace Comparison

/-- All comparisons, in the order in which they are looked for. -/
def all : List Comparison :=
  [atLeast, atMost, greater, less, equal, different]

/-- The characters of the comparison. -/
def symbol : Comparison → List Char
  | atLeast => ['>', '=']
  | atMost => ['<', '=']
  | greater => ['>']
  | less => ['<']
  | equal => ['=', '=']
  | different => ['!', '=']

/-- The comparison holds. Numbers are equal if they are nearer than `tolerance`. -/
def holds (op : Comparison) (x y : Float) : Bool :=
  match op with
  | atLeast => x ≥ y
  | atMost => x ≤ y
  | greater => x > y
  | less => x < y
  | equal => (x - y).abs < tolerance
  | different => (x - y).abs ≥ tolerance

end Comparison

namespace Condition

/-- A text's value, or what stands in for it, with the problems met. -/
def valueOf (mode : EvalMode) (scope : Scope) (text : List Char) : Value × List EvalError :=
  match evaluate mode scope text with
  | .ok value => (value, [])
  | .error e => (e.fallback, [e])

/-- The number on one side of a comparison, with the problems met. -/
def operand (mode : EvalMode) (scope : Scope) (text : List Char) : Float × List EvalError :=
  match Number.finite? text with
  | some x => (x, [])
  | none =>
    match valueOf mode scope text with
    | (.int n, errors) => (Number.ofInt64 n, errors)
    | (.real x, errors) => (x, errors)
    | (.text s, errors) => (0, errors ++ [.notNumeric s])

/-- The comparison that divides a text, and the texts on its two sides. There is none if the first
comparison found in the text occurs more than once. -/
def comparison? (text : List Char) : Option (Comparison × List Char × List Char) :=
  let found := Comparison.all.findSome? fun op =>
    (cut? op.symbol text).map fun (left, right) => (op, left, right)
  found.filter fun (op, _, right) => (cut? op.symbol right).isNone

/-- Whether a condition holds, with the problems met. -/
def test (mode : EvalMode) (scope : Scope) (text : List Char) : Bool × List EvalError :=
  let text := trim text
  match comparison? text with
  | some (op, left, right) =>
    let (x, errorsLeft) := operand mode scope left
    let (y, errorsRight) := operand mode scope right
    (op.holds x y, errorsLeft ++ errorsRight)
  | none =>
    let (value, errors) := valueOf mode scope text
    (value.isTrue, errors)

end Condition

end Drawscript
