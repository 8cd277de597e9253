import Drawscript.Number.Exact
import Drawscript.Number.Printer

/-!
# Values

A value is a 64-bit integer, a real or a text. Arithmetic is done on reals, and a result that is
within `tolerance` of a whole number becomes an integer again (`Value.ofFloat`). Arrays hold
elements of one kind, to which a value is brought before it is stored (`ElementKind.coerce?`).
-/

set_option autoImplicit false

namespace Drawscript

/-- Reals nearer than this are taken for equal. -/
def tolerance : Float := 1e-6

/-- What variables and array elements hold and expressions evaluate to. -/
inductive Value where
  | int (n : Int64)
  | real (x : Float)
  | text (s : String)

namespace Value

/-- The value of an arithmetic result: an integer if the real is nearly whole and in range. -/
def ofFloat (x : Float) : Value :=
  match Number.nearest? x with
  | some n =>
    if n.natAbs < Number.int64Bound ∧ (x - Float.ofInt n).abs < tolerance then .int (Int64.ofInt n)
    else .real x
  | none => .real x

/-- The number a value stands for. -/
def number? : Value → Option Float
  | int n => some (Number.ofInt64 n)
  | real x => some x
  | text _ => none

/-- The integer a value stands for, if it is one or nearly one. -/
def whole? : Value → Option Int64
  | int n => some n
  | real x =>
    match ofFloat x with
    | int n => some n
    | _ => none
  | text _ => none

/-- A value counts as true if it is neither zero, nearly zero nor an empty text. -/
def isTrue : Value → Bool
  | int n => n != 0
  | real x => tolerance < x.abs
  | text s => !s.isEmpty

/-- The text that stands in for a variable in an expression. -/
def expressionText : Value → String
  | int n => toString n.toInt
  | real x => Number.plain x
  | text s => s

/-- The text shown to the user. Reals always show a fraction, integers never do. -/
def display : Value → String
  | int n => toString n.toInt
  | real x => Number.pointed x
  | text s => s

end Value

/-- The kinds of array elements and of method results. -/
inductive ElementKind where
  | int
  | real
deriving Repr, DecidableEq

namespace ElementKind

/-- The keyword of the kind. -/
def name : ElementKind → String
  | int => "int"
  | real => "real"

/-- The kind with the given keyword. -/
def ofName? (name : String) : Option ElementKind :=
  if name = "int" then some .int else if name = "real" then some .real else none

/-- The value of a fresh element. -/
def zero : ElementKind → Value
  | int => .int 0
  | real => .real 0

/-- The value as an element of the kind. Reals become the nearest integer, ties going to the even
one, clamped to the 64-bit range. Texts are no elements. -/
def coerce? (kind : ElementKind) (value : Value) : Option Value :=
  value.number?.map fun x =>
    match kind with
    | int => .int (Number.clampedEven x)
    | real => .real x

end ElementKind

end Drawscript
