import Drawscript.Source.Line
import Drawscript.Value

/-!
# Statement trees

A program is a list of statements. Expressions and conditions stay texts, since they are evaluated
against the variables at hand. Every statement carries the place of the line it was read from.
-/

set_option autoImplicit false

namespace Drawscript

/-- The drawing commands. -/
inductive DrawOp where
  | moveTo
  | drawTo
  | circle
  | rect
  | pen
  | clear
  | reset
deriving Repr, DecidableEq

namespace DrawOp

/-- All drawing commands. -/
def all : List DrawOp :=
  [moveTo, drawTo, circle, rect, pen, clear, reset]

/-- The word of the command. -/
def name : DrawOp → String
  | moveTo => "moveto"
  | drawTo => "drawto"
  | circle => "circle"
  | rect => "rect"
  | pen => "pen"
  | clear => "clear"
  | reset => "reset"

/-- The number of arguments that the command uses. -/
def arity : DrawOp → Nat
  | moveTo => 2
  | drawTo => 2
  | circle => 1
  | rect => 2
  | pen => 3
  | clear => 0
  | reset => 0

/-- The command with the given word, in any case; `rectangle` is another word for `rect`. -/
def ofWord? (word : List Char) : Option DrawOp :=
  let word := String.ofList (word.map Char.toLower)
  if word = "rectangle" then some .rect else all.find? fun op => op.name == word

end DrawOp

/-- What a single line can ask for. -/
inductive Command where
  | declareInt (name : String) (init : Option String)
  | declareReal (name : String) (init : Option String)
  | declareArray (kind name size : String)
  | poke (array index value : String)
  | peek (target array index : String)
  | assign (name expr : String)
  | write (text : String)
  | draw (op : DrawOp) (args : String)
  /-- A line of no known form. -/
  | unknown (text : String)
deriving Repr, DecidableEq

/-- `for var = start to stop`, with an optional step. -/
structure ForHeader where
  var : String
  start : String
  stop : String
  step : Option String
deriving Repr, DecidableEq

/-- The name, result kind and parameters of a method. -/
structure MethodHeader where
  name : String
  result : ElementKind
  params : List String
deriving Repr, DecidableEq

/-- A statement with the place it was read from. -/
inductive Stmt where
  | whileLoop (place : Place) (cond : String) (body : List Stmt)
  | forLoop (place : Place) (header : ForHeader) (body : List Stmt)
  | ifThen (place : Place) (cond : String) (thenBody : List Stmt)
  | ifElse (place : Place) (cond : String) (thenBody elseBody : List Stmt)
  | method (place : Place) (header : MethodHeader) (lines : List Line) (body : List Stmt)
  | call (place : Place) (name : String) (args : List String)
  | command (place : Place) (command : Command)

/-- The place of a statement. -/
def Stmt.place : Stmt → Place
  | whileLoop place _ _ => place
  | forLoop place _ _ => place
  | ifThen place _ _ => place
  | ifElse place _ _ _ => place
  | method place _ _ _ => place
  | call place _ _ => place
  | command place _ => place

/-- A method that can be called: its header, the lines of its body, and the body as statements. -/
structure Method where
  header : MethodHeader
  lines : List Line
  body : List Stmt

/-- The name of a method. -/
def Method.name (m : Method) : String :=
  m.header.name

end Drawscript
