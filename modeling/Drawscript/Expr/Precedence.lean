import Drawscript.Error
import Drawscript.Expr.Lexer
import Drawscript.Expr.Substitution

/-!
# Expressions with precedence

The value of a token list by the grammar

* `sum := product (('+' | '-') product)*`
* `product := signed (('*' | '/') signed)*`
* `signed := ('-' | '+') signed | operand`
* `operand := number | name | '(' sum ')'`

computed from left to right while it is read, so that the first problem met is the one reported.
The readers call each other with one step less, starting from a bound that no token list uses up.
-/

set_option autoImplicit false

namespace Drawscript.Precedence

/-- A number read from tokens and the tokens after it, or the first problem met. -/
abbrev Reading :=
  Except EvalError (Float × List Token)

/-- The number a variable stands for. -/
def variableValue (scope : Scope) (name : String) : Except EvalError Float :=
  match scope.get? name with
  | none => .error (.unknownVariable name)
  | some value =>
    match value.number? with
    | some x => .ok x
    | none => .error (.notNumeric value.display)

/-- A quotient, refused if the divisor is nearly zero. The text is the expression it stands in. -/
def quotient (text : String) (x y : Float) : Except EvalError Float :=
  if y.abs < tolerance then .error (.divisionByZero text) else .ok (x / y)

mutual

/-- A sum at the start of the tokens. -/
def readSum (text : String) (scope : Scope) : Nat → List Token → Reading
  | 0, _ => .error (.unparsable text)
  | steps + 1, tokens =>
    match readProduct text scope steps tokens with
    | .error e => .error e
    | .ok (x, rest) => readTerms text scope steps x rest

/-- The terms that continue a sum. -/
def readTerms (text : String) (scope : Scope) : Nat → Float → List Token → Reading
  | 0, _, _ => .error (.unparsable text)
  | steps + 1, x, .symbol .plus :: tail =>
    match readProduct text scope steps tail with
    | .error e => .error e
    | .ok (y, rest) => readTerms text scope steps (x + y) rest
  | steps + 1, x, .symbol .minus :: tail =>
    match readProduct text scope steps tail with
    | .error e => .error e
    | .ok (y, rest) => readTerms text scope steps (x - y) rest
  | _ + 1, x, tokens => .ok (x, tokens)

/-- A product at the start of the tokens. -/
def readProduct (text : String) (scope : Scope) : Nat → List Token → Reading
  | 0, _ => .error (.unparsable text)
  | steps + 1, tokens =>
    match readSigned text scope steps tokens with
    | .error e => .error e
    | .ok (x, rest) => readFactors text scope steps x rest

/-- The factors that continue a product. -/
def readFactors (text : String) (scope : Scope) : Nat → Float → List Token → Reading
  | 0, _, _ => .error (.unparsable text)
  | steps + 1, x, .symbol .times :: tail =>
    match readSigned text scope steps tail with
    | .error e => .error e
    | .ok (y, rest) => readFactors text scope steps (x * y) rest
  | steps + 1, x, .symbol .divide :: tail =>
    match readSigned text scope steps tail with
    | .error e => .error e
    | .ok (y, rest) =>
      match quotient text x y with
      | .error e => .error e
      | .ok q => readFactors text scope steps q rest
  | _ + 1, x, tokens => .ok (x, tokens)

/-- An operand with any signs before it. -/
def readSigned (text : String) (scope : Scope) : Nat → List Token → Reading
  | 0, _ => .error (.unparsable text)
  | steps + 1, .symbol .minus :: tail =>
    match readSigned text scope steps tail with
    | .error e => .error e
    | .ok (x, rest) => .ok (-x, rest)
  | steps + 1, .symbol .plus :: tail => readSigned text scope steps tail
  | steps + 1, tokens => readOperand text scope steps tokens

/-- A number, a variable or a sum in parentheses. -/
def readOperand (text : String) (scope : Scope) : Nat → List Token → Reading
  | _ + 1, .int n :: rest => .ok (Number.ofInt64 n, rest)
  | _ + 1, .real x :: rest => .ok (x, rest)
  | _ + 1, .name name :: rest =>
    match variableValue scope name with
    | .error e => .error e
    | .ok x => .ok (x, rest)
  | _ + 1, .text s :: _ => .error (.notNumeric s)
  | steps + 1, .symbol .openParen :: tail =>
    match readSum text scope steps tail with
    | .error e => .error e
    | .ok (x, .symbol .closeParen :: rest) => .ok (x, rest)
    | .ok _ => .error (.unparsable text)
  | _, _ => .error (.unparsable text)

end

/-- More steps than the readers can take on a token list: a token is passed by at most five of
them. -/
def stepBound (tokens : List Token) : Nat :=
  5 * tokens.length + 5

/-- The value of a whole token list. -/
def sumValue (text : String) (scope : Scope) (tokens : List Token) : Except EvalError Float :=
  match readSum text scope (stepBound tokens) tokens with
  | .error e => .error e
  | .ok (x, []) => .ok x
  | .ok _ => .error (.unparsable text)

/-- The value of an expression text with the usual precedence of operators. -/
def evaluate (scope : Scope) (text : List Char) : Except EvalError Value :=
  match Token.tokenize text with
  | .error e => .error e
  | .ok lexemes =>
    match sumValue (String.ofList text) scope (lexemes.map (·.token)) with
    | .error e => .error e
    | .ok x => .ok (Value.ofFloat x)

end Drawscript.Precedence
