import Drawscript.Number.Printer
import Drawscript.Source.BlockKind
import Drawscript.Value

/-!
# What can go wrong

The causes of recoverable problems, in four families, and their wording. A cause of the evaluation
family comes with a value with which the statement goes on; a cause of any other family means that a
line or statement is left out.
-/

set_option autoImplicit false

namespace Drawscript

/-- Problems with the form of a line or statement. -/
inductive ParseError where
  | malformed (what : String) (text : String)
  | missingTerminator (kind : BlockKind)
  | missingCondition (kind : BlockKind)
  | invalidSize (size : Int64)
  | arrayTooLarge (size : Int64) (limit : Nat)
  | invalidKind (name : String)
  | missingTo (header : String)
  | zeroStep
  | missingArguments (command : String) (expected got : Nat)
  | nonIntegerArgument (command : String) (text : String)
  | strayElse

/-- Problems with the value of an expression. -/
inductive EvalError where
  | unparsable (text : String)
  | divisionByZero (text : String)
  | notNumeric (text : String)
  | notIntegral (x : Float)
  | unknownVariable (name : String)
  | unexpectedCharacter (text : String) (offset : Nat)

/-- Problems with the index of an array element. -/
inductive BoundsError where
  | indexOutOfRange (array : String) (index : Int64) (size : Nat)
  | nonIntegralIndex (text : String)

/-- Problems with names that refer to nothing usable. -/
inductive ResolutionError where
  | unknownMethod (name : String)
  | arityMismatch (name : String) (expected got : Nat)
  | unknownCommand (text : String)
  | unknownArray (name : String)
  | callDepthExceeded (name : String) (limit : Nat)

/-- The four families of causes. -/
inductive Family where
  | parse
  | evaluation
  | bounds
  | resolution
deriving Repr, DecidableEq

/-- A recoverable problem. -/
inductive Cause where
  | parse (e : ParseError)
  | evaluation (e : EvalError)
  | bounds (e : BoundsError)
  | resolution (e : ResolutionError)

/-- The wording of a problem of form. -/
def ParseError.message : ParseError → String
  | malformed what text => s!"malformed {what}: '{text}'"
  | missingTerminator kind => "missing '" ++ kind.closing ++ "' for " ++ kind.keyword ++ " block"
  | missingCondition kind => "missing condition after '" ++ kind.keyword ++ "'"
  | invalidSize size => s!"array size must be positive, got {size}"
  | arrayTooLarge size limit => s!"array size {size} exceeds the limit of {limit} elements"
  | invalidKind name => s!"invalid array type '{name}', expected 'int' or 'real'"
  | missingTo header => s!"missing 'to' keyword in for statement: '{header}'"
  | zeroStep => "for loop step cannot be zero"
  | missingArguments command expected got =>
    s!"'{command}' expects {expected} argument(s), got {got}"
  | nonIntegerArgument command text => s!"'{command}' argument '{text}' is not an integer"
  | strayElse => "'else' without a matching 'if'"

/-- The wording of a problem of value. -/
def EvalError.message : EvalError → String
  | unparsable text => s!"could not evaluate expression '{text}'"
  | divisionByZero text => s!"division by zero in '{text}'"
  | notNumeric text => s!"'{text}' is not a number"
  | notIntegral x => "value " ++ Number.plain x ++ " is not a whole number"
  | unknownVariable name => s!"unknown variable '{name}'"
  | unexpectedCharacter text offset => s!"unexpected character at offset {offset} in '{text}'"

/-- The value with which a statement goes on after a problem of value. -/
def EvalError.fallback : EvalError → Value
  | notIntegral _ => .int 0
  | _ => .real 0

/-- The wording of a problem of index. -/
def BoundsError.message : BoundsError → String
  | indexOutOfRange array index size =>
    s!"index {index} out of bounds for array '{array}' (size: {size})"
  | nonIntegralIndex text => s!"index '{text}' is not a whole number"

/-- The wording of a problem of name. -/
def ResolutionError.message : ResolutionError → String
  | unknownMethod name => s!"method '{name}' not found"
  | arityMismatch name expected got =>
    s!"method '{name}' expects {expected} parameter(s), got {got}"
  | unknownCommand text => s!"unknown command: '{text}'"
  | unknownArray name => s!"array '{name}' not found"
  | callDepthExceeded name limit =>
    s!"call to '{name}' exceeds the maximum call depth of {limit}"

/-- The name of the family. -/
def Family.name : Family → String
  | parse => "parse"
  | evaluation => "evaluation"
  | bounds => "bounds"
  | resolution => "resolution"

/-- The family of a cause. -/
def Cause.family : Cause → Family
  | parse _ => .parse
  | evaluation _ => .evaluation
  | bounds _ => .bounds
  | resolution _ => .resolution

/-- The wording of a cause. -/
def Cause.message : Cause → String
  | parse e => e.message
  | evaluation e => e.message
  | bounds e => e.message
  | resolution e => e.message

end Drawscript
