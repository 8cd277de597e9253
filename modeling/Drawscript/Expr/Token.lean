import Drawscript.Number.Printer
import Drawscript.Source.Span

/-!
# Expression tokens

The words of an expression: numbers, quoted texts, names and symbols, with the span of bytes that
each occupies.
-/

set_option autoImplicit false

namespace Drawscript

/-- The symbols of an expression. -/
inductive Symbol where
  | plus
  | minus
  | times
  | divide
  | openParen
  | closeParen
deriving Repr, DecidableEq

namespace Symbol

/-- The character of the symbol. -/
def char : Symbol → Char
  | plus => '+'
  | minus => '-'
  | times => '*'
  | divide => '/'
  | openParen => '('
  | closeParen => ')'

/-- The symbol with the given character. -/
def ofChar? (c : Char) : Option Symbol :=
  [plus, minus, times, divide, openParen, closeParen].find? fun s => s.char == c

end Symbol

/-- A word of an expression. -/
inductive Token where
  | real (x : Float)
  | int (n : Int64)
  | text (s : String)
  | name (s : String)
  | symbol (s : Symbol)

/-- The token as it is shown to the user. -/
def Token.display : Token → String
  | real x => Number.plain x
  | int n => toString n.toInt
  | text s => "\"" ++ s ++ "\""
  | name s => s
  | symbol s => String.singleton s.char

/-- A token and the bytes it occupies. -/
structure Lexeme where
  token : Token
  span : Span

end Drawscript
