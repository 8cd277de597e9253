import Drawscript.Stmt.Basic
import Drawscript.Text.LowerCase
import Drawscript.Text.Match

/-!
# The method table

Methods are kept in the order in which their names first came in; a new method of the same name takes
the place of the old one. A call finds a method by its exact name, or else by its name in another
case, or else by a name with the same key. The key of a name is its lower-case form with repeated
characters written once, so that a doubled letter does not matter.
-/

set_option autoImplicit false

namespace Drawscript

open Text

/-- The text with runs of one character shortened to that character. -/
def collapse : List Char → List Char
  | [] => []
  | [c] => [c]
  | c :: d :: rest => if c = d then collapse (d :: rest) else c :: collapse (d :: rest)

/-- The key of a method name. -/
def methodKey (name : List Char) : List Char :=
  collapse (name.flatMap lowerCase)

/-- The table of methods, in order of their first registration. -/
abbrev Methods := List Method

namespace Methods

/-- The table with a method put in the place of the one with its name, or at the end. -/
def register (method : Method) : Methods → Methods
  | [] => [method]
  | other :: rest =>
    if other.name = method.name then method :: rest else other :: register method rest

/-- The method that a call by the given name runs. -/
def find? (methods : Methods) (name : String) : Option Method :=
  (List.find? (fun m => m.name == name) methods).or <|
    (List.find? (fun m => sameLetters m.name.toList name.toList) methods).or <|
      List.find? (fun m => methodKey m.name.toList == methodKey name.toList) methods

end Methods

end Drawscript
