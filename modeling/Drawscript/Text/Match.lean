/-!
# Finding texts in texts

`cut?` splits a text at the first occurrence of a pattern. Word characters are the ASCII letters,
digits and `_`; an identifier is a nonempty run of them that does not start with a digit.
-/

set_option autoImplicit false

namespace Drawscript.Text

/-- The parts before and after the first occurrence of a pattern. -/
def cut? (pattern : List Char) : List Char → Option (List Char × List Char)
  | [] => if pattern.isEmpty then some ([], []) else none
  | c :: rest =>
    match pattern.isPrefixOf? (c :: rest) with
    | some after => some ([], after)
    | none => (cut? pattern rest).map fun (before, after) => (c :: before, after)

/-- The text without a given last character, if it ends in it. -/
def dropLast? (last : Char) (text : List Char) : Option (List Char) :=
  if text.getLast? = some last then some text.dropLast else none

/-- The contents of a text enclosed in double quotes. A single quote mark encloses nothing. -/
def unquote? : List Char → Option (List Char)
  | '"' :: rest => dropLast? '"' rest
  | _ => none

/-- The characters a word is made of. -/
def isWordChar (c : Char) : Bool :=
  c.isAlphanum || c == '_'

/-- A name: a letter or `_`, then word characters. -/
def isIdentifier : List Char → Bool
  | [] => false
  | c :: rest => (c.isAlpha || c == '_') && rest.all isWordChar

/-- Equality up to the case of ASCII letters. -/
def sameLetters (a b : List Char) : Bool :=
  a.map Char.toLower == b.map Char.toLower

end Drawscript.Text
