import Drawscript.Text.Mark
import Drawscript.Text.Printable

/-!
# Quoted texts

A text between double quotes with its special characters escaped. Quotes and backslashes get a
backslash, line feed, carriage return, tab and the null character their usual letters, and
characters that would not be seen on their own are written by their code: those that are not
printable, and marks that attach to the character before them.
-/

set_option autoImplicit false

namespace Drawscript.Text

/-- The two halfwidth sound marks, which count as marks and yet stand on their own. -/
def standsAlone (c : Char) : Bool :=
  c.toNat == 0xFF9E || c.toNat == 0xFF9F

/-- The character would not be seen on its own. -/
def isUnseen (c : Char) : Bool :=
  !isPrintable c || (isMark c && !standsAlone c)

/-- A character as it is written inside quotes. -/
def escapeChar (c : Char) : List Char :=
  if c = '"' then ['\\', '"']
  else if c = '\\' then ['\\', '\\']
  else if c = '\n' then ['\\', 'n']
  else if c = '\r' then ['\\', 'r']
  else if c = '\t' then ['\\', 't']
  else if c.toNat = 0 then ['\\', '0']
  else if isUnseen c then
    ['\\', 'u', '\x7b'] ++ Nat.toDigits 16 c.toNat ++ ['\x7d']
  else [c]

/-- The text in double quotes, with special characters escaped. -/
def quote (text : String) : String :=
  String.ofList ('"' :: text.toList.flatMap escapeChar ++ ['"'])

end Drawscript.Text
