import Drawscript.Text.Blank
import Drawscript.Text.Match

/-!
# Argument texts

How the texts after a command word are divided: the arguments of a call, the arguments of a drawing
command, and the parts of a `write`.
-/

set_option autoImplicit false

namespace Drawscript

open Text

/-- The arguments of a call: between commas if there are any, and else between blanks. -/
def callArgs (text : List Char) : List (List Char) :=
  let text := trim text
  if text.isEmpty then []
  else if text.contains ',' then (text.splitOnP (· == ',')).map trim
  else words text

/-- The arithmetic operators. -/
def isArithmetic (c : Char) : Bool :=
  c == '+' || c == '-' || c == '*' || c == '/'

/-- Drawing arguments, the last character before them that is not blank being `before`, with blanks
beside an operator dropped and commas and all other blanks turned into spaces. -/
def compactArgs (before : Option Char) : List Char → List Char
  | [] => []
  | c :: rest =>
    if isBlank c then
      let next := rest.find? fun d => !isBlank d
      if before.any isArithmetic || next.any isArithmetic then compactArgs before rest
      else ' ' :: compactArgs before rest
    else (if c = ',' then ' ' else c) :: compactArgs (some c) rest

/-- The arguments of a drawing command. An operator keeps what stands on its two sides together. -/
def drawArgs (text : List Char) : List (List Char) :=
  words (compactArgs none text)

/-- The parts with a character put in front of the first. -/
def prepend (c : Char) : List (List Char) → List (List Char)
  | [] => [[c]]
  | part :: rest => (c :: part) :: rest

/-- The parts of a text between the separators that are not inside double quotes. -/
def splitUnquoted (separator : Char) (quoted : Bool) : List Char → List (List Char)
  | [] => [[]]
  | c :: rest =>
    if c = '"' then prepend c (splitUnquoted separator (!quoted) rest)
    else if c = separator ∧ quoted = false then [] :: splitUnquoted separator quoted rest
    else prepend c (splitUnquoted separator quoted rest)

/-- The nonblank parts of the text of a `write`. -/
def writeParts (text : List Char) : List (List Char) :=
  ((splitUnquoted '+' false text).map trim).filter fun part => !part.isEmpty

end Drawscript
