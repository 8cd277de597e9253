import Drawscript.Number.Shortest
import Drawscript.Text.Blank
import Drawscript.Text.Match

/-!
# Numbers from text

A number is written as an optional sign, digits with an optional point among or beside them, and an
optional exponent. `read?` also knows the names of the infinities and of the value that is no
number; `finite?` accepts only what stands for a finite double. Reading rounds to the nearest double.
-/

set_option autoImplicit false

namespace Drawscript.Number

open Drawscript.Text

/-- The number written by decimal digits, most significant first. -/
def digitsValue (digits : List Char) : Nat :=
  digits.foldl (fun n c => 10 * n + (c.toNat - '0'.toNat)) 0

/-- The double nearest to a decimal. Decimals far outside the range of doubles are recognised by
their size alone. -/
def Decimal.toFloat (d : Decimal) : Float :=
  let size := d.exponent + digitCount d.digits
  if d.digits = 0 ∨ size < -400 then 0
  else if 400 < size then Float.ofBits 0x7FF0000000000000
  else Float.ofScientific d.digits (d.exponent < 0) d.exponent.natAbs

/-- A leading sign, and the text after it. -/
def takeSign : List Char → Bool × List Char
  | '-' :: rest => (true, rest)
  | '+' :: rest => (false, rest)
  | text => (false, text)

/-- The digits after a point, if the text starts with one, and the text after them. -/
def takeFraction : List Char → List Char × List Char
  | '.' :: rest => (rest.takeWhile Char.isDigit, rest.dropWhile Char.isDigit)
  | text => ([], text)

/-- A text that is empty or an exponent. -/
def exponent? : List Char → Option Int
  | [] => some 0
  | mark :: rest =>
    if mark = 'e' ∨ mark = 'E' then
      let (negative, digits) := takeSign rest
      if !digits.isEmpty && digits.all Char.isDigit then some (signed negative (digitsValue digits))
      else none
    else none

/-- An unsigned decimal with at least one digit. -/
def decimal? (text : List Char) : Option Decimal :=
  let whole := text.takeWhile Char.isDigit
  let (places, rest) := takeFraction (text.dropWhile Char.isDigit)
  if whole.isEmpty && places.isEmpty then none
  else (exponent? rest).map fun e => ⟨digitsValue (whole ++ places), e - places.length⟩

/-- The magnitude a text without sign stands for. -/
def magnitude? (text : List Char) : Option Float :=
  if sameLetters text "inf".toList || sameLetters text "infinity".toList then
    some (Float.ofBits 0x7FF0000000000000)
  else if sameLetters text "nan".toList then some (Float.ofBits 0x7FF8000000000000)
  else (decimal? text).map Decimal.toFloat

/-- The double a text stands for. -/
def read? (text : List Char) : Option Float :=
  let (negative, rest) := takeSign text
  (magnitude? rest).map fun x => if negative then -x else x

/-- The finite double a text stands for, blanks around it aside. -/
def finite? (text : List Char) : Option Float :=
  (read? (trim text)).filter Float.isFinite

end Drawscript.Number
