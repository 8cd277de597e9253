import Drawscript.Number.Shortest

/-!
# Numbers as text

Three layouts of the shortest decimal of a double. `plain` never uses an exponent and writes whole
numbers without a point. `pointed` writes whole numbers with all their digits and `.0`. `exchange?` is
the layout of data files: positional from `1e-5` up to `1e16` and with an exponent outside. For a
double in the middle between two shortest decimals `plain` takes the larger one and `exchange?` the
even one.
-/

set_option autoImplicit false

namespace Drawscript.Number

/-- The decimal digits of a natural number. -/
def digitsOf (n : Nat) : List Char :=
  (Nat.repr n).toList

/-- A decimal written without an exponent, with a point only if it has decimal places. -/
def Decimal.positional (d : Decimal) : List Char :=
  let digits := digitsOf d.digits
  if 0 ≤ d.exponent then digits ++ List.replicate d.exponent.toNat '0'
  else
    let places := (-d.exponent).toNat
    if places < digits.length then
      digits.take (digits.length - places) ++ '.' :: digits.drop (digits.length - places)
    else '0' :: '.' :: List.replicate (places - digits.length) '0' ++ digits

/-- A decimal written as one digit, further digits after a point, and a signed exponent. -/
def Decimal.scientific (d : Decimal) : List Char :=
  let digits := digitsOf d.digits
  let power := d.exponent + digits.length - 1
  let mark := if power < 0 then ['e', '-'] else ['e', '+']
  let lead := if digits.length ≤ 1 then digits else digits.take 1 ++ '.' :: digits.drop 1
  lead ++ mark ++ digitsOf power.natAbs

/-- A minus sign for negative numbers. -/
def signText (negative : Bool) : List Char :=
  if negative then ['-'] else []

/-- The texts of doubles that are not finite. -/
def specialText : Exact → String
  | .nan => "NaN"
  | .infinite true => "-inf"
  | _ => "inf"

/-- A double in its shortest digits, never with an exponent; whole numbers have no point. -/
def plain (x : Float) : String :=
  match exact x with
  | .finite negative 0 _ => String.ofList (signText negative ++ ['0'])
  | .finite negative mantissa exponent =>
    String.ofList (signText negative ++ (shortest .up mantissa exponent).positional)
  | special => specialText special

/-- A double that always shows a fraction: a whole number has all its digits and `.0`, any other
number is plain. -/
def pointed (x : Float) : String :=
  match whole? x with
  | some (negative, n) => String.ofList (signText negative ++ digitsOf n ++ ['.', '0'])
  | none => plain x

/-- A double as data files write it, or nothing if it is not finite. -/
def exchange? (x : Float) : Option String :=
  match exact x with
  | .finite negative 0 _ => some (String.ofList (signText negative ++ ['0', '.', '0']))
  | .finite negative mantissa exponent =>
    let d := shortest .even mantissa exponent
    let power := d.exponent + digitCount d.digits - 1
    let body :=
      if -5 ≤ power ∧ power < 16 then
        if 0 ≤ d.exponent then d.positional ++ ['.', '0'] else d.positional
      else d.scientific
    some (String.ofList (signText negative ++ body))
  | _ => none

end Drawscript.Number
