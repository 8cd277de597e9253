/-!
# Doubles as exact fractions

A finite double is a sign and a magnitude `mantissa * 2 ^ exponent`. From that form its nearest
whole numbers are computed in exact integer arithmetic: ties away from zero (`nearest?`), and ties
to the even neighbour clamped to the 64-bit range (`clampedEven`).
-/

set_option autoImplicit false

namespace Drawscript.Number

/-- A power of two. -/
def pow2 (n : Nat) : Nat :=
  Nat.pow 2 n

/-- Half the number of 64-bit integers: they run from its negative to one below it. -/
def int64Bound : Nat :=
  9223372036854775808

/-- What a double stands for. -/
inductive Exact where
  | nan
  | infinite (negative : Bool)
  | finite (negative : Bool) (mantissa : Nat) (exponent : Int)
deriving Repr, DecidableEq

/-- The exact meaning of a double, read from its sign, exponent and fraction bits. -/
def exact (x : Float) : Exact :=
  let bits : Nat := x.toBits.toNat
  let negative := bits / pow2 63 == 1
  let biased : Nat := bits / pow2 52 % 2048
  let fraction : Nat := bits % pow2 52
  if biased = 2047 then
    if fraction = 0 then .infinite negative else .nan
  else if biased = 0 then .finite negative fraction (-1074)
  else .finite negative (fraction + pow2 52) ((biased : Int) - 1075)

/-- The magnitude `mantissa * 2 ^ exponent` as numerator and denominator. -/
def fraction (mantissa : Nat) (exponent : Int) : Nat × Nat :=
  if 0 ≤ exponent then (mantissa * pow2 exponent.toNat, 1) else (mantissa, pow2 (-exponent).toNat)

/-- The whole number nearest to `num / den`, the larger of two equally near ones. -/
def roundHalfUp (num den : Nat) : Nat :=
  (2 * num + den) / (2 * den)

/-- The whole number nearest to `num / den`, the even one of two equally near ones. -/
def roundHalfEven (num den : Nat) : Nat :=
  let whole := num / den
  let twice := 2 * (num % den)
  if twice < den then whole
  else if den < twice then whole + 1
  else whole + whole % 2

/-- A magnitude with its sign. -/
def signed (negative : Bool) (n : Nat) : Int :=
  if negative then -(n : Int) else n

/-- The whole number nearest to a finite double, ties going away from zero. -/
def nearest? (x : Float) : Option Int :=
  match exact x with
  | .finite negative mantissa exponent =>
    let (num, den) := fraction mantissa exponent
    some (signed negative (roundHalfUp num den))
  | _ => none

/-- The magnitude of a finite double that is a whole number, with its sign. -/
def whole? (x : Float) : Option (Bool × Nat) :=
  match exact x with
  | .finite negative mantissa exponent =>
    let (num, den) := fraction mantissa exponent
    if num % den = 0 then some (negative, num / den) else none
  | _ => none

/-- The 64-bit integer nearest to `n`. -/
def clamp (n : Int) : Int64 :=
  if n < -(int64Bound : Int) then Int64.minValue
  else if (int64Bound : Int) ≤ n then Int64.maxValue
  else Int64.ofInt n

/-- The 64-bit integer nearest to a double, ties going to the even one. Infinities give the ends of
the range, and what is not a number gives zero. -/
def clampedEven (x : Float) : Int64 :=
  match exact x with
  | .nan => 0
  | .infinite negative => if negative then Int64.minValue else Int64.maxValue
  | .finite negative mantissa exponent =>
    let (num, den) := fraction mantissa exponent
    clamp (signed negative (roundHalfEven num den))

/-- An integer as the nearest double. -/
def ofInt64 (n : Int64) : Float :=
  Float.ofInt n.toInt

end Drawscript.Number
