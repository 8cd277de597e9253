import Drawscript.Number.Exact

/-!
# Shortest decimals

The reals that round to a double form an interval around it, whose ends belong to it exactly when
the mantissa is even. `shortest` looks for the coarsest power of ten that has a multiple in that
interval and takes the multiple nearest to the double; a `Tie` says which of two equally near ones.
So the decimal reads back as the double, no decimal with fewer digits does, and it is the nearest of
those with as many digits.
-/

set_option autoImplicit false

namespace Drawscript.Number

/-- A decimal `digits * 10 ^ exponent`. -/
structure Decimal where
  digits : Nat
  exponent : Int
deriving Repr, DecidableEq

/-- Which of two neighbours is taken for a number in the middle between them. -/
inductive Tie where
  | up
  | even
deriving Repr, DecidableEq

/-- The larger neighbour is taken for a number in the middle between `n` and `n + 1`. -/
def Tie.takesUpper (tie : Tie) (n : Nat) : Bool :=
  match tie with
  | up => true
  | even => n % 2 == 1

/-- The interval of reals that round to a double: `low`, the double itself and `high` over one
denominator, and whether the ends belong to it. -/
structure RoundingInterval where
  low : Nat
  value : Nat
  high : Nat
  den : Nat
  closed : Bool

/-- The rounding interval of `mantissa * 2 ^ exponent`. Below a power of two the gap to the next
smaller double is half as wide. -/
def RoundingInterval.of (mantissa : Nat) (exponent : Int) : RoundingInterval :=
  let below := if mantissa = pow2 52 ∧ -1074 < exponent then 1 else 2
  let scale := pow2 (exponent - 2).toNat
  { low := (4 * mantissa - below) * scale
    value := 4 * mantissa * scale
    high := (4 * mantissa + 2) * scale
    den := pow2 (2 - exponent).toNat
    closed := mantissa % 2 = 0 }

/-- The multiple of `10 ^ exponent` in the interval that is nearest to the double. -/
def RoundingInterval.gridPoint? (tie : Tie) (interval : RoundingInterval) (exponent : Int) :
    Option Decimal :=
  let unit := interval.den * Nat.pow 10 exponent.toNat
  let scale := Nat.pow 10 (-exponent).toNat
  let inside (n : Nat) : Bool :=
    if interval.closed then interval.low * scale ≤ n * unit && n * unit ≤ interval.high * scale
    else interval.low * scale < n * unit && n * unit < interval.high * scale
  let below := interval.value * scale / unit
  let twice := 2 * (interval.value * scale)
  let middle := (2 * below + 1) * unit
  let nearer :=
    if twice < middle ∨ (twice = middle ∧ tie.takesUpper below = false) then below else below + 1
  let farther := 2 * below + 1 - nearer
  if inside nearer then some ⟨nearer, exponent⟩
  else if inside farther then some ⟨farther, exponent⟩
  else none

/-- The number of decimal digits. -/
def digitCount (n : Nat) : Nat :=
  (Nat.repr n).length

/-- All digits of `mantissa * 2 ^ exponent`. -/
def allDigits (mantissa : Nat) (exponent : Int) : Decimal :=
  if 0 ≤ exponent then ⟨mantissa * pow2 exponent.toNat, 0⟩
  else ⟨mantissa * Nat.pow 5 (-exponent).toNat, exponent⟩

/-- The decimal with the fewest digits that reads back as `mantissa * 2 ^ exponent`. -/
def shortest (tie : Tie) (mantissa : Nat) (exponent : Int) : Decimal :=
  let interval := RoundingInterval.of mantissa exponent
  let top : Int := digitCount interval.value - digitCount interval.den + 1
  ((List.range 21).findSome? fun (step : Nat) => interval.gridPoint? tie (top - step)).getD
    (allDigits mantissa exponent)

end Drawscript.Number
