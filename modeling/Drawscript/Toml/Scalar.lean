import Drawscript.Number.Reader
import Drawscript.Toml.Basic

/-!
# Scalars of settings documents

Numbers, truth values, dates and times. An integer is kept with its value; of the others it matters
only that they are well formed.
-/

set_option autoImplicit false

namespace Drawscript.Toml

/-! ## Numbers -/

/-- The value of a hexadecimal digit. -/
def hexDigit? (c : Char) : Option Nat :=
  if c.isDigit then some (c.toNat - '0'.toNat)
  else if 'a' ≤ c ∧ c ≤ 'f' then some (c.toNat - 'a'.toNat + 10)
  else if 'A' ≤ c ∧ c ≤ 'F' then some (c.toNat - 'A'.toNat + 10)
  else none

/-- The digits of a text with single underscores between them. -/
def ungrouped? (text : List Char) : Option (List Char) :=
  let groups := text.splitOnP (· == '_')
  if groups.any List.isEmpty then none else some groups.flatten

/-- Digits of a base with single underscores between them, as one number. -/
def digits? (base : Nat) (text : List Char) : Option Nat :=
  match (ungrouped? text).bind fun digits => digits.mapM hexDigit? with
  | some values =>
    if values.all (· < base) then some (values.foldl (fun n d => base * n + d) 0) else none
  | none => none

/-- A zero before other digits. -/
def hasLeadingZero (text : List Char) : Bool :=
  text.head? == some '0' && 1 < text.length

/-- The integer a word stands for. -/
def integer? (word : List Char) : Option Int64 :=
  let value : Option Int :=
    match word with
    | '0' :: 'x' :: rest => (digits? 16 rest).map Int.ofNat
    | '0' :: 'o' :: rest => (digits? 8 rest).map Int.ofNat
    | '0' :: 'b' :: rest => (digits? 2 rest).map Int.ofNat
    | _ =>
      let (negative, rest) := Number.takeSign word
      if hasLeadingZero rest then none else (digits? 10 rest).map (Number.signed negative)
  match value with
  | some n =>
    if -(Number.int64Bound : Int) ≤ n ∧ n < Number.int64Bound then some (Int64.ofInt n) else none
  | none => none

/-- Decimal digits with single underscores between them. -/
def isDigits (text : List Char) : Bool :=
  (digits? 10 text).isSome

/-- A text that is empty or an exponent. -/
def isExponent : List Char → Bool
  | [] => true
  | mark :: rest => (mark == 'e' || mark == 'E') && isDigits (Number.takeSign rest).2

/-- Decimal digits and underscores at the start of a text, and the text after them. -/
def spanDigits (text : List Char) : List Char × List Char :=
  text.span fun c => c.isDigit || c == '_'

/-- The form of a fractional number without sign: digits, and a point with digits or an exponent or
both. -/
def hasFractionForm (text : List Char) : Bool :=
  let (whole, rest) := spanDigits text
  isDigits whole && !hasLeadingZero whole &&
    match rest with
    | [] => false
    | '.' :: rest =>
      let (places, rest) := spanDigits rest
      isDigits places && isExponent rest
    | rest => isExponent rest

/-- A fractional number, or the name of an infinity or of the value that is no number. A number too
large for a double is refused, a negative one beyond the doubles is not. -/
def isFraction (word : List Char) : Bool :=
  let rest := (Number.takeSign word).2
  if hasFractionForm rest then
    match Number.read? (word.filter (· != '_')) with
    | some x => x.toBits != 0x7FF0000000000000
    | none => false
  else rest == "inf".toList || rest == "nan".toList

/-- A truth value. -/
def isTruth (word : List Char) : Bool :=
  word == "true".toList || word == "false".toList

/-! ## Dates and times -/

/-- A number of exactly the given count of digits, and what follows. -/
def number? (count : Nat) (text : List Char) : Option (Nat × List Char) :=
  let digits := text.take count
  if digits.length = count ∧ digits.all Char.isDigit then
    some (Number.digitsValue digits, text.drop count)
  else none

/-- What follows a character. -/
def after? (c : Char) : List Char → Option (List Char)
  | [] => none
  | d :: rest => if d = c then some rest else none

/-- The year has a 29th of February. -/
def isLeapYear (year : Nat) : Bool :=
  year % 4 == 0 && (year % 100 != 0 || year % 400 == 0)

/-- The number of days of a month. -/
def daysOfMonth (year month : Nat) : Nat :=
  if month = 2 then if isLeapYear year then 29 else 28
  else if month ∈ [4, 6, 9, 11] then 30
  else 31

/-- What follows a date. -/
def date? (text : List Char) : Option (List Char) := do
  let (year, rest) ← number? 4 text
  let (month, rest) ← number? 2 (← after? '-' rest)
  let (day, rest) ← number? 2 (← after? '-' rest)
  if 1 ≤ month ∧ month ≤ 12 ∧ 1 ≤ day ∧ day ≤ daysOfMonth year month then some rest else none

/-- What follows hours and minutes. -/
def hourMinute? (text : List Char) : Option (List Char) := do
  let (hour, rest) ← number? 2 text
  let (minute, rest) ← number? 2 (← after? ':' rest)
  if hour ≤ 23 ∧ minute ≤ 59 then some rest else none

/-- What follows a time of the day, whose last minute may have a leap second. -/
def time? (text : List Char) : Option (List Char) := do
  let (second, rest) ← number? 2 (← after? ':' (← hourMinute? text))
  if 60 < second then none
  else
    match rest with
    | '.' :: places =>
      if (places.takeWhile Char.isDigit).isEmpty then some rest
      else some (places.dropWhile Char.isDigit)
    | _ => some rest

/-- What follows the offset of a time, which may be missing. -/
def offset? : List Char → Option (List Char)
  | [] => some []
  | c :: rest =>
    if c = 'Z' ∨ c = 'z' then some rest
    else if c = '+' ∨ c = '-' then hourMinute? rest
    else some (c :: rest)

/-- What follows a time after a date. -/
def timeAfterDate? : List Char → Option (List Char)
  | [] => none
  | c :: rest => if c = 'T' ∨ c = 't' ∨ c = ' ' then (time? rest).bind offset? else none

/-- What follows a date, a time, or both. -/
def dateTime? (text : List Char) : Option (List Char) :=
  match date? text with
  | some rest => some ((timeAfterDate? rest).getD rest)
  | none => time? text

/-! ## Words -/

/-- The characters of a number or truth value. -/
def isWordChar (c : Char) : Bool :=
  c.isAlphanum || c == '_' || c == '-' || c == '+' || c == '.' || c == ':'

/-- A scalar, and what follows. -/
def scalar? (text : List Char) : Option (Toml × List Char) :=
  match dateTime? text with
  | some rest => some (.other, rest)
  | none =>
    let word := text.takeWhile isWordChar
    let rest := text.drop word.length
    match integer? word with
    | some n => some (.integer n, rest)
    | none => if isFraction word || isTruth word then some (.other, rest) else none

end Drawscript.Toml
