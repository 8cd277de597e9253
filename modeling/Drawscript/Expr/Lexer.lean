import Drawscript.Error
import Drawscript.Expr.Token
import Drawscript.Number.Reader

/-!
# Reading tokens

`Token.next?` reads the longest token at the start of a text: digits with a point among or beside
them are a real, digits alone an integer (or a real if it does not fit 64 bits), then quoted texts,
names and symbols. `Token.scan` reads a whole text, skipping spaces, tabs, carriage returns and line
feeds between tokens; a character at which no token starts is refused with its offset.
-/

set_option autoImplicit false

namespace Drawscript.Token

open Text

/-- The characters skipped between tokens. -/
def isGap (c : Char) : Bool :=
  c == ' ' || c == '\t' || c == '\r' || c == '\n'

/-- The token written by digits alone. -/
def ofDigits (digits : List Char) : Token :=
  let n := Number.digitsValue digits
  if n < Number.int64Bound then .int (Int64.ofNat n) else .real (Number.Decimal.toFloat ⟨n, 0⟩)

/-- The token written by digits around a point. -/
def ofPoint (whole places : List Char) : Token :=
  .real (Number.Decimal.toFloat ⟨Number.digitsValue (whole ++ places), -(places.length : Int)⟩)

/-- The longest token at the start of a text, with the characters it is written by. -/
def next? : List Char → Option (Token × List Char)
  | [] => none
  | c :: rest =>
    if c.isDigit then
      let whole := c :: rest.takeWhile Char.isDigit
      match rest.dropWhile Char.isDigit with
      | '.' :: after =>
        let places := after.takeWhile Char.isDigit
        some (ofPoint whole places, whole ++ '.' :: places)
      | _ => some (ofDigits whole, whole)
    else if c = '.' then
      let places := rest.takeWhile Char.isDigit
      if places.isEmpty then none else some (ofPoint [] places, '.' :: places)
    else if c = '"' then
      let inner := rest.takeWhile (· != '"')
      if inner.length < rest.length then some (.text (String.ofList inner), '"' :: inner ++ ['"'])
      else none
    else if c.isAlpha || c == '_' then
      let word := c :: rest.takeWhile isWordChar
      some (.name (String.ofList word), word)
    else (Symbol.ofChar? c).map fun s => (.symbol s, [c])

/-- Every token is written by at least one character. -/
theorem next?_ne_nil {text written : List Char} {token : Token}
    (h : next? text = some (token, written)) : written ≠ [] := by
  cases text with
  | nil => simp [next?] at h
  | cons c rest =>
    simp only [next?] at h
    split at h
    · split at h <;> simp only [Option.some.injEq, Prod.mk.injEq] at h <;> simp [← h.2]
    · split at h
      · split at h
        · simp at h
        · simp only [Option.some.injEq, Prod.mk.injEq] at h
          simp [← h.2]
      · split at h
        · split at h
          · simp only [Option.some.injEq, Prod.mk.injEq] at h
            simp [← h.2]
          · simp at h
        · split at h
          · simp only [Option.some.injEq, Prod.mk.injEq] at h
            simp [← h.2]
          · simp only [Option.map_eq_some_iff, Prod.mk.injEq] at h
            obtain ⟨_, _, _, h⟩ := h
            simp [← h]

/-- The tokens of a text that starts at the given offset, or the offset of the first character at
which none starts. -/
def scan (offset : Nat) (text : List Char) : Except Nat (List Lexeme) :=
  match text with
  | [] => .ok []
  | c :: rest =>
    if isGap c then scan (offset + c.utf8Size) rest
    else
      match _hnext : next? (c :: rest) with
      | none => .error offset
      | some (token, written) =>
        let stop := offset + byteLength written
        match scan stop ((c :: rest).drop written.length) with
        | .ok lexemes => .ok (⟨token, offset, stop⟩ :: lexemes)
        | .error position => .error position
termination_by text.length
decreasing_by
  · simp
  · have := List.length_pos_iff.2 (next?_ne_nil _hnext)
    simp only [List.length_drop, List.length_cons]
    omega

/-- The tokens of an expression text. -/
def tokenize (text : List Char) : Except EvalError (List Lexeme) :=
  match scan 0 text with
  | .ok lexemes => .ok lexemes
  | .error offset => .error (.unexpectedCharacter (String.ofList text) offset)

end Drawscript.Token
