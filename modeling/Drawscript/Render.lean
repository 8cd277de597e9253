import Drawscript.Diagnostic
import Drawscript.Text.Blank

/-!
# Diagnostics for a terminal

A diagnostic with a place is shown as a small drawing: a title, the position, the source line with
the text of the diagnostic's span in colour, and below it an arrow from the middle of the span to the
message. Tabs are shown as spaces up to the next multiple of four characters.
-/

set_option autoImplicit false

namespace Drawscript.Render

open Text

/-- A text in a terminal colour. -/
def colored (color text : String) : String :=
  "\x1b[" ++ color ++ "m" ++ text ++ "\x1b[0m"

/-- The colour of the frame. -/
def frameColor : String := "38;5;246"

/-- The colour of the frame beside lines that are not source text. -/
def marginColor : String := "38;5;240"

/-- The colour of source text outside the span. -/
def sourceColor : String := "38;5;249"

/-- The word that opens a title. -/
def word : Severity → String
  | .error => "Error"
  | .warning => "Warning"
  | .note => "Advice"

/-- The colour of the word that opens a title. -/
def wordColor : Severity → String
  | .error => "31"
  | .warning => "33"
  | .note => "38;5;147"

/-- The colour of the span and of its arrow. -/
def labelColor : Severity → String
  | .error => "31"
  | .warning => "33"
  | .note => "36"

/-- A number of spaces. -/
def spaces (n : Nat) : String :=
  String.ofList (List.replicate n ' ')

/-- What a diagnostic is about: the family of its problem, or its severity. -/
def title (d : Diagnostic) : String :=
  match d.notice.family? with
  | some family => family.name ++ " error"
  | none => d.severity.name

/-- The number of columns of a character at the given index. -/
def columnWidth (index : Nat) (c : Char) : Nat :=
  if c = '\t' then 4 - index % 4 else 1

/-- The column of the character with the given index, in a text that starts at `start`. -/
def column (start : Nat) (index : Nat) : List Char → Nat
  | [] => index - start
  | c :: rest =>
    if index ≤ start then 0 else columnWidth start c + column (start + 1) index rest

/-- The number of characters in the first bytes of a text. -/
def charsIn (bytes : Nat) : List Char → Nat
  | [] => 0
  | c :: rest => if bytes = 0 then 0 else charsIn (bytes - c.utf8Size) rest + 1

/-- The source text with each character in its colour. The span covers the characters from `first` to
before `last`, and the text starts at index `index`. -/
def sourceText (label : String) (first last index : Nat) : List Char → String
  | [] => ""
  | c :: rest =>
    let color := if first ≤ index ∧ index < last then label else sourceColor
    let shown :=
      if c = '\t' then String.join (List.replicate (columnWidth index c) (colored color " "))
      else colored color (String.singleton c)
    shown ++ sourceText label first last (index + 1) rest

/-- The byte offset at which a piece of a source begins, given the pieces before it. -/
def pieceStart : List (List Char) → Nat
  | [] => 0
  | piece :: rest => byteLength piece + 1 + pieceStart rest

/-- The drawing for a diagnostic at a place. -/
def drawing (filename source : String) (d : Diagnostic) (place : Place) : String :=
  let pieces := source.toList.splitOnP (· == '\n')
  let before := pieces.take (place.line - 1)
  let piece := (pieces.drop (place.line - 1)).headD []
  let first := charsIn (place.span.start - pieceStart before) piece
  let last := charsIn (place.span.stop - pieceStart before) piece
  let middle := (first + last) / 2
  let number := toString place.line
  let width := number.length
  let label := labelColor d.severity
  let firstColumn := column 0 first piece
  let middleColumn := column 0 middle piece
  let lastColumn := column 0 last piece
  let bar (column : Nat) : String :=
    colored label (if column = middleColumn then "┬" else "─")
  let margin := " " ++ colored marginColor (spaces width ++ " │") ++ " "
  let lines :=
    [ colored (wordColor d.severity) (word d.severity ++ ":") ++ " " ++ title d,
      spaces (width + 2) ++ colored frameColor "╭" ++ colored frameColor "─" ++
        colored frameColor "[" ++ " " ++ filename ++ ":" ++ number ++ ":" ++
        toString (first + 1) ++ " " ++ colored frameColor "]",
      spaces (width + 2) ++ colored frameColor "│",
      " " ++ colored frameColor (number ++ " │") ++ " " ++
        sourceText label first last 0 (trimEnd piece),
      margin ++ spaces firstColumn ++
        String.join ((List.range (lastColumn - firstColumn)).map fun i => bar (firstColumn + i)) ++
        "  ",
      margin ++ spaces middleColumn ++ colored label "╰" ++
        String.join (List.replicate (lastColumn + 1 - middleColumn) (colored label "─")) ++ " " ++
        d.message,
      colored frameColor (String.ofList (List.replicate (width + 2) '─') ++ "╯") ]
  String.join (lines.map fun line => line ++ "\n")

end Drawscript.Render

namespace Drawscript

/-- A diagnostic for a terminal, in a source text of the given name. -/
def Diagnostic.render (filename source : String) (d : Diagnostic) : String :=
  match d.place with
  | some place => Render.drawing filename source d place
  | none =>
    Render.colored (Render.wordColor d.severity) (Render.word d.severity ++ ":") ++ " " ++
      Render.title d ++ ": " ++ d.message ++ "\n"

end Drawscript
