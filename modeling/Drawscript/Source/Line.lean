import Drawscript.Source.Span
import Drawscript.Text.Blank

/-!
# Source lines

A source text is read as lines: the pieces between line feeds, numbered from one, without blanks at
their ends, each with the span of bytes that it occupies in the source. Empty lines and lines that
start with `*` carry no statement.
-/

set_option autoImplicit false

namespace Drawscript

open Text

/-- A line of a source text without blanks at its ends. -/
structure Line where
  number : Nat
  text : String
  span : Span
deriving Repr, DecidableEq

namespace Line

/-- The place of the line. -/
def place (line : Line) : Place :=
  ⟨line.number, line.span⟩

/-- Empty lines and `*` comments carry no statement. -/
def isSkippable (line : Line) : Bool :=
  line.text.isEmpty || line.text.toList.head? = some '*'

/-- The line with the given number whose piece of the source starts at the given offset. -/
def ofPiece (number offset : Nat) (piece : List Char) : Line :=
  let start := offset + byteLength (piece.takeWhile isBlank)
  let text := trim piece
  ⟨number, String.ofList text, ⟨start, start + byteLength text⟩⟩

/-- The lines of consecutive pieces of a source, one byte apart. -/
def ofPieces (number offset : Nat) : List (List Char) → List Line
  | [] => []
  | piece :: rest =>
    ofPiece number offset piece :: ofPieces (number + 1) (offset + byteLength piece + 1) rest

/-- The lines of a source text. -/
def split (source : String) : List Line :=
  ofPieces 1 0 (source.toList.splitOnP (· == '\n'))

end Line

end Drawscript
