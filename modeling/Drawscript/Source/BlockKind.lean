import Drawscript.Text.Blank
import Drawscript.Text.Match

/-!
# Keywords and block kinds

A line belongs to a keyword if it starts with it and a blank or nothing follows. Four keywords open
blocks; a block is closed by `end` and its keyword, in any case and spacing, written as one word or
two.
-/

set_option autoImplicit false

namespace Drawscript

open Text

/-- What follows a leading keyword, without surrounding blanks. -/
def afterKeyword? (keyword : String) (text : List Char) : Option (List Char) :=
  match keyword.toList.isPrefixOf? text with
  | some [] => some []
  | some (c :: rest) => if isBlank c then some (trim (c :: rest)) else none
  | none => none

/-- The line is a bare `else`, in any case. -/
def isElse (text : List Char) : Bool :=
  sameLetters (trim text) "else".toList

/-- The kinds of statements that span several lines. -/
inductive BlockKind where
  | whileLoop
  | forLoop
  | conditional
  | method
deriving Repr, DecidableEq

namespace BlockKind

/-- All kinds, in the order in which headers are recognised. -/
def all : List BlockKind :=
  [whileLoop, forLoop, conditional, method]

/-- The keyword that opens a block of the kind. -/
def keyword : BlockKind → String
  | whileLoop => "while"
  | forLoop => "for"
  | conditional => "if"
  | method => "method"

/-- The line that closes a block of the kind. -/
def closing (kind : BlockKind) : String :=
  "end " ++ kind.keyword

/-- The kind of block that a line opens. -/
def ofHeader? (text : List Char) : Option BlockKind :=
  all.find? fun kind => (afterKeyword? kind.keyword text).isSome

/-- The line closes a block of the kind: `end` and the keyword, as two words or one. -/
def closes (kind : BlockKind) (text : List Char) : Bool :=
  let line := spaced ((words text).map fun word => word.map Char.toLower)
  line == kind.closing.toList || line == ("end" ++ kind.keyword).toList

end BlockKind

/-- The line closes a block of some kind. -/
def isTerminator (text : List Char) : Bool :=
  BlockKind.all.any fun kind => kind.closes text

end Drawscript
