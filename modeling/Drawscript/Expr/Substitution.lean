import Drawscript.Table
import Drawscript.Text.Blank
import Drawscript.Text.Match
import Drawscript.Value

/-!
# Substitution of variables in a text

An occurrence of a word counts only if no word character stands right before or after it.
Occurrences are looked for from left to right and do not overlap, whether they count or not.
`substitute` replaces the variables of a scope one after the other, longer names first.
-/

set_option autoImplicit false

namespace Drawscript

open Text

/-- The variables in sight. -/
abbrev Scope := Table Value

/-- The text starts with a word character. -/
def startsInWord : List Char → Bool
  | [] => false
  | c :: _ => isWordChar c

/-- The text that comes after `before`, with every counting occurrence of the nonempty word
`first :: others` replaced. -/
def replaceFrom (first : Char) (others replacement : List Char) (before : Option Char)
    (text : List Char) : List Char :=
  match text with
  | [] => []
  | c :: rest =>
    if c = first ∧ others.isPrefixOf rest then
      let after := rest.drop others.length
      let counts := !(before.any isWordChar) && !startsInWord after
      (if counts then replacement else first :: others) ++
        replaceFrom first others replacement (some (others.getLastD first)) after
    else c :: replaceFrom first others replacement (some c) rest
termination_by text.length
decreasing_by
  · simp only [List.length_drop, List.length_cons]
    omega
  · simp

/-- The text with every occurrence of a word on its own replaced. -/
def replaceWord (word replacement text : List Char) : List Char :=
  match word with
  | [] => text
  | first :: others => replaceFrom first others replacement none text

/-- The first variable is replaced before the second: its name is longer, or as long and earlier in
the alphabet. -/
def replacedBefore (a b : String × Value) : Bool :=
  b.1.utf8ByteSize < a.1.utf8ByteSize ||
    (a.1.utf8ByteSize == b.1.utf8ByteSize && !decide (b.1 < a.1))

/-- The text with the variables of a scope replaced by their values. -/
def substitute (scope : Scope) (text : List Char) : List Char :=
  (scope.entries.mergeSort replacedBefore).foldl
    (fun text (name, value) => replaceWord name.toList value.expressionText.toList text) text

end Drawscript
