/-!
# Ranges of character codes

The classes of characters that the library needs beyond ASCII are given by tables of ranges. A table
lists its ranges in increasing order, and no two of them overlap.
-/

set_option autoImplicit false

namespace Drawscript.Text

/-- The character codes from the first to the second, both included. -/
abbrev CodeRange := Nat × Nat

/-- The code of a character lies in one of the ranges. -/
def inRanges (ranges : List CodeRange) (c : Char) : Bool :=
  ranges.any fun (first, last) => first ≤ c.toNat && c.toNat ≤ last

end Drawscript.Text
