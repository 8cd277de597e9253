import Drawscript.Text.Blank
import Drawscript.Text.Cluster

/-!
# Backspaces

A line may hold backspaces, each of which takes back the cluster typed before it. The size of a
cluster is remembered in one byte, so that of a cluster of 256 bytes or more only the bytes beyond a
multiple of 256 are taken back.
-/

set_option autoImplicit false

namespace Drawscript.Text

/-- The backspace character. -/
def backspace : Char := Char.ofNat 8

/-- What has been typed so far: the characters, last first, and the sizes of their clusters. -/
structure Typed where
  reversed : List Char := []
  sizes : List Nat := []
deriving Repr, DecidableEq

/-- A reversed text without the characters of its last bytes. -/
def dropBytes : Nat → List Char → List Char
  | _, [] => []
  | 0, reversed => reversed
  | bytes, c :: rest => dropBytes (bytes - c.utf8Size) rest

/-- What has been typed after one more cluster. -/
def Typed.press (typed : Typed) (cluster : List Char) : Typed :=
  if cluster = [backspace] then
    match typed.sizes with
    | [] => typed
    | size :: sizes => ⟨dropBytes size typed.reversed, sizes⟩
  else ⟨cluster.reverse ++ typed.reversed, byteLength cluster % 256 :: typed.sizes⟩

/-- The line that is left when its backspaces have been carried out. -/
def applyBackspaces (line : List Char) : List Char :=
  ((clusters line).foldl Typed.press {}).reversed.reverse

end Drawscript.Text
