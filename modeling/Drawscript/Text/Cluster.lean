import Drawscript.Text.ClusterRole

/-!
# Clusters

A line of text is divided into clusters, each of which a reader takes for one character. Whether a
character continues the cluster before it depends on the roles of the two characters and, for
pictures, flags and linked consonants, on what stands further back; a `ClusterContext` carries as much
of that as is needed.
-/

set_option autoImplicit false

namespace Drawscript.Text

/-- What the characters before a place say about the one after it. -/
structure ClusterContext where
  /-- The role of the last character. -/
  last : ClusterRole
  /-- The last characters are a picture and characters that extend it, with a joiner at most at the
  end. -/
  picture : Bool
  /-- The last characters are an odd number of halves of flags. -/
  halfFlag : Bool
  /-- The last characters are a consonant and characters that do not part it from the next. -/
  consonant : Bool
  /-- The consonant has a linking sign after it. -/
  linked : Bool
deriving Repr, DecidableEq

namespace ClusterContext

/-- Before the first character. -/
def start : ClusterContext :=
  ⟨.control, false, false, false, false⟩

/-- The context after one more character. -/
def next (context : ClusterContext) (c : Char) : ClusterContext :=
  let role := clusterRole c
  let passes := context.consonant && (isLinker c || passesLink c)
  { last := role
    picture :=
      role = .picture ||
        (context.picture && context.last ≠ .joiner && (role = .extend || role = .joiner))
    halfFlag := role = .regional && !context.halfFlag
    consonant := role = .consonant || passes
    linked := passes && (context.linked || isLinker c) }

/-- The character belongs to the cluster of the one before it. -/
def joins (context : ClusterContext) (c : Char) : Bool :=
  match context.last, clusterRole c with
  | .control, _ | _, .control => false
  | .leading, .leading | .leading, .vowel => true
  | .leading, .openSyllable | .leading, .closedSyllable => true
  | .openSyllable, .vowel | .openSyllable, .trailing | .vowel, .vowel | .vowel, .trailing => true
  | .closedSyllable, .trailing | .trailing, .trailing => true
  | _, .extend | _, .joiner | _, .spacing | .prepend, _ => true
  | _, .consonant => context.linked
  | .joiner, .picture => context.picture
  | .regional, .regional => context.halfFlag
  | _, _ => false

end ClusterContext

/-- What a text adds to the cluster before it, and the clusters after that. -/
def clustersAfter (context : ClusterContext) : List Char → List Char × List (List Char)
  | [] => ([], [])
  | c :: rest =>
    let (head, others) := clustersAfter (context.next c) rest
    if context.joins c then (c :: head, others) else ([], (c :: head) :: others)

/-- The clusters of a line of text. -/
def clusters (text : List Char) : List (List Char) :=
  (clustersAfter .start text).2

end Drawscript.Text
