import Drawscript.Error
import Drawscript.Source.Line

/-!
# Blocks of lines

The lines after a header up to its terminator. A conditional block may hold other conditional blocks
and may be divided by an `else`; a block of any other kind ends at the first line that closes its
kind. Skippable lines are left out.

`Block.scan?_length` bounds the lines a scan returns by the lines it was given.
-/

set_option autoImplicit false

namespace Drawscript

/-- The lines of a block, and the lines after its terminator. -/
structure Block where
  body : List Line
  elseBody : Option (List Line)
  rest : List Line
deriving Repr, DecidableEq

namespace Block

/-- The lines up to the first that closes the kind, and the lines after it. -/
def scanPlain? (kind : BlockKind) : List Line → Option Block
  | [] => none
  | line :: rest =>
    if line.isSkippable then scanPlain? kind rest
    else if kind.closes line.text.toList then some ⟨[], none, rest⟩
    else (scanPlain? kind rest).map fun block => { block with body := line :: block.body }

/-- The lines up to the terminator of a conditional block that is `depth` blocks outside the first
line. An `else` of the block itself starts its second part, unless that has started. -/
def scanConditional? (depth : Nat) (inElse : Bool) : List Line → Option Block
  | [] => none
  | line :: rest =>
    let text := line.text.toList
    let keep (block : Block) : Block := { block with body := line :: block.body }
    if line.isSkippable then scanConditional? depth inElse rest
    else if BlockKind.ofHeader? text = some .conditional then
      (scanConditional? (depth + 1) inElse rest).map keep
    else if BlockKind.conditional.closes text then
      match depth with
      | 0 => some ⟨[], none, rest⟩
      | depth + 1 => (scanConditional? depth inElse rest).map keep
    else if depth = 0 ∧ inElse = false ∧ isElse text then
      (scanConditional? 0 true rest).map fun block =>
        ⟨[], some block.body, block.rest⟩
    else (scanConditional? depth inElse rest).map keep

/-- The block whose header stands right before the given lines. -/
def scan? (kind : BlockKind) (lines : List Line) : Option Block :=
  if kind = .conditional then scanConditional? 0 false lines else scanPlain? kind lines

/-- A plain scan returns fewer lines than it was given. -/
theorem scanPlain?_length {kind : BlockKind} {lines : List Line} {block : Block}
    (h : scanPlain? kind lines = some block) :
    block.body.length + (block.elseBody.getD []).length + block.rest.length < lines.length := by
  induction lines generalizing block with
  | nil => simp [scanPlain?] at h
  | cons line rest ih =>
    simp only [scanPlain?] at h
    split at h
    · have := ih h
      simp only [List.length_cons]
      omega
    · split at h
      · simp only [Option.some.injEq] at h
        subst h
        simp
      · obtain ⟨inner, hinner, rfl⟩ := Option.map_eq_some_iff.1 h
        have := ih hinner
        simp only [List.length_cons]
        omega

/-- A scan of a conditional block returns fewer lines than it was given. -/
theorem scanConditional?_length {depth : Nat} {inElse : Bool} {lines : List Line} {block : Block}
    (h : scanConditional? depth inElse lines = some block) :
    block.body.length + (block.elseBody.getD []).length + block.rest.length < lines.length := by
  induction lines generalizing depth inElse block with
  | nil => simp [scanConditional?] at h
  | cons line rest ih =>
    have keep {d : Nat} {e : Bool}
        (hmap : (scanConditional? d e rest).map (fun b => { b with body := line :: b.body }) =
          some block) :
        block.body.length + (block.elseBody.getD []).length + block.rest.length <
          (line :: rest).length := by
      obtain ⟨inner, hinner, rfl⟩ := Option.map_eq_some_iff.1 hmap
      have := ih hinner
      simp only [List.length_cons]
      omega
    simp only [scanConditional?] at h
    split at h
    · have := ih h
      simp only [List.length_cons]
      omega
    · split at h
      · exact keep h
      · split at h
        · split at h
          · simp only [Option.some.injEq] at h
            subst h
            simp
          · exact keep h
        · split at h
          · obtain ⟨inner, hinner, rfl⟩ := Option.map_eq_some_iff.1 h
            have := ih hinner
            simp only [List.length_nil, Option.getD_some, List.length_cons]
            omega
          · exact keep h

/-- A scan returns fewer lines than it was given. -/
theorem scan?_length {kind : BlockKind} {lines : List Line} {block : Block}
    (h : scan? kind lines = some block) :
    block.body.length + (block.elseBody.getD []).length + block.rest.length < lines.length := by
  unfold scan? at h
  split at h
  · exact scanConditional?_length h
  · exact scanPlain?_length h

/-- The block whose header is the line with the given index, and the index of its terminator. -/
def extract (lines : List Line) (start : Nat) (kind : BlockKind) :
    Except ParseError (Block × Nat) :=
  match scan? kind (lines.drop (start + 1)) with
  | some block => .ok (block, lines.length - block.rest.length - 1)
  | none => .error (.missingTerminator kind)

end Block

end Drawscript
