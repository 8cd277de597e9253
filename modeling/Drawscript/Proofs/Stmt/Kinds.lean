import Drawscript.Proofs.Stmt.Reading

/-!
# Blocks inside blocks of their kind

A loop or a method ends at the first line that closes its kind, so no such line is left in its body.
A block of that kind in the body, at any depth, would need one (`exists_closes_of_kind?`). Of all
blocks that are read, only conditional ones therefore stand inside a block of their own kind
(`ofSource_nested_conditional`).
-/

set_option autoImplicit false

namespace Drawscript

/-! ## Kinds of statements -/

/-- The kind of block that a statement is. -/
def Stmt.kind? : Stmt → Option BlockKind
  | whileLoop _ _ _ => some .whileLoop
  | forLoop _ _ _ => some .forLoop
  | ifThen _ _ _ => some .conditional
  | ifElse _ _ _ _ => some .conditional
  | method _ _ _ _ => some .method
  | call _ _ _ => none
  | command _ _ => none

namespace Parsed

variable {line : Line} {kind : BlockKind} {lines : List Line} {block : Block} {stmt inner : Stmt}

/-! ## What is read from a block -/

theorem kind?_of_mem_ofHeader {α : Type} {header : Except ParseError α} {bodies : List Parsed}
    {build : α → Stmt} (hbuild : ∀ a, (build a).kind? = some kind)
    (h : stmt ∈ (ofHeader line header bodies build).stmts) : stmt.kind? = some kind := by
  cases header with
  | error e => exact absurd h List.not_mem_nil
  | ok a =>
    rw [List.mem_singleton.1 h]
    exact hbuild a

/-- A block becomes a statement of its kind. -/
theorem kind?_of_mem_ofBlock {body : Parsed} {elseBody : Option Parsed}
    (h : stmt ∈ (ofBlock line kind lines body elseBody).stmts) : stmt.kind? = some kind := by
  cases kind with
  | whileLoop => exact kind?_of_mem_ofHeader (fun _ => rfl) h
  | forLoop => exact kind?_of_mem_ofHeader (fun _ => rfl) h
  | method => exact kind?_of_mem_ofHeader (fun _ => rfl) h
  | conditional =>
    cases elseBody with
    | none => exact kind?_of_mem_ofHeader (fun _ => rfl) h
    | some other => exact kind?_of_mem_ofHeader (fun _ => rfl) h

/-- A line that opens no block is no block. -/
theorem kind?_of_mem_ofLine (h : stmt ∈ insideAll (ofLine line).stmts) :
    stmt.kind? = none ∧ stmt.bodies = [] := by
  rcases parseLine_cases (parseLine_of_mem_ofLine h) with ⟨name, args, rfl⟩ | ⟨cmd, -, rfl⟩
  · exact ⟨rfl, rfl⟩
  · exact ⟨rfl, rfl⟩

/-! ## Terminators -/

theorem scanPlain?_of_scan? (hscan : Block.scan? kind lines = some block)
    (hkind : kind ≠ .conditional) : Block.scanPlain? kind lines = some block := by
  rwa [Block.scan?, if_neg hkind] at hscan

theorem exists_closes_of_subset {lines' : List Line} (hsubset : lines ⊆ lines')
    (h : ∃ last ∈ lines, kind.closes last.text.toList = true) :
    ∃ last ∈ lines', kind.closes last.text.toList = true := by
  obtain ⟨last, hlast, hcloses⟩ := h
  exact ⟨last, hsubset hlast, hcloses⟩

/-- A loop or a method that is read from some lines was closed by one of them. -/
theorem exists_closes_of_kind? (hkind : kind ≠ .conditional) (lines : List Line) :
    ∀ stmt ∈ insideAll (ofLines lines).stmts, stmt.kind? = some kind →
      ∃ last ∈ lines, kind.closes last.text.toList = true := by
  refine ofLines_induction (motive := fun lines parsed => ∀ stmt ∈ insideAll parsed.stmts,
    stmt.kind? = some kind → ∃ last ∈ lines, kind.closes last.text.toList = true)
    ?_ ?_ ?_ ?_ ?_ lines
  · exact fun stmt hstmt => absurd hstmt not_mem_insideAll_nil
  · intro line rest _ ih stmt hstmt hsame
    exact exists_closes_of_subset (List.subset_cons_self _ _) (ih stmt hstmt hsame)
  · intro line rest _ _ ih stmt hstmt hsame
    rw [append, insideAll_append] at hstmt
    rcases List.mem_append.1 hstmt with hline | hrest
    · rw [(kind?_of_mem_ofLine hline).1] at hsame
      cases hsame
    · exact exists_closes_of_subset (List.subset_cons_self _ _) (ih stmt hrest hsame)
  · exact fun line rest kind' _ _ _ stmt hstmt => absurd hstmt not_mem_insideAll_nil
  · intro line rest kind' block _ _ hscan ihbody ihelse ihrest stmt hstmt hsame
    have hwithin := Block.scan?_within hscan
    have hparts := Block.forall_mem_parts ihbody ihelse
    rw [append, insideAll_append] at hstmt
    rcases List.mem_append.1 hstmt with hblock | hafter
    · rcases block_or_readIn line hscan hblock with ⟨hown, -, -⟩ | ⟨part, hmem, hinside⟩
      · -- the block itself was closed by the line that ended the scan
        obtain rfl : kind' = kind :=
          Option.some.inj ((kind?_of_mem_ofBlock hown).symm.trans hsame)
        obtain ⟨-, -, last, hlast, hcloses⟩ :=
          Block.scanPlain?_free (scanPlain?_of_scan? hscan hkind)
        exact ⟨last, List.mem_cons_of_mem _ hlast, hcloses⟩
      · exact exists_closes_of_subset (List.subset_cons_of_subset _ (hwithin.parts part hmem))
          (hparts part hmem stmt hinside hsame)
    · exact exists_closes_of_subset (List.subset_cons_of_subset _ hwithin.rest)
        (ihrest stmt hafter hsame)

/-- What is read from the body of a loop or a method is of another kind. -/
theorem kind?_ne_of_readIn (hscan : Block.scan? kind lines = some block)
    (hkind : kind ≠ .conditional) (h : ReadIn block inner) : inner.kind? ≠ some kind := by
  intro hsame
  obtain ⟨part, hpart, hinner⟩ := h
  obtain ⟨helse, hfree, -⟩ := Block.scanPlain?_free (scanPlain?_of_scan? hscan hkind)
  rw [Block.parts, helse] at hpart
  obtain rfl := List.mem_singleton.1 hpart
  obtain ⟨last, hlast, hcloses⟩ := exists_closes_of_kind? hkind block.body inner hinner hsame
  rw [hfree last hlast] at hcloses
  cases hcloses

/-- A block inside one of its own kind is a conditional. -/
theorem nested_conditional_ofLines (lines : List Line) :
    ∀ outer ∈ insideAll (ofLines lines).stmts, ∀ inner ∈ insideAll outer.bodies,
      inner.kind? = outer.kind? → outer.kind? = some .conditional := by
  refine ofLines_induction (motive := fun _ parsed => ∀ outer ∈ insideAll parsed.stmts,
    ∀ inner ∈ insideAll outer.bodies, inner.kind? = outer.kind? →
      outer.kind? = some .conditional) ?_ ?_ ?_ ?_ ?_ lines
  · exact fun outer houter => absurd houter not_mem_insideAll_nil
  · exact fun line rest _ ih => ih
  · intro line rest _ _ ih outer houter inner hinner
    rw [append, insideAll_append] at houter
    rcases List.mem_append.1 houter with hline | hrest
    · rw [(kind?_of_mem_ofLine hline).2] at hinner
      exact absurd hinner not_mem_insideAll_nil
    · exact ih outer hrest inner hinner
  · exact fun line rest kind _ _ _ outer houter => absurd houter not_mem_insideAll_nil
  · intro line rest kind block _ _ hscan ihbody ihelse ihrest outer houter inner hinner hsame
    have hparts := Block.forall_mem_parts ihbody ihelse
    rw [append, insideAll_append] at houter
    rcases List.mem_append.1 houter with hblock | hafter
    · rcases block_or_readIn line hscan hblock with ⟨hmem, -, hbodies⟩ | ⟨part, hmem, hinside⟩
      · have hown := kind?_of_mem_ofBlock hmem
        -- a block of another kind is plain, and its body holds no line that closes the kind
        by_contra hother
        have hkind : kind ≠ .conditional := fun hconditional => hother (hconditional ▸ hown)
        exact kind?_ne_of_readIn hscan hkind (hbodies inner hinner) (hsame.trans hown)
      · exact hparts part hmem outer hinside inner hinner hsame
    · exact ihrest outer hafter inner hinner hsame

end Parsed

/-! ## Sources -/

/-- A source with a conditional block inside another one. -/
def nestedConditionals : String :=
  "if 1\nif 2\nend if\nend if"

/-- The inner block of the source. -/
def innerConditional : Stmt :=
  .ifThen ⟨2, ⟨5, 9⟩⟩ "2" []

/-- The outer block of the source. -/
def outerConditional : Stmt :=
  .ifThen ⟨1, ⟨0, 4⟩⟩ "1" [innerConditional]

theorem ofSource_nestedConditionals :
    (Parsed.ofSource nestedConditionals).stmts = [outerConditional] := by
  have hlines : Line.split nestedConditionals =
      [⟨1, "if 1", ⟨0, 4⟩⟩, ⟨2, "if 2", ⟨5, 9⟩⟩, ⟨3, "end if", ⟨10, 16⟩⟩,
        ⟨4, "end if", ⟨17, 23⟩⟩] := by
    decide +kernel
  have houter : Block.scan? .conditional
      [⟨2, "if 2", ⟨5, 9⟩⟩, ⟨3, "end if", ⟨10, 16⟩⟩, ⟨4, "end if", ⟨17, 23⟩⟩] =
      some ⟨[⟨2, "if 2", ⟨5, 9⟩⟩, ⟨3, "end if", ⟨10, 16⟩⟩], none, []⟩ := by
    decide
  have hinner : Block.scan? .conditional [⟨3, "end if", ⟨10, 16⟩⟩] = some ⟨[], none, []⟩ := by
    decide
  rw [Parsed.ofSource, hlines, Parsed.ofLines_block (by decide) (by decide) houter]
  dsimp only
  rw [Parsed.ofLines_block (by decide) (by decide) hinner]
  dsimp only
  rw [Parsed.ofLines_nil]
  rfl

theorem outerConditional_mem :
    outerConditional ∈ insideAll (Parsed.ofSource nestedConditionals).stmts := by
  rw [ofSource_nestedConditionals, insideAll_singleton]
  exact mem_inside_self _

theorem innerConditional_mem : innerConditional ∈ insideAll outerConditional.bodies := by
  rw [outerConditional, Stmt.bodies, insideAll_singleton]
  exact mem_inside_self _

/-- In the program of a source, a statement in the bodies of another one, at any depth and through
blocks of any kind, is of the same kind only if both are conditional blocks: no `while` loop is
inside a `while` loop, no `for` loop inside a `for` loop, and no method inside a method. Conditional
blocks do stand inside each other. -/
theorem ofSource_nested_conditional :
    (∀ source : String, ∀ outer ∈ insideAll (Parsed.ofSource source).stmts,
      ∀ inner ∈ insideAll outer.bodies, inner.kind? = outer.kind? →
        outer.kind? = some .conditional) ∧
    ∃ source : String, ∃ outer ∈ insideAll (Parsed.ofSource source).stmts,
      ∃ inner ∈ insideAll outer.bodies,
        inner.kind? = some .conditional ∧ outer.kind? = some .conditional :=
  ⟨fun source => Parsed.nested_conditional_ofLines (Line.split source), nestedConditionals,
    outerConditional, outerConditional_mem, innerConditional, innerConditional_mem, rfl, rfl⟩

/-- Two blocks of the same kind, one inside the other, are conditional ones. -/
theorem ofSource_nested_conditional_twice :
    outerConditional ∈ insideAll (Parsed.ofSource nestedConditionals).stmts ∧
      innerConditional ∈ insideAll outerConditional.bodies ∧
      innerConditional.kind? = outerConditional.kind? ∧
      outerConditional.kind? = some .conditional :=
  ⟨outerConditional_mem, innerConditional_mem, rfl,
    ofSource_nested_conditional.1 nestedConditionals outerConditional outerConditional_mem
      innerConditional innerConditional_mem rfl⟩

end Drawscript
