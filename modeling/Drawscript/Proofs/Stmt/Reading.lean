import Drawscript.Proofs.Source.Block
import Drawscript.Proofs.Stmt.Inside
import Drawscript.Stmt.Parser

/-!
# Reading lines, one statement at a time

The equations of `Parsed.ofLines` for the five things that can stand in front: nothing, a line that
is skipped, a line that opens no block, a header without terminator, and a block.
`ofLines_induction` is the induction that goes with them: a property of lines and what is read from
them holds if it holds along each of the five. A block becomes a single statement with its bodies
inside, or else one problem (`becomes_ofBlock`). So what holds of statements on single lines and of
headers holds of all statements read (`forall_insideAll_ofLines`).
-/

set_option autoImplicit false

namespace Drawscript.Parsed

open Text

variable {line : Line} {rest : List Line} {kind : BlockKind}

theorem ofLines_nil : ofLines [] = ⟨[], []⟩ := by
  rw [ofLines]

/-- Blank lines and comments are passed over. -/
theorem ofLines_skippable (hskip : line.isSkippable = true) :
    ofLines (line :: rest) = ofLines rest := by
  rw [ofLines, if_pos hskip]

/-- A line outside of blocks is read on its own. -/
theorem ofLines_line (hskip : line.isSkippable = false)
    (hheader : BlockKind.ofHeader? line.text.toList = none) :
    ofLines (line :: rest) = (ofLine line).append (ofLines rest) := by
  rw [ofLines, hskip, if_neg Bool.false_ne_true, hheader]

/-- A block without an end is one problem, and the lines after its header are not read. -/
theorem ofLines_unclosed (hskip : line.isSkippable = false)
    (hheader : BlockKind.ofHeader? line.text.toList = some kind)
    (hscan : Block.scan? kind rest = none) :
    ofLines (line :: rest) = problem line (.missingTerminator kind) := by
  rw [ofLines, hskip, if_neg Bool.false_ne_true, hheader]
  dsimp only
  split
  case h_1 => rfl
  case h_2 block hblock => cases hscan.symm.trans hblock

/-- A block is made of its header and what is read from its parts; reading goes on after it. -/
theorem ofLines_block (hskip : line.isSkippable = false)
    (hheader : BlockKind.ofHeader? line.text.toList = some kind) {block : Block}
    (hscan : Block.scan? kind rest = some block) :
    ofLines (line :: rest) =
      (ofBlock line kind block.body (ofLines block.body) (block.elseBody.map ofLines)).append
        (ofLines block.rest) := by
  rw [ofLines, hskip, if_neg Bool.false_ne_true, hheader]
  dsimp only
  split
  case h_1 hblock => cases hscan.symm.trans hblock
  case h_2 found hblock =>
    cases hscan.symm.trans hblock
    congr 2
    split
    case h_1 helse => rw [helse]; rfl
    case h_2 lines helse => rw [helse]; rfl

/-- Induction along the reading of lines. -/
theorem ofLines_induction {motive : List Line → Parsed → Prop} (nil : motive [] ⟨[], []⟩)
    (skip : ∀ line rest, line.isSkippable = true → motive rest (ofLines rest) →
      motive (line :: rest) (ofLines rest))
    (single : ∀ line rest, line.isSkippable = false →
      BlockKind.ofHeader? line.text.toList = none → motive rest (ofLines rest) →
      motive (line :: rest) ((ofLine line).append (ofLines rest)))
    (unclosed : ∀ line rest kind, line.isSkippable = false →
      BlockKind.ofHeader? line.text.toList = some kind → Block.scan? kind rest = none →
      motive (line :: rest) (problem line (.missingTerminator kind)))
    (block : ∀ line rest kind block, line.isSkippable = false →
      BlockKind.ofHeader? line.text.toList = some kind → Block.scan? kind rest = some block →
      motive block.body (ofLines block.body) →
      (∀ part ∈ block.elseBody, motive part (ofLines part)) →
      motive block.rest (ofLines block.rest) →
      motive (line :: rest)
        ((ofBlock line kind block.body (ofLines block.body) (block.elseBody.map ofLines)).append
          (ofLines block.rest)))
    (lines : List Line) : motive lines (ofLines lines) := by
  -- the parts of a block are no tails of the lines, so the induction is on their number
  induction hlength : lines.length using Nat.strong_induction_on generalizing lines with
  | _ length ih =>
    subst hlength
    cases lines with
    | nil =>
      rw [ofLines_nil]
      exact nil
    | cons line rest =>
      have hrest := ih rest.length (Nat.lt_succ_self _) rest rfl
      cases hskip : line.isSkippable with
      | true =>
        rw [ofLines_skippable hskip]
        exact skip line rest hskip hrest
      | false =>
        cases hheader : BlockKind.ofHeader? line.text.toList with
        | none =>
          rw [ofLines_line hskip hheader]
          exact single line rest hskip hheader hrest
        | some kind =>
          cases hscan : Block.scan? kind rest with
          | none =>
            rw [ofLines_unclosed hskip hheader hscan]
            exact unclosed line rest kind hskip hheader hscan
          | some found =>
            -- the parts of the block and what follows it are shorter than the lines scanned
            have hshorter := Block.scan?_length hscan
            rw [ofLines_block hskip hheader hscan]
            refine block line rest kind found hskip hheader hscan (ih _ ?_ _ rfl)
              (fun part hpart => ih _ ?_ _ rfl) (ih _ ?_ _ rfl)
            · simp only [List.length_cons]
              omega
            · rw [Option.mem_def.1 hpart, Option.getD_some] at hshorter
              simp only [List.length_cons]
              omega
            · simp only [List.length_cons]
              omega

/-! ## What a block becomes -/

/-- Parses one after the other. -/
def join (bodies : List Parsed) : Parsed :=
  ⟨bodies.flatMap (·.stmts), bodies.flatMap (·.diagnostics)⟩

/-- The statement is a block whose header was read from some text. -/
def HasHeader : Stmt → Prop
  | .forLoop _ header _ => ∃ rest, ForHeader.parse rest = .ok header
  | .method _ header _ _ => ∃ rest, MethodHeader.parse rest = .ok header
  | .call _ _ _ => False
  | .command _ _ => False
  | _ => True

/-- A block with its header on a line becomes a statement at the place of the line with the bodies
inside, or a problem of the line, which takes the bodies with it. -/
inductive Becomes (line : Line) (bodies : List Parsed) : Parsed → Prop
  | malformed (e : ParseError) : Becomes line bodies (problem line e)
  | stmt {stmt : Stmt} (hplace : stmt.place = line.place)
      (hinside : stmt.inside = stmt :: insideAll (join bodies).stmts) (hheader : HasHeader stmt) :
      Becomes line bodies ⟨[stmt], (join bodies).diagnostics⟩

theorem becomes_ofHeader {α : Type} (line : Line) {header : Except ParseError α}
    {bodies : List Parsed} {build : α → Stmt} (hplace : ∀ a, (build a).place = line.place)
    (hinside : ∀ a, (build a).inside = build a :: insideAll (join bodies).stmts)
    (hheader : ∀ a, header = .ok a → HasHeader (build a)) :
    Becomes line bodies (ofHeader line header bodies build) := by
  cases header with
  | error e => exact .malformed e
  | ok a => exact .stmt (hplace a) (hinside a) (hheader a rfl)

/-- Only a conditional block can have a second body. -/
theorem becomes_ofBlock (line : Line) (kind : BlockKind) (lines : List Line) (body : Parsed)
    {elseBody : Option Parsed} (hplain : kind ≠ .conditional → elseBody = none) :
    Becomes line (body :: elseBody.toList) (ofBlock line kind lines body elseBody) := by
  have hone : (join [body]).stmts = body.stmts := List.flatMap_singleton ..
  have htwo (other : Parsed) : (join [body, other]).stmts = body.stmts ++ other.stmts := by
    rw [join, List.flatMap_cons, List.flatMap_singleton]
  cases kind with
  | whileLoop =>
    rw [hplain BlockKind.noConfusion]
    refine becomes_ofHeader line (fun _ => rfl) (fun cond => ?_) fun _ _ => trivial
    rw [Stmt.inside, Option.toList_none, hone]
  | forLoop =>
    rw [hplain BlockKind.noConfusion]
    refine becomes_ofHeader line (fun _ => rfl) (fun header => ?_) fun _ hparse => ⟨_, hparse⟩
    rw [Stmt.inside, Option.toList_none, hone]
  | method =>
    rw [hplain BlockKind.noConfusion]
    refine becomes_ofHeader line (fun _ => rfl) (fun header => ?_) fun _ hparse => ⟨_, hparse⟩
    rw [Stmt.inside, Option.toList_none, hone]
  | conditional =>
    cases elseBody with
    | none =>
      refine becomes_ofHeader line (fun _ => rfl) (fun cond => ?_) fun _ _ => trivial
      rw [Stmt.inside, Option.toList_none, hone]
    | some other =>
      refine becomes_ofHeader line (fun _ => rfl) (fun cond => ?_) fun _ _ => trivial
      rw [Stmt.inside, Option.toList_some, htwo, insideAll_append]

/-- Only conditional blocks have a second part. -/
theorem elseBody_of_scan? {kind : BlockKind} {lines : List Line} {block : Block}
    (h : Block.scan? kind lines = some block) (hkind : kind ≠ .conditional) :
    block.elseBody = none := by
  rw [Block.scan?, if_neg hkind] at h
  exact (Block.scanPlain?_free h).1

/-- A block that was found becomes a statement or a problem. -/
theorem becomes_of_scan? (line : Line) {kind : BlockKind} {lines : List Line} {block : Block}
    (h : Block.scan? kind lines = some block) :
    Becomes line (ofLines block.body :: (block.elseBody.map ofLines).toList)
      (ofBlock line kind block.body (ofLines block.body) (block.elseBody.map ofLines)) := by
  refine becomes_ofBlock line kind block.body (ofLines block.body) fun hkind => ?_
  rw [elseBody_of_scan? h hkind, Option.map_none]

/-! ## All statements that are read -/

/-- A line that opens no block is a call or a command. -/
theorem parseLine_cases {place : Place} {text : List Char} {stmt : Stmt}
    (h : Stmt.parseLine place text = .ok stmt) :
    (∃ name args, stmt = .call place name args) ∨
      ∃ cmd, Command.parse text = .ok cmd ∧ stmt = .command place cmd := by
  rw [Stmt.parseLine] at h
  cases hcall : afterKeyword? "call" text with
  | some rest =>
    rw [hcall] at h
    simp only at h
    split_ifs at h with hempty
    cases h
    exact Or.inl ⟨_, _, rfl⟩
  | none =>
    rw [hcall] at h
    cases hcmd : Command.parse text with
    | error e =>
      simp only [hcmd] at h
      cases h
    | ok cmd =>
      simp only [hcmd] at h
      cases h
      exact Or.inr ⟨cmd, rfl, rfl⟩

theorem place_of_parseLine {place : Place} {text : List Char} {stmt : Stmt}
    (h : Stmt.parseLine place text = .ok stmt) : stmt.place = place ∧ stmt.inside = [stmt] := by
  rcases parseLine_cases h with ⟨name, args, rfl⟩ | ⟨cmd, -, rfl⟩
  · exact ⟨rfl, by rw [Stmt.inside]⟩
  · exact ⟨rfl, by rw [Stmt.inside]⟩

/-- The only statement of a line that opens no block is the one on the line. -/
theorem parseLine_of_mem_ofLine {stmt : Stmt} (h : stmt ∈ insideAll (ofLine line).stmts) :
    Stmt.parseLine line.place line.text.toList = .ok stmt := by
  rw [ofLine] at h
  by_cases hterminator : isTerminator line.text.toList = true
  · rw [if_pos hterminator] at h
    exact absurd h not_mem_insideAll_nil
  by_cases helse : isElse line.text.toList = true
  · rw [if_neg hterminator, if_pos helse] at h
    exact absurd h not_mem_insideAll_nil
  rw [if_neg hterminator, if_neg helse] at h
  cases hparse : Stmt.parseLine line.place line.text.toList with
  | error e =>
    rw [hparse] at h
    exact absurd h not_mem_insideAll_nil
  | ok found =>
    simp only [hparse, insideAll_singleton, (place_of_parseLine hparse).2] at h
    rw [List.mem_singleton.1 h]

theorem mem_insideAll_join {stmt : Stmt} {bodies : List Parsed}
    (h : stmt ∈ insideAll (join bodies).stmts) :
    ∃ body ∈ bodies, stmt ∈ insideAll body.stmts := by
  induction bodies with
  | nil =>
    exact absurd h not_mem_insideAll_nil
  | cons body rest ih =>
    rw [join, List.flatMap_cons, insideAll_append] at h
    rcases List.mem_append.1 h with hbody | hrest
    · exact ⟨body, List.mem_cons_self, hbody⟩
    · obtain ⟨other, hother, hmem⟩ := ih hrest
      exact ⟨other, List.mem_cons_of_mem _ hother, hmem⟩

/-- The statement is read from a part of the block, at any depth. -/
def ReadIn (block : Block) (stmt : Stmt) : Prop :=
  ∃ part ∈ block.parts, stmt ∈ insideAll (ofLines part).stmts

theorem readIn_of_mem_join {block : Block} {stmt : Stmt}
    (h : stmt ∈ insideAll
      (join (ofLines block.body :: (block.elseBody.map ofLines).toList)).stmts) :
    ReadIn block stmt := by
  obtain ⟨body, hbody, hmem⟩ := mem_insideAll_join h
  rcases List.mem_cons.1 hbody with rfl | helse
  · exact ⟨block.body, List.mem_cons_self, hmem⟩
  · obtain ⟨part, hpart, rfl⟩ := Option.map_eq_some_iff.1 (Option.mem_toList.1 helse)
    exact ⟨part, List.mem_cons_of_mem _ (Option.mem_toList.2 hpart), hmem⟩

/-- A statement that comes from a block is the block itself, with all that is inside read from its
parts, or it is read from its parts. -/
theorem block_or_readIn (line : Line) {lines : List Line} {block : Block} {stmt : Stmt}
    (hscan : Block.scan? kind lines = some block)
    (h : stmt ∈ insideAll (ofBlock line kind block.body (ofLines block.body)
      (block.elseBody.map ofLines)).stmts) :
    (stmt ∈ (ofBlock line kind block.body (ofLines block.body)
        (block.elseBody.map ofLines)).stmts ∧
      HasHeader stmt ∧ ∀ inner ∈ insideAll stmt.bodies, ReadIn block inner) ∨
      ReadIn block stmt := by
  have hbecomes := becomes_of_scan? line hscan
  generalize ofBlock line kind block.body _ _ = parsed at h hbecomes ⊢
  cases hbecomes with
  | malformed e => exact absurd h not_mem_insideAll_nil
  | @stmt found _ hinside hheader =>
    have hbodies := (List.cons.inj ((inside_eq_cons found).symm.trans hinside)).2
    rw [insideAll_singleton, hinside] at h
    rcases List.mem_cons.1 h with rfl | hinner
    · refine Or.inl ⟨List.mem_cons_self, hheader, fun inner hinner => readIn_of_mem_join ?_⟩
      exact hbodies ▸ hinner
    · exact Or.inr (readIn_of_mem_join hinner)

/-- What holds of every statement that is read from a single line, and of every block by its header,
holds of all statements that are read from lines without blanks at their ends. -/
theorem forall_insideAll_ofLines {P : Stmt → Prop}
    (hline : ∀ place text stmt, trim text = text → Stmt.parseLine place text = .ok stmt → P stmt)
    (hblock : ∀ stmt, HasHeader stmt → P stmt) (lines : List Line)
    (htidy : ∀ line ∈ lines, line.Tidy) : ∀ stmt ∈ insideAll (ofLines lines).stmts, P stmt := by
  revert htidy
  refine ofLines_induction (motive := fun lines parsed => (∀ line ∈ lines, line.Tidy) →
    ∀ stmt ∈ insideAll parsed.stmts, P stmt) ?_ ?_ ?_ ?_ ?_ lines
  · exact fun _ stmt hstmt => absurd hstmt not_mem_insideAll_nil
  · exact fun line rest _ ih htidy => ih (List.forall_mem_cons.1 htidy).2
  · intro line rest _ _ ih htidy
    obtain ⟨htrim, hrest⟩ := List.forall_mem_cons.1 htidy
    rw [append, insideAll_append]
    refine List.forall_mem_append.2 ⟨fun stmt hstmt => ?_, ih hrest⟩
    exact hline line.place line.text.toList stmt htrim (parseLine_of_mem_ofLine hstmt)
  · exact fun line rest kind _ _ _ _ stmt hstmt => absurd hstmt not_mem_insideAll_nil
  · intro line rest kind block _ _ hscan ihbody ihelse ihrest htidy
    have hrest := (List.forall_mem_cons.1 htidy).2
    have hwithin := Block.scan?_within hscan
    have hparts := Block.forall_mem_parts ihbody ihelse
    rw [append, insideAll_append]
    refine List.forall_mem_append.2 ⟨fun stmt hstmt => ?_,
      ihrest fun line' hline' => hrest line' (hwithin.rest hline')⟩
    rcases block_or_readIn line hscan hstmt with ⟨-, hheader, -⟩ | ⟨part, hpart, hmem⟩
    · exact hblock stmt hheader
    · -- what stands in the bodies was read from lines of the block
      exact hparts part hpart
        (fun line' hline' => hrest line' (hwithin.parts part hpart hline')) stmt hmem

end Drawscript.Parsed
