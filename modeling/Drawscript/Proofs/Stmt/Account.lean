import Drawscript.Proofs.Source.Lines
import Drawscript.Proofs.Stmt.Reading

/-!
# Every line is accounted for

What is read from lines is held against the lines themselves. An account (`Parsed.Accounts`) marks
some of the lines, in order, each as carrying a statement or as being reported. The marks for
statements give the places of all statements, with those of a block after its header, and the marks
for reports give the places of all diagnostics. So no line is read twice or out of order, and none
is both read and reported. If nothing is reported, then all lines that are there to carry a
statement are marked, and none is lost.

`ofLines_accounts` finds an account for any lines. Accounts are put together in the same way as the
lines are: one after the other (`Accounts.append`), and those of the bodies of a block after that of
its header (`Becomes.accounts`).
-/

set_option autoImplicit false

namespace Drawscript

open Text

/-! ## Marks -/

/-- The lines with the given mark: `true` for those that carry a statement, `false` for those that
are reported. -/
def marked (flag : Bool) (marks : List (Line × Bool)) : List Line :=
  (marks.filter fun mark => mark.2 == flag).map Prod.fst

theorem marked_append (flag : Bool) (first second : List (Line × Bool)) :
    marked flag (first ++ second) = marked flag first ++ marked flag second := by
  simp [marked]

/-- The lines with one mark keep their order among all that are marked. -/
theorem marked_sublist (flag : Bool) (marks : List (Line × Bool)) :
    (marked flag marks).Sublist (marks.map Prod.fst) :=
  List.filter_sublist.map Prod.fst

theorem mem_marked {flag : Bool} {marks : List (Line × Bool)} {line : Line} :
    line ∈ marked flag marks ↔ (line, flag) ∈ marks := by
  simp [marked]

/-- Without a reported line, all lines marked carry a statement. -/
theorem marked_true_of_marked_false_nil {marks : List (Line × Bool)}
    (h : marked false marks = []) : marked true marks = marks.map Prod.fst := by
  have hall : ∀ mark ∈ marks, (mark.2 == true) = true := by
    intro mark hmark
    by_contra hfalse
    have hmem : mark.1 ∈ marked false marks :=
      mem_marked.2 (Bool.eq_false_iff.2 (mt beq_iff_eq.2 hfalse) ▸ hmark)
    rw [h] at hmem
    exact absurd hmem List.not_mem_nil
  rw [marked, List.filter_eq_self.2 hall]

namespace Parsed

/-! ## Accounts -/

/-- The marks account for what was parsed from the lines. -/
structure Accounts (parsed : Parsed) (lines : List Line) (marks : List (Line × Bool)) : Prop where
  inOrder : (marks.map Prod.fst).Sublist lines
  relevant : ∀ mark ∈ marks, mark.1.isSkippable = false
  stmts : (insideAll parsed.stmts).map Stmt.place = (marked true marks).map Line.place
  diagnostics : parsed.diagnostics.map Diagnostic.place =
    (marked false marks).map fun line => some line.place
  complete : parsed.diagnostics = [] → marks.map Prod.fst = lines.filter Line.carriesStatement

theorem accounts_nil : Accounts ⟨[], []⟩ [] [] where
  inOrder := List.Sublist.refl _
  relevant := List.forall_mem_nil _
  stmts := by rw [insideAll]; rfl
  diagnostics := rfl
  complete _ := rfl

theorem Accounts.append {first second : Parsed} {lines lines' : List Line}
    {marks marks' : List (Line × Bool)} (h : first.Accounts lines marks)
    (h' : second.Accounts lines' marks') :
    (first.append second).Accounts (lines ++ lines') (marks ++ marks') where
  inOrder := by
    rw [List.map_append]
    exact h.inOrder.append h'.inOrder
  relevant := List.forall_mem_append.2 ⟨h.relevant, h'.relevant⟩
  stmts := by
    rw [Parsed.append, insideAll_append, List.map_append, h.stmts, h'.stmts, marked_append,
      List.map_append]
  diagnostics := by
    rw [Parsed.append, List.map_append, h.diagnostics, h'.diagnostics, marked_append,
      List.map_append]
  complete hnone := by
    obtain ⟨hfirst, hsecond⟩ := List.append_eq_nil_iff.1 hnone
    rw [List.map_append, List.filter_append, h.complete hfirst, h'.complete hsecond]

/-- Lines that carry no statement may stand between those that were parsed. -/
theorem Accounts.thins {parsed : Parsed} {kept lines : List Line} {marks : List (Line × Bool)}
    (h : parsed.Accounts kept marks) (hthins : Block.Thins kept lines) :
    parsed.Accounts lines marks where
  inOrder := h.inOrder.trans hthins.sublist
  relevant := h.relevant
  stmts := h.stmts
  diagnostics := h.diagnostics
  complete hnone := (h.complete hnone).trans hthins.carriers

/-- A problem accounts for its line alone, whatever lines come after it. -/
theorem accounts_problem {line : Line} (hskip : line.isSkippable = false) (e : ParseError)
    (rest : List Line) : (problem line e).Accounts (line :: rest) [(line, false)] where
  inOrder := List.singleton_sublist.2 List.mem_cons_self
  relevant := List.forall_mem_singleton.2 hskip
  stmts := by rw [problem, insideAll]; rfl
  diagnostics := rfl
  complete hnone := by cases hnone

/-! ## Lines -/

theorem accounts_ofLine {line : Line} (hskip : line.isSkippable = false) :
    ∃ marks, (ofLine line).Accounts [line] marks := by
  rw [ofLine]
  by_cases hterminator : isTerminator line.text.toList = true
  · -- a terminator that closes nothing is passed over
    have hcarries : line.carriesStatement = false := by
      rw [Line.carriesStatement, hterminator, Bool.not_true, Bool.and_false, Bool.false_and]
    rw [if_pos hterminator]
    exact ⟨[], accounts_nil.thins ((Block.thins_refl []).drop hcarries)⟩
  by_cases helse : isElse line.text.toList = true
  · rw [if_neg hterminator, if_pos helse]
    exact ⟨_, accounts_problem hskip .strayElse []⟩
  rw [if_neg hterminator, if_neg helse]
  cases hparse : Stmt.parseLine line.place line.text.toList with
  | error e => exact ⟨_, accounts_problem hskip e []⟩
  | ok stmt =>
    obtain ⟨hplace, hinside⟩ := place_of_parseLine hparse
    refine ⟨[(line, true)], List.Sublist.refl _, List.forall_mem_singleton.2 hskip, ?_, rfl,
      fun _ => ?_⟩
    · rw [insideAll_singleton, hinside, List.map_singleton, hplace]
      rfl
    · have hcarries : line.carriesStatement = true := by
        rw [Line.carriesStatement, hskip, Bool.eq_false_iff.2 hterminator,
          Bool.eq_false_iff.2 helse]
        rfl
      rw [List.filter_cons_of_pos hcarries]
      rfl

/-! ## Blocks -/

theorem accounts_join {bodies : List Parsed} {parts : List (List Line)}
    (h : List.Forall₂ (fun body lines => ∃ marks, body.Accounts lines marks) bodies parts) :
    ∃ marks, (join bodies).Accounts parts.flatten marks := by
  induction h with
  | nil => exact ⟨[], accounts_nil⟩
  | cons hbody _ ih =>
    obtain ⟨marks, hmarks⟩ := hbody
    obtain ⟨more, hmore⟩ := ih
    exact ⟨marks ++ more, hmarks.append hmore⟩

/-- The mark of a header comes before those of its bodies. -/
theorem Becomes.accounts {line : Line} {bodies : List Parsed} {parsed : Parsed}
    (h : Becomes line bodies parsed) (hline : line.carriesStatement = true)
    (hskip : line.isSkippable = false) {parts : List (List Line)}
    (hbodies : List.Forall₂ (fun body lines => ∃ marks, body.Accounts lines marks) bodies parts) :
    ∃ marks, parsed.Accounts (line :: parts.flatten) marks := by
  cases h with
  | malformed e => exact ⟨_, accounts_problem hskip e parts.flatten⟩
  | stmt hplace hinside hheader =>
    obtain ⟨marks, hmarks⟩ := accounts_join hbodies
    refine ⟨(line, true) :: marks, hmarks.inOrder.cons_cons line,
      List.forall_mem_cons.2 ⟨hskip, hmarks.relevant⟩, ?_, hmarks.diagnostics, fun hnone => ?_⟩
    · rw [insideAll_singleton, hinside, List.map_cons, hplace, hmarks.stmts]
      rfl
    · rw [List.map_cons, hmarks.complete hnone, List.filter_cons_of_pos hline]

theorem accounts_ofBlock {line : Line} (hline : line.carriesStatement = true)
    (hskip : line.isSkippable = false) {kind : BlockKind} {lines : List Line} {block : Block}
    (hscan : Block.scan? kind lines = some block)
    (hbody : ∃ marks, (ofLines block.body).Accounts block.body marks)
    (helse : ∀ part ∈ block.elseBody, ∃ marks, (ofLines part).Accounts part marks) :
    ∃ marks, (ofBlock line kind block.body (ofLines block.body)
      (block.elseBody.map ofLines)).Accounts
        (line :: (block.body ++ block.elseBody.getD [])) marks := by
  have hbecomes := becomes_of_scan? line hscan
  cases hpart : block.elseBody with
  | none =>
    rw [hpart] at hbecomes
    exact hbecomes.accounts hline hskip (.cons hbody .nil)
  | some part =>
    rw [hpart] at hbecomes
    have hlines : block.body ++ part = [block.body, part].flatten := by simp
    rw [Option.getD_some, hlines]
    exact hbecomes.accounts hline hskip (.cons hbody (.cons (helse part hpart) .nil))

/-! ## Sources -/

/-- Every parse of lines without blanks at their ends has an account. -/
theorem ofLines_accounts (lines : List Line) (htidy : ∀ line ∈ lines, line.Tidy) :
    ∃ marks, (ofLines lines).Accounts lines marks := by
  -- by induction along the reading, with the condition on the lines as part of the statement
  revert htidy
  refine ofLines_induction (motive := fun lines parsed => (∀ line ∈ lines, line.Tidy) →
    ∃ marks, parsed.Accounts lines marks) ?_ ?_ ?_ ?_ ?_ lines
  · intro _
    exact ⟨[], accounts_nil⟩
  · intro line rest hskip ih htidy
    obtain ⟨marks, hmarks⟩ := ih (List.forall_mem_cons.1 htidy).2
    have hcarries := Line.carriesStatement_of_isSkippable hskip
    exact ⟨marks, hmarks.thins ((Block.thins_refl rest).drop hcarries)⟩
  · intro line rest hskip _ ih htidy
    obtain ⟨first, hfirst⟩ := accounts_ofLine hskip
    obtain ⟨marks, hmarks⟩ := ih (List.forall_mem_cons.1 htidy).2
    exact ⟨first ++ marks, hfirst.append hmarks⟩
  · intro line rest kind hskip _ _ _
    exact ⟨_, accounts_problem hskip _ rest⟩
  · intro line rest kind block hskip hheader hscan ihbody ihelse ihrest htidy
    obtain ⟨hline, hrest⟩ := List.forall_mem_cons.1 htidy
    have hwithin := Block.scan?_within hscan
    have hcarries := Line.Opens.carriesStatement ⟨hline, hheader⟩
    have hbody := ihbody fun line' hline' => hrest line' (hwithin.body hline')
    have helse (part : List Line) (hpart : part ∈ block.elseBody) :=
      ihelse part hpart fun line' hline' => hrest line' (hwithin.elseBody part hpart hline')
    obtain ⟨first, hfirst⟩ :=
      accounts_ofBlock hcarries hskip hscan hbody helse
    obtain ⟨marks, hmarks⟩ := ihrest fun line' hline' => hrest line' (hwithin.rest hline')
    -- the lines of the block and those after it are the lines scanned, thinned
    exact ⟨first ++ marks, (hfirst.append hmarks).thins ((Block.scan?_thins hscan).cons line)⟩

theorem ofSource_accounts (source : String) :
    ∃ marks, (ofSource source).Accounts (Line.split source) marks :=
  ofLines_accounts (Line.split source) fun _ hline => Line.tidy_of_mem_split hline

namespace Accounts

variable {source : String} {parsed : Parsed} {marks : List (Line × Bool)}

/-- The numbers of the lines marked go up. -/
theorem pairwise_number (h : parsed.Accounts (Line.split source) marks) :
    (marks.map Prod.fst).Pairwise fun line line' => line.number < line'.number :=
  (Line.pairwise_number_split source).sublist h.inOrder

/-- No line is marked twice, be it in two ways. -/
theorem disjoint (h : parsed.Accounts (Line.split source) marks) :
    ((marked true marks).map Line.number).Disjoint ((marked false marks).map Line.number) := by
  have hdistinct : (marks.map fun mark => mark.1.number).Nodup :=
    List.pairwise_map.2 ((List.pairwise_map.1 h.pairwise_number).imp Nat.ne_of_lt)
  intro number hcarried hreported
  obtain ⟨line, hline, rfl⟩ := List.mem_map.1 hcarried
  obtain ⟨line', hline', hnumber⟩ := List.mem_map.1 hreported
  have hsame := List.inj_on_of_nodup_map hdistinct (mem_marked.1 hline)
    (mem_marked.1 hline') hnumber.symm
  cases hsame

theorem stmt_lines (h : parsed.Accounts (Line.split source) marks) :
    ((insideAll parsed.stmts).map fun stmt => stmt.place.line) =
      (marked true marks).map Line.number := by
  have hlines := congrArg (List.map Place.line) h.stmts
  rw [List.map_map, List.map_map] at hlines
  exact hlines

theorem diagnostic_lines (h : parsed.Accounts (Line.split source) marks) :
    (parsed.diagnostics.map fun d => d.place.map Place.line) =
      ((marked false marks).map Line.number).map some := by
  have hlines := congrArg (List.map (Option.map Place.line)) h.diagnostics
  rw [List.map_map, List.map_map] at hlines
  rw [List.map_map]
  exact hlines

end Accounts

end Parsed

/-- Reading a source neither loses nor repeats nor reorders lines. The numbers of the lines of its
statements, each block header before what stands in its bodies, go up, and so do the numbers of the
lines that are reported; no line is in both lists. If nothing is reported, the lines of the
statements are just the lines of the source that are neither blank nor comments, do not close a
block and are not a bare `else`. -/
theorem ofSource_lines_in_order (source : String) :
    let parsed := Parsed.ofSource source
    let stmtLines := (insideAll parsed.stmts).map fun stmt => stmt.place.line
    ∃ reportLines : List Nat,
      (parsed.diagnostics.map fun d => d.place.map Place.line) = reportLines.map some ∧
      stmtLines.Pairwise (· < ·) ∧ reportLines.Pairwise (· < ·) ∧
      stmtLines.Disjoint reportLines ∧
      (parsed.diagnostics = [] →
        stmtLines = ((Line.split source).filter Line.carriesStatement).map Line.number) := by
  intro parsed stmtLines
  obtain ⟨marks, h⟩ := Parsed.ofSource_accounts source
  have hstmts : stmtLines = (marked true marks).map Line.number := h.stmt_lines
  have hpairwise {lines : List Line} (hlines : lines.Sublist (marks.map Prod.fst)) :
      (lines.map Line.number).Pairwise (· < ·) :=
    List.pairwise_map.2 (h.pairwise_number.sublist hlines)
  refine ⟨(marked false marks).map Line.number, h.diagnostic_lines, ?_, ?_, ?_, ?_⟩
  · rw [hstmts]
    exact hpairwise (marked_sublist true marks)
  · exact hpairwise (marked_sublist false marks)
  · rw [hstmts]
    exact h.disjoint
  · intro hnone
    have hreported : marked false marks = [] := by
      have hplaces := h.diagnostics
      rw [hnone] at hplaces
      exact List.map_eq_nil_iff.1 hplaces.symm
    rw [hstmts, marked_true_of_marked_false_nil hreported, h.complete hnone]

/-- A source with blank lines, a comment and a divided block. -/
def divided : String :=
  "int a\n\n* note\nif a\n  write 1\nelse\n\n  write 2\nend if"

theorem diagnostics_divided : (Parsed.ofSource divided).diagnostics = [] := by
  decide +kernel

/-- The statements of the source stand on its first, fourth, fifth and eighth line. -/
theorem ofSource_lines_in_order_divided :
    (Parsed.ofSource divided).diagnostics = [] ∧
      ((insideAll (Parsed.ofSource divided).stmts).map fun stmt => stmt.place.line) =
        [1, 4, 5, 8] := by
  obtain ⟨-, -, -, -, -, hlines⟩ := ofSource_lines_in_order divided
  refine ⟨diagnostics_divided, (hlines diagnostics_divided).trans ?_⟩
  decide +kernel

end Drawscript
