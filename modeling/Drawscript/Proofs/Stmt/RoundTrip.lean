import Drawscript.Proofs.Source.Lines
import Drawscript.Proofs.Stmt.Command
import Drawscript.Proofs.Stmt.Header
import Drawscript.Proofs.Stmt.Written

/-!
# Programs read, printed and read again

The statements read from any source have a canonical text which is read without any problem as the
same statements, up to places and the source lines of methods (`ofSource_source`).

The proof follows the reading of the source. `Printable lines stmts` says what is known of
statements that were read from lines: their canonical lines are a complete program for the same
statements, and a plain kind of block is closed in them only if it is closed in the lines read. The
latter is what keeps the body of a plain block free of terminators of its kind.
-/

set_option autoImplicit false

namespace Drawscript

open Text Stmt

/-! ## Lines with given texts -/

theorem Line.Opens.afterKeyword? {line : Line} {kind : BlockKind} (h : line.Opens kind) :
    afterKeyword? kind.keyword line.text.toList = some (firstWord line.text.toList).2 :=
  (afterKeyword?_eq_some_iff kind.isWord_keyword h.tidy).2 (Prod.ext h.lead_eq rfl)

/-- A canonical header opens its block, and what it says is found after the keyword. -/
theorem opens_of_text {line : Line} {kind : BlockKind} {header : List Char}
    (h : line.text.toList = trim (phrase kind.keyword header)) :
    line.Opens kind ∧ afterKeyword? kind.keyword line.text.toList = some (trim header) := by
  have hfirst : firstWord line.text.toList = (kind.keyword.toList, trim header) := by
    rw [h, firstWord_trim, firstWord_phrase kind.isWord_keyword]
  have htidy : line.Tidy := by
    rw [Line.Tidy, h, trim_trim]
  have hopens : line.Opens kind :=
    ⟨htidy, (ofHeader?_eq_some_iff htidy).2 (congrArg Prod.fst hfirst)⟩
  refine ⟨hopens, ?_⟩
  rw [hopens.afterKeyword?, hfirst]

theorem closes_of_text {line : Line} {kind : BlockKind}
    (h : line.text.toList = trim kind.closing.toList) : line.Closes kind where
  tidy := by rw [Line.Tidy, h, trim_trim]
  closes := by
    rw [h]
    cases kind <;> decide

theorem divides_of_text {line : Line} (h : line.text.toList = trim "else".toList) :
    line.Divides where
  tidy := by rw [Line.Tidy, h, trim_trim]
  isElse := by
    rw [h]
    decide

/-- Lines with the texts of a block are a header, the lines inside, and a terminator. -/
theorem exists_of_texts_print {kind : BlockKind} {header : List Char} {inner : List (List Char)}
    {printed : List Line}
    (h : printed.map (fun line => line.text.toList) = (kind.print header inner).map trim) :
    ∃ first body last, printed = first :: (body ++ [last]) ∧ first.Opens kind ∧
      afterKeyword? kind.keyword first.text.toList = some (trim header) ∧
      body.map (fun line => line.text.toList) = inner.map trim ∧ last.Closes kind := by
  rw [BlockKind.print, List.map_cons, List.map_append] at h
  obtain ⟨first, others, rfl, hfirst, hothers⟩ := List.map_eq_cons_iff.1 h
  obtain ⟨body, lasts, rfl, hbody, hlasts⟩ := List.map_eq_append_iff.1 hothers
  obtain ⟨last, none, rfl, hlast, hnone⟩ := List.map_eq_cons_iff.1 hlasts
  obtain rfl := List.map_eq_nil_iff.1 hnone
  obtain ⟨hopens, hafter⟩ := opens_of_text hfirst
  exact ⟨first, body, last, rfl, hopens, hafter, hbody, closes_of_text hlast⟩

/-- A block is closed in its canonical lines by its own terminator and by what is closed inside. -/
theorem closes_print {kind kind' : BlockKind} (hkind : kind ≠ kind') {header : List Char}
    {inner : List (List Char)} (hinner : ∀ text ∈ inner, kind'.closes (trim text) = false) :
    ∀ text ∈ kind.print header inner, kind'.closes (trim text) = false := by
  refine List.forall_mem_cons.2 ⟨?_, List.forall_mem_append.2 ⟨hinner, ?_⟩⟩
  · refine closes_eq_false_of_isMark ?_ kind'
    rw [firstWord_trim, firstWord_phrase kind.isWord_keyword]
    exact isMark_keyword kind
  · refine List.forall_mem_singleton.2 ?_
    revert hkind
    cases kind <;> cases kind' <;> decide

theorem oneLine_print {kind : BlockKind} {header : List Char} (hheader : OneLine header)
    {inner : List (List Char)} (hinner : ∀ text ∈ inner, OneLine text) :
    ∀ text ∈ kind.print header inner, OneLine text := by
  refine List.forall_mem_cons.2 ⟨?_, List.forall_mem_append.2 ⟨hinner, ?_⟩⟩
  · exact hheader.phrase (by cases kind <;> decide)
  · exact List.forall_mem_singleton.2 (by cases kind <;> decide)

/-! ## Statements on one line -/

/-- A statement read from a line is read, up to its place, from its canonical line. -/
structure RereadsLine (stmt : Stmt) (line : List Char) : Prop where
  print : stmt.print = [line]
  simple : IsSimple (trim line)
  oneLine : OneLine line
  again : ∀ place, ∃ again, parseLine place (trim line) = .ok again ∧ again.bare = stmt.bare

/-- The canonical line of a command that was read is read as the same command. -/
theorem rereadsLine_command {text : List Char} (hsimple : IsSimple text) (hone : OneLine text)
    (hfirst : (firstWord text).1 ≠ "call".toList) {cmd : Command}
    (h : Command.parse text = .ok cmd) (place : Place) :
    RereadsLine (.command place cmd) cmd.print := by
  have hstable := Command.stable_of_parse hsimple hfirst h
  refine ⟨by rw [Stmt.print], hstable.simple, hstable.oneLine hone, fun place' =>
    ⟨.command place' cmd, ?_, by rw [bare, bare]⟩⟩
  have hcall : (firstWord (trim cmd.print)).1 ≠ "call".toList := by
    rw [firstWord_trim]
    exact hstable.call
  rw [parseLine, afterKeyword?_eq_none (by decide) (trim_trim _) hcall, hstable.again]

/-- So is that of a call, whose arguments are listed with commas. -/
theorem rereadsLine_call {name : List Char} (hname : IsWord name) {args : List (List Char)}
    (hargs : AreArgs args) (honeName : OneLine name) (honeArgs : ∀ arg ∈ args, OneLine arg)
    (place : Place) :
    RereadsLine (.call place (String.ofList name) (args.map String.ofList))
      (phrase "call" (name ++ ' ' :: List.intercalate [',', ' '] args)) := by
  have hcall : IsWord "call".toList := by decide
  have hlisted : listed (args.map String.ofList) = List.intercalate [',', ' '] args := by
    rw [listed, List.map_map]
    exact congrArg _
      ((List.map_congr_left fun arg _ => String.toList_ofList).trans (List.map_id args))
  have hrest : firstWord (name ++ ' ' :: List.intercalate [',', ' '] args) =
      (name, trim (List.intercalate [',', ' '] args)) := by
    rw [firstWord_append hname fun c hc => by cases hc; decide]
    exact congrArg _ (trim_space_cons _)
  refine ⟨?_, isSimple_phrase hcall _ (by decide), ?_, fun place' =>
    ⟨.call place' (String.ofList name) (args.map String.ofList), ?_, by rw [bare, bare]⟩⟩
  · rw [Stmt.print, hlisted, String.toList_ofList, spaced_pair]
  · refine OneLine.phrase (honeName.append ?_) (by decide)
    refine List.not_mem_cons_of_ne_of_not_mem (by decide) ?_
    exact oneLine_intercalate (by decide) honeArgs
  · have hafter : afterKeyword? "call"
        (trim (phrase "call" (name ++ ' ' :: List.intercalate [',', ' '] args))) =
        some (trim (name ++ ' ' :: List.intercalate [',', ' '] args)) := by
      rw [afterKeyword?_eq_some_iff hcall (trim_trim _), firstWord_trim, firstWord_phrase hcall]
    have hempty : name.isEmpty = false := List.isEmpty_eq_false_iff.2 hname.ne_nil
    rw [parseLine, hafter]
    simp only [firstWord_trim, hrest, hempty, callArgs_intercalate hargs]
    rfl

/-- Every statement read from a line of its own has one canonical line, from which it is read
again. -/
theorem exists_rereadsLine {text : List Char} (hsimple : IsSimple text) (hone : OneLine text)
    {place : Place} {stmt : Stmt} (h : parseLine place text = .ok stmt) :
    ∃ line, RereadsLine stmt line := by
  have hcall : IsWord "call".toList := by decide
  rw [parseLine] at h
  cases hafter : afterKeyword? "call" text with
  | none =>
    have hfirst : (firstWord text).1 ≠ "call".toList := by
      intro hfirst
      rw [(afterKeyword?_eq_some_iff hcall hsimple.trimmed).2 (Prod.ext hfirst rfl)] at hafter
      cases hafter
    rw [hafter] at h
    cases hcmd : Command.parse text with
    | error e =>
      rw [hcmd] at h
      cases h
    | ok cmd =>
      rw [hcmd] at h
      cases h
      exact ⟨cmd.print, rereadsLine_command hsimple hone hfirst hcmd place⟩
  | some rest =>
    have hfirst := (afterKeyword?_eq_some_iff hcall hsimple.trimmed).1 hafter
    have hrest : rest ⊆ text := by
      have hsubset := firstWord_snd_subset text
      rwa [hfirst] at hsubset
    rw [hafter] at h
    simp only at h
    by_cases hname : (firstWord rest).1.isEmpty = true
    · rw [if_pos hname] at h
      cases h
    · rw [if_neg hname] at h
      cases h
      have hword : IsWord (firstWord rest).1 :=
        ⟨fun hnil => hname (List.isEmpty_iff.2 hnil), firstWord_fst_nonblank rest⟩
      have honeRest := hone.of_subset hrest
      obtain ⟨hargs, hsubset⟩ := areArgs_callArgs (firstWord rest).2
      refine ⟨_, rereadsLine_call hword hargs (honeRest.of_subset (firstWord_fst_subset rest))
        (fun arg harg => ?_) place⟩
      exact (honeRest.of_subset (firstWord_snd_subset rest)).of_subset (hsubset arg harg)

/-! ## Statements read from lines -/

/-- What is known of statements that were read from lines. -/
structure Printable (lines : List Line) (stmts : List Stmt) : Prop where
  oneLine : ∀ text ∈ printAll stmts, OneLine text
  free : ∀ kind ≠ BlockKind.conditional,
    (∀ line ∈ lines, kind.closes line.text.toList = false) →
    ∀ text ∈ printAll stmts, kind.closes (trim text) = false
  written : ∀ printed : List Line,
    printed.map (fun line => line.text.toList) = (printAll stmts).map trim →
    ∃ again, Written printed again ∧ bareAll again = bareAll stmts

namespace Printable

theorem nil (lines : List Line) : Printable lines [] where
  oneLine := nofun
  free _ _ _ := nofun
  written printed h := by
    obtain rfl : printed = [] := List.map_eq_nil_iff.1 h
    exact ⟨[], .nil, rfl⟩

theorem mono {lines lines' : List Line} {stmts : List Stmt} (h : Printable lines stmts)
    (hlines : lines ⊆ lines') : Printable lines' stmts where
  oneLine := h.oneLine
  free kind hkind hfree := h.free kind hkind fun line hline => hfree line (hlines hline)
  written := h.written

/-- Statements in a row are printable if the first and the second ones are. -/
theorem append {lines : List Line} {first second : List Stmt} (h : Printable lines first)
    (h' : Printable lines second) : Printable lines (first ++ second) where
  oneLine := by
    rw [printAll_append]
    exact List.forall_mem_append.2 ⟨h.oneLine, h'.oneLine⟩
  free kind hkind hfree := by
    rw [printAll_append]
    exact List.forall_mem_append.2 ⟨h.free kind hkind hfree, h'.free kind hkind hfree⟩
  written printed htexts := by
    rw [printAll_append, List.map_append] at htexts
    obtain ⟨before, after, rfl, hbefore, hafter⟩ := List.map_eq_append_iff.1 htexts
    obtain ⟨again, hwritten, hbare⟩ := h.written before hbefore
    obtain ⟨again', hwritten', hbare'⟩ := h'.written after hafter
    refine ⟨again ++ again', hwritten.append hwritten', ?_⟩
    rw [bareAll_append, bareAll_append, hbare, hbare']

/-- A statement on one line is printable among any lines: its line closes no block. -/
theorem of_line {lines : List Line} {stmt : Stmt} {text : List Char} (h : RereadsLine stmt text) :
    Printable lines [stmt] := by
  have hprint : printAll [stmt] = [text] := (printAll_singleton stmt).trans h.print
  refine ⟨?_, fun kind _ _ => ?_, fun printed htexts => ?_⟩
  · rw [hprint]
    exact List.forall_mem_singleton.2 h.oneLine
  · rw [hprint]
    exact List.forall_mem_singleton.2 (h.simple.closes kind)
  · rw [hprint] at htexts
    obtain ⟨line, none, rfl, hline, hnone⟩ := List.map_eq_cons_iff.1 htexts
    obtain rfl := List.map_eq_nil_iff.1 hnone
    obtain ⟨again, hparse, hbare⟩ := h.again line.place
    rw [← hline] at hparse
    refine ⟨[again], .single (hline ▸ h.simple) hparse, ?_⟩
    rw [bareAll_singleton, bareAll_singleton, hbare]

/-- A header builds the statement again around bodies that are the same up to places. -/
def Rebuilds (kind : BlockKind) (header : List Char) (inner : List Stmt)
    (elseInner : Option (List Stmt)) (stmt : Stmt) : Prop :=
  ∀ (first : Line) (body : List Line) (inner' : List Stmt) (elseInner' : Option (List Stmt)),
    afterKeyword? kind.keyword first.text.toList = some (trim header) →
    bareAll inner' = bareAll inner → elseInner'.map bareAll = elseInner.map bareAll →
    ∃ again, Parsed.ofBlock first kind body ⟨inner', []⟩ (elseInner'.map fun stmts => ⟨stmts, []⟩) =
      ⟨[again], []⟩ ∧ again.bare = stmt.bare

/-- A block with one part. The body of a plain block does not close its kind, which is closed among
the lines that were read. -/
theorem block {kind : BlockKind} {lines body : List Line} {stmt : Stmt} {header : List Char}
    {inner : List Stmt} (hprint : stmt.print = kind.print header (printAll inner))
    (hheader : OneLine header) (hbuild : Rebuilds kind header inner none stmt)
    (hinner : Printable body inner) (hbody : body ⊆ lines)
    (hplain : kind ≠ .conditional → (∀ line ∈ body, kind.closes line.text.toList = false) ∧
      ∃ last ∈ lines, kind.closes last.text.toList = true) : Printable lines [stmt] := by
  have hlines := (printAll_singleton stmt).trans hprint
  refine ⟨?_, fun kind' hkind' hfree => ?_, fun printed htexts => ?_⟩
  · rw [hlines]
    exact oneLine_print hheader hinner.oneLine
  · rw [hlines]
    refine closes_print ?_ (hinner.free kind' hkind' fun line hline => hfree line (hbody hline))
    -- the kind of the block itself was closed by the terminator that was read
    rintro rfl
    obtain ⟨-, last, hlast, hcloses⟩ := hplain hkind'
    rw [hfree last hlast] at hcloses
    cases hcloses
  · rw [hlines] at htexts
    obtain ⟨first, printed, last, rfl, hfirst, hafter, hbodytexts, hlast⟩ :=
      exists_of_texts_print htexts
    obtain ⟨again, hwritten, hbare⟩ := hinner.written printed hbodytexts
    obtain ⟨stmt', hblock, hbare'⟩ := hbuild first printed again none hafter hbare rfl
    refine ⟨[stmt'], ?_, by rw [bareAll_singleton, bareAll_singleton, hbare']⟩
    by_cases hkind : kind = .conditional
    · subst hkind
      exact .ifThen hfirst hwritten hlast hblock
    · -- the printed body does not close the block, since the body that was read does not
      refine .plain hkind hfirst hwritten (fun line hline => ?_) hlast hblock
      have hmem : line.text.toList ∈ (printAll inner).map trim :=
        hbodytexts ▸ List.mem_map_of_mem hline
      obtain ⟨text, htext, heq⟩ := List.mem_map.1 hmem
      rw [← heq]
      exact hinner.free kind hkind (hplain hkind).1 text htext

/-- A conditional with two parts is printable if both parts are. -/
theorem ifElse {lines body elseBody : List Line} {stmt : Stmt} {header : List Char}
    {inner elseInner : List Stmt}
    (hprint : stmt.print =
      BlockKind.conditional.print header (printAll inner ++ "else".toList :: printAll elseInner))
    (hheader : OneLine header) (hbuild : Rebuilds .conditional header inner (some elseInner) stmt)
    (hinner : Printable body inner) (hbody : body ⊆ lines) (helse : Printable elseBody elseInner)
    (helseBody : elseBody ⊆ lines) : Printable lines [stmt] := by
  have hlines := (printAll_singleton stmt).trans hprint
  refine ⟨?_, fun kind' hkind' hfree => ?_, fun printed htexts => ?_⟩
  · rw [hlines]
    refine oneLine_print hheader (List.forall_mem_append.2 ⟨hinner.oneLine, ?_⟩)
    exact List.forall_mem_cons.2 ⟨by decide, helse.oneLine⟩
  · rw [hlines]
    refine closes_print hkind'.symm (List.forall_mem_append.2
      ⟨hinner.free kind' hkind' fun line hline => hfree line (hbody hline), ?_⟩)
    refine List.forall_mem_cons.2 ⟨by cases kind' <;> decide, ?_⟩
    exact helse.free kind' hkind' fun line hline => hfree line (helseBody hline)
  · rw [hlines] at htexts
    obtain ⟨first, inside, last, rfl, hfirst, hafter, htexts, hlast⟩ := exists_of_texts_print htexts
    rw [List.map_append, List.map_cons] at htexts
    obtain ⟨printed, others, rfl, hbodytexts, hothers⟩ := List.map_eq_append_iff.1 htexts
    obtain ⟨middle, elsePrinted, rfl, hmiddle, helsetexts⟩ := List.map_eq_cons_iff.1 hothers
    obtain ⟨again, hwritten, hbare⟩ := hinner.written printed hbodytexts
    obtain ⟨elseAgain, helseWritten, helseBare⟩ := helse.written elsePrinted helsetexts
    obtain ⟨stmt', hblock, hbare'⟩ := hbuild first printed again (some elseAgain) hafter hbare
      (congrArg some helseBare)
    refine ⟨[stmt'], ?_, by rw [bareAll_singleton, bareAll_singleton, hbare']⟩
    have hall :=
      Written.ifElse hfirst hwritten (divides_of_text hmiddle) helseWritten hlast hblock
    rwa [List.append_assoc, List.cons_append]

section

variable (place : Place) (inner : List Stmt)

/-- A condition that is not blank is read back as it stands. -/
theorem condition_of_isTrimmed {cond : String} (hcond : IsTrimmed cond.toList) (kind : BlockKind) :
    Parsed.condition kind (trim cond.toList) = .ok cond := by
  rw [Parsed.condition, hcond.trim_eq, List.isEmpty_eq_false_iff.2 hcond.ne_nil,
    String.ofList_toList]
  rfl

theorem rebuilds_whileLoop {cond : String} (hcond : IsTrimmed cond.toList) :
    Rebuilds .whileLoop cond.toList inner none (.whileLoop place cond inner) := by
  intro first body inner' elseInner' hafter hbare _
  refine ⟨.whileLoop first.place cond inner', ?_, by rw [bare, bare, hbare]⟩
  rw [Parsed.ofBlock.eq_def, hafter, Option.getD_some]
  simp only [condition_of_isTrimmed hcond]
  rfl

theorem rebuilds_forLoop {header : ForHeader}
    (hheader : ForHeader.parse (trim header.print) = .ok header) :
    Rebuilds .forLoop header.print inner none (.forLoop place header inner) := by
  intro first body inner' elseInner' hafter hbare _
  refine ⟨.forLoop first.place header inner', ?_, by rw [bare, bare, hbare]⟩
  rw [Parsed.ofBlock.eq_def, hafter, Option.getD_some]
  simp only [hheader]
  rfl

theorem rebuilds_method (lines : List Line) {header : MethodHeader}
    (hheader : MethodHeader.parse (trim header.print) = .ok header) :
    Rebuilds .method header.print inner none (.method place header lines inner) := by
  intro first body inner' elseInner' hafter hbare _
  refine ⟨.method first.place header body inner', ?_, by rw [bare, bare, hbare]⟩
  rw [Parsed.ofBlock.eq_def, hafter, Option.getD_some]
  simp only [hheader]
  rfl

theorem rebuilds_ifThen {cond : String} (hcond : IsTrimmed cond.toList) :
    Rebuilds .conditional cond.toList inner none (.ifThen place cond inner) := by
  intro first body inner' elseInner' hafter hbare helse
  obtain rfl := Option.map_eq_none_iff.1 helse
  refine ⟨.ifThen first.place cond inner', ?_, by rw [bare, bare, hbare]⟩
  rw [Parsed.ofBlock.eq_def, hafter, Option.getD_some]
  simp only [condition_of_isTrimmed hcond]
  rfl

theorem rebuilds_ifElse (elseInner : List Stmt) {cond : String} (hcond : IsTrimmed cond.toList) :
    Rebuilds .conditional cond.toList inner (some elseInner)
      (.ifElse place cond inner elseInner) := by
  intro first body inner' elseInner' hafter hbare helse
  obtain ⟨stmts, rfl, hstmts⟩ := Option.map_eq_some_iff.1 helse
  refine ⟨.ifElse first.place cond inner' stmts, ?_, by rw [bare, bare, hbare, hstmts]⟩
  rw [Parsed.ofBlock.eq_def, hafter, Option.getD_some]
  simp only [condition_of_isTrimmed hcond]
  rfl

end

/-- The statement of a block, if its header is well formed. -/
theorem of_ofHeader {α : Type} {line : Line} {header : Except ParseError α} {bodies : List Parsed}
    {build : α → Stmt} {lines : List Line}
    (h : ∀ found, header = .ok found → Printable lines [build found]) :
    Printable lines (Parsed.ofHeader line header bodies build).stmts := by
  cases header with
  | error e => exact nil lines
  | ok found => exact h found rfl

theorem of_condition {line : Line} {kind : BlockKind} {rest : List Char} {bodies : List Parsed}
    {build : String → Stmt} {lines : List Line} (hrest : trim rest = rest)
    (h : IsTrimmed rest → Printable lines [build (String.ofList rest)]) :
    Printable lines (Parsed.ofHeader line (Parsed.condition kind rest) bodies build).stmts := by
  refine of_ofHeader fun found hfound => ?_
  rw [Parsed.condition] at hfound
  by_cases hempty : rest.isEmpty = true
  · rw [if_pos hempty] at hfound
    cases hfound
  · rw [if_neg hempty] at hfound
    cases hfound
    exact h ⟨fun hnil => hempty (List.isEmpty_iff.2 hnil), hrest⟩

/-- What is read from a block is printable if what is read from its parts is. -/
theorem of_ofBlock {line : Line} {kind : BlockKind} (hopens : line.Opens kind)
    (hone : OneLine line.text.toList) {lines : List Line} {block : Block}
    (hscan : Block.scan? kind lines = some block)
    (hbody : Printable block.body (Parsed.ofLines block.body).stmts)
    (helse : ∀ part ∈ block.elseBody, Printable part (Parsed.ofLines part).stmts) :
    Printable lines
      (Parsed.ofBlock line kind block.body (Parsed.ofLines block.body)
        (block.elseBody.map Parsed.ofLines)).stmts := by
  have hwithin := Block.scan?_within hscan
  -- a plain block ends at the first terminator of its kind
  have hplain : kind ≠ .conditional →
      (∀ line ∈ block.body, kind.closes line.text.toList = false) ∧
      ∃ last ∈ lines, kind.closes last.text.toList = true := by
    intro hkind
    rw [Block.scan?, if_neg hkind] at hscan
    exact (Block.scanPlain?_free hscan).2
  have hrest := trim_firstWord_snd line.text.toList
  have honeRest : OneLine (firstWord line.text.toList).2 :=
    hone.of_subset (firstWord_snd_subset _)
  have hcond (hne : IsTrimmed (firstWord line.text.toList).2) :
      IsTrimmed (String.ofList (firstWord line.text.toList).2).toList := by
    rwa [String.toList_ofList]
  have honeCond : OneLine (String.ofList (firstWord line.text.toList).2).toList := by
    rwa [String.toList_ofList]
  rw [Parsed.ofBlock.eq_def, hopens.afterKeyword?, Option.getD_some]
  cases kind with
  | whileLoop =>
    refine of_condition hrest fun hne => ?_
    exact .block (by rw [Stmt.print]) honeCond (rebuilds_whileLoop _ _ (hcond hne)) hbody
      hwithin.body hplain
  | forLoop =>
    refine of_ofHeader fun header hheader => ?_
    obtain ⟨hagain, honeHeader⟩ := ForHeader.parse_print hheader
    exact .block (by rw [Stmt.print]) (honeHeader honeRest) (rebuilds_forLoop _ _ hagain) hbody
      hwithin.body hplain
  | method =>
    refine of_ofHeader fun header hheader => ?_
    obtain ⟨hagain, honeHeader⟩ := MethodHeader.parse_print hheader
    exact .block (by rw [Stmt.print]) (honeHeader honeRest) (rebuilds_method _ _ _ hagain) hbody
      hwithin.body hplain
  | conditional =>
    cases hpart : block.elseBody with
    | none =>
      refine of_condition hrest fun hne => ?_
      exact .block (by rw [Stmt.print]) honeCond (rebuilds_ifThen _ _ (hcond hne)) hbody
        hwithin.body hplain
    | some part =>
      refine of_condition hrest fun hne => ?_
      exact .ifElse (by rw [Stmt.print]) honeCond (rebuilds_ifElse _ _ _ (hcond hne)) hbody
        hwithin.body (helse part hpart) (hwithin.elseBody part hpart)

/-- What is read from a line outside of blocks is printable. -/
theorem of_ofLine {line : Line} (htidy : line.Tidy) (hone : OneLine line.text.toList)
    (hskip : line.isSkippable = false)
    (hheader : BlockKind.ofHeader? line.text.toList = none) (lines : List Line) :
    Printable lines (Parsed.ofLine line).stmts := by
  rw [Parsed.ofLine]
  by_cases hterminator : isTerminator line.text.toList = true
  · rw [if_pos hterminator]
    exact nil lines
  rw [if_neg hterminator]
  by_cases helse : isElse line.text.toList = true
  · rw [if_pos helse]
    exact nil lines
  rw [if_neg helse]
  cases hparse : parseLine line.place line.text.toList with
  | error e => exact nil lines
  | ok stmt =>
    obtain ⟨hne, hstar⟩ := Line.starts_of_isSkippable hskip
    have hsimple : IsSimple line.text.toList :=
      ⟨htidy, hne, hstar, hheader, Bool.eq_false_iff.2 hterminator, Bool.eq_false_iff.2 helse⟩
    obtain ⟨text, hreread⟩ := exists_rereadsLine hsimple hone hparse
    exact of_line hreread

/-- Whatever is read from tidy lines is printable. -/
theorem of_ofLines (lines : List Line)
    (hlines : ∀ line ∈ lines, line.Tidy ∧ OneLine line.text.toList) :
    Printable lines (Parsed.ofLines lines).stmts := by
  revert hlines
  -- what is read from some of the lines is printable with respect to all of them (`mono`)
  refine Parsed.ofLines_induction
    (motive := fun lines parsed => (∀ line ∈ lines, line.Tidy ∧ OneLine line.text.toList) →
      Printable lines parsed.stmts) ?_ ?_ ?_ ?_ ?_ lines
  · exact fun _ => nil []
  · intro line rest _ ih hlines
    exact (ih (List.forall_mem_cons.1 hlines).2).mono (List.subset_cons_self _ _)
  · intro line rest hskip hheader ih hlines
    obtain ⟨⟨htidy, hone⟩, hrest⟩ := List.forall_mem_cons.1 hlines
    exact (of_ofLine htidy hone hskip hheader _).append
      ((ih hrest).mono (List.subset_cons_self _ _))
  · intro line rest kind _ _ _ _
    exact nil _
  · intro line rest kind block _ hheader hscan ihbody ihelse ihrest hlines
    obtain ⟨⟨htidy, hone⟩, hrest⟩ := List.forall_mem_cons.1 hlines
    have hwithin := Block.scan?_within hscan
    have hblock := of_ofBlock ⟨htidy, hheader⟩ hone hscan
      (ihbody fun line hline => hrest line (hwithin.body hline))
      fun part hpart => ihelse part hpart fun line hline =>
        hrest line (hwithin.elseBody part hpart hline)
    have hafter := ihrest fun line hline => hrest line (hwithin.rest hline)
    exact (hblock.mono (List.subset_cons_self _ _)).append
      (hafter.mono (List.subset_cons_of_subset _ hwithin.rest))

end Printable

/-! ## Sources -/

theorem texts_ofPieces (number offset : Nat) (pieces : List (List Char)) :
    (Line.ofPieces number offset pieces).map (fun line => line.text.toList) = pieces.map trim := by
  induction pieces generalizing number offset with
  | nil => rfl
  | cons piece pieces ih =>
    rw [Line.ofPieces, List.map_cons, List.map_cons, ih, Line.ofPiece, String.toList_ofList]

theorem tidy_of_mem_split {source : String} {line : Line} (h : line ∈ Line.split source) :
    line.Tidy ∧ OneLine line.text.toList := by
  obtain ⟨i, piece, -, hpiece, htext⟩ := Line.piece_of_mem_ofPieces h
  refine ⟨Line.tidy_of_mem_split h, fun hfeed => ?_⟩
  rw [htext, String.toList_ofList] at hfeed
  have hfree := free_of_mem_splitOnP (List.mem_of_getElem? hpiece)
  cases hfree.1 '\n' (trim_subset piece hfeed)

/-- The canonical source has the canonical lines, and one empty line after the last line feed. -/
theorem texts_split_source (stmts : List Stmt) (h : ∀ text ∈ printAll stmts, OneLine text) :
    (Line.split (Stmt.source stmts)).map (fun line => line.text.toList) =
      (printAll stmts).map trim ++ [[]] := by
  rw [Line.split, texts_ofPieces, Stmt.source, String.toList_ofList]
  generalize printAll stmts = texts at h
  induction texts with
  | nil => rfl
  | cons text texts ih =>
    obtain ⟨htext, htexts⟩ := List.forall_mem_cons.1 h
    have hfree : ∀ c ∈ trim text, (c == '\n') = false := by
      intro c hc
      rw [beq_eq_false_iff_ne]
      rintro rfl
      exact htext (trim_subset text hc)
    rw [List.flatMap_cons, List.append_assoc, List.singleton_append,
      List.splitOnP_append_cons_of_forall_mem hfree _ (by decide), List.map_cons, ih htexts,
      trim_trim]
    rfl

/-- The statements read from a source are printed as a text that is read without any problem, as the
same statements up to places and the source lines of methods. -/
theorem ofSource_source (source : String) :
    let program := (Parsed.ofSource source).stmts
    (Parsed.ofSource (Stmt.source program)).diagnostics = [] ∧
      bareAll (Parsed.ofSource (Stmt.source program)).stmts = bareAll program := by
  intro program
  have hprintable : Printable (Line.split source) program :=
    Printable.of_ofLines _ fun line hline => tidy_of_mem_split hline
  have htexts := texts_split_source program hprintable.oneLine
  -- after the last line feed there is one more line, an empty one
  obtain ⟨printed, last, hsplit, hprinted, hlast⟩ := List.map_eq_append_iff.1 htexts
  obtain ⟨blank, none, rfl, hblank, hnone⟩ := List.map_eq_cons_iff.1 hlast
  obtain rfl := List.map_eq_nil_iff.1 hnone
  obtain ⟨again, hwritten, hbare⟩ := hprintable.written printed hprinted
  have hskip : blank.isSkippable = true := by
    rw [Line.isSkippable, String.toList_eq_nil_iff.1 hblank]
    rfl
  rw [Parsed.ofSource, hsplit, hwritten.ofLines_append, Parsed.ofLines_skippable hskip,
    Parsed.ofLines_nil]
  refine ⟨rfl, ?_⟩
  rw [← hbare]
  exact congrArg bareAll (List.append_nil again)

end Drawscript
