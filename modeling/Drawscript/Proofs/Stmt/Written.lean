import Drawscript.Proofs.Stmt.Printer
import Drawscript.Proofs.Stmt.Reading

/-!
# Complete programs

`Written lines stmts` says that the lines are a complete program, with these statements: simple
lines that are well formed, and blocks with a well-formed header, a complete body and a terminator,
where no line in the body of a plain block closes it. Such lines are read without any problem,
whatever follows them (`Written.ofLines_append`).
-/

set_option autoImplicit false

namespace Drawscript

open Text

/-- The lines are a complete program, with the given statements. -/
inductive Written : List Line → List Stmt → Prop
  | nil : Written [] []
  | single {line : Line} {stmt : Stmt} (hsimple : IsSimple line.text.toList)
    (hparse : Stmt.parseLine line.place line.text.toList = .ok stmt) : Written [line] [stmt]
  | plain {kind : BlockKind} {first last : Line} {body : List Line} {inner : List Stmt}
    {stmt : Stmt} (hkind : kind ≠ .conditional) (hfirst : first.Opens kind)
    (hbody : Written body inner) (hfree : ∀ line ∈ body, kind.closes line.text.toList = false)
    (hlast : last.Closes kind)
    (hblock : Parsed.ofBlock first kind body ⟨inner, []⟩ none = ⟨[stmt], []⟩) :
    Written (first :: (body ++ [last])) [stmt]
  | ifThen {first last : Line} {body : List Line} {inner : List Stmt} {stmt : Stmt}
    (hfirst : first.Opens .conditional) (hbody : Written body inner)
    (hlast : last.Closes .conditional)
    (hblock : Parsed.ofBlock first .conditional body ⟨inner, []⟩ none = ⟨[stmt], []⟩) :
    Written (first :: (body ++ [last])) [stmt]
  | ifElse {first middle last : Line} {body elseBody : List Line} {inner elseInner : List Stmt}
    {stmt : Stmt} (hfirst : first.Opens .conditional) (hbody : Written body inner)
    (hmiddle : middle.Divides) (helse : Written elseBody elseInner)
    (hlast : last.Closes .conditional)
    (hblock : Parsed.ofBlock first .conditional body ⟨inner, []⟩ (some ⟨elseInner, []⟩) =
      ⟨[stmt], []⟩) :
    Written (first :: (body ++ middle :: (elseBody ++ [last]))) [stmt]
  | append {first second : List Line} {stmts stmts' : List Stmt} (hfirst : Written first stmts)
    (hsecond : Written second stmts') : Written (first ++ second) (stmts ++ stmts')

/-- A line that is not skipped is neither empty nor a comment. -/
theorem Line.starts_of_isSkippable {line : Line} (h : line.isSkippable = false) :
    line.text.toList ≠ [] ∧ line.text.toList.head? ≠ some '*' := by
  obtain ⟨hempty, hstar⟩ := Bool.or_eq_false_iff.1 h
  refine ⟨fun hnil => ?_, of_decide_eq_false hstar⟩
  rw [String.toList_eq_nil_iff.1 hnil] at hempty
  cases hempty

theorem IsSimple.skippable {line : Line} (h : IsSimple line.text.toList) :
    line.isSkippable = false := by
  have hempty : line.text.isEmpty = false := by
    rw [Bool.eq_false_iff]
    intro hempty
    exact h.ne_nil (String.toList_eq_nil_iff.2 (String.isEmpty_iff.1 hempty))
  rw [Line.isSkippable, hempty, decide_eq_false h.star]
  rfl

theorem IsSimple.closes {text : List Char} (h : IsSimple text) (kind : BlockKind) :
    kind.closes text = false := by
  have hkind : kind ∈ BlockKind.all := by cases kind <;> decide
  exact Bool.eq_false_iff.2 (List.any_eq_false.1 h.terminator kind hkind)

theorem IsSimple.neutral {line : Line} (h : IsSimple line.text.toList) : line.Neutral where
  skippable := h.skippable
  header := by
    rw [h.header]
    exact nofun
  closes := h.closes .conditional
  isElse := h.divider

namespace Written

variable {lines : List Line} {stmts : List Stmt}

theorem skippable (h : Written lines stmts) : ∀ line ∈ lines, line.isSkippable = false := by
  have hblock {first last : Line} {kind : BlockKind} {inner : List Line}
      (hfirst : first.Opens kind) (hinner : ∀ line ∈ inner, line.isSkippable = false)
      (hlast : last.Closes kind) :
      ∀ line ∈ first :: (inner ++ [last]), line.isSkippable = false :=
    List.forall_mem_cons.2 ⟨hfirst.skippable, List.forall_mem_append.2
      ⟨hinner, List.forall_mem_singleton.2 hlast.skippable⟩⟩
  induction h with
  | nil => exact nofun
  | single hsimple _ => exact List.forall_mem_singleton.2 hsimple.skippable
  | plain _ hfirst _ _ hlast _ ih => exact hblock hfirst ih hlast
  | ifThen hfirst _ hlast _ ih => exact hblock hfirst ih hlast
  | ifElse hfirst _ hmiddle _ hlast _ ih ihelse =>
    have hparts := List.forall_mem_append.2 ⟨ih, List.forall_mem_cons.2 ⟨hmiddle.skippable, ihelse⟩⟩
    have hall := hblock hfirst hparts hlast
    rwa [List.append_assoc, List.cons_append] at hall
  | append _ _ ih ih' => exact List.forall_mem_append.2 ⟨ih, ih'⟩

/-- In a complete program every conditional block is complete. -/
theorem balanced (h : Written lines stmts) : Block.Balanced lines := by
  induction h with
  | nil => exact .nil
  | single hsimple _ => exact .line hsimple.neutral
  | plain hkind hfirst _ _ hlast _ ih =>
    -- to a scan for `end if`, the ends of a plain block are lines like any other
    have hheader := Block.Balanced.line (hfirst.neutral hkind)
    have hend := Block.Balanced.line (hlast.neutral hkind)
    exact hheader.append (ih.append hend)
  | ifThen hfirst _ hlast _ ih => exact .ifThen hfirst ih hlast
  | ifElse hfirst _ hmiddle _ hlast _ ih ihelse => exact .ifElse hfirst ih hmiddle ihelse hlast
  | append _ _ ih ih' => exact ih.append ih'

/-- What holds before any lines holds before none. -/
theorem ofLines_body {body : List Line} {inner : List Stmt}
    (h : ∀ rest, Parsed.ofLines (body ++ rest) =
      (⟨inner, []⟩ : Parsed).append (Parsed.ofLines rest)) :
    Parsed.ofLines body = ⟨inner, []⟩ := by
  have hall := h []
  rwa [List.append_nil, Parsed.ofLines_nil, Parsed.append, List.append_nil, List.append_nil] at hall

/-- Complete lines are read without any problem, and the lines after them as if they stood alone. -/
theorem ofLines_append (h : Written lines stmts) (rest : List Line) :
    Parsed.ofLines (lines ++ rest) = (⟨stmts, []⟩ : Parsed).append (Parsed.ofLines rest) := by
  induction h generalizing rest with
  | nil => rfl
  | @single line stmt hsimple hparse =>
    have hline : Parsed.ofLine line = ⟨[stmt], []⟩ := by
      rw [Parsed.ofLine, hsimple.terminator, hsimple.divider, hparse]
      rfl
    rw [List.singleton_append, Parsed.ofLines_line hsimple.skippable hsimple.header, hline]
  | @plain kind first last body inner stmt hkind hfirst hbody hfree hlast hblock ih =>
    -- the scan for a plain block looks for the first terminator of its kind, which is `last`
    have hscan : Block.scan? kind (body ++ last :: rest) = some ⟨body, none, rest⟩ := by
      rw [Block.scan?, if_neg hkind]
      exact Block.scanPlain?_append
        (fun line hline => ⟨hbody.skippable line hline, hfree line hline⟩) hlast rest
    rw [List.cons_append, List.append_assoc, List.singleton_append,
      Parsed.ofLines_block hfirst.skippable hfirst.header hscan, ofLines_body ih]
    exact congrArg (fun block => Parsed.append block _) hblock
  | @ifThen first last body inner stmt hfirst hbody hlast hblock ih =>
    have hscan := hbody.balanced.scan_ifThen hlast rest
    rw [List.cons_append, List.append_assoc, List.singleton_append,
      Parsed.ofLines_block hfirst.skippable hfirst.header hscan, ofLines_body ih]
    exact congrArg (fun block => Parsed.append block _) hblock
  | @ifElse first middle last body elseBody inner elseInner stmt hfirst hbody hmiddle helse hlast
      hblock ih ihelse =>
    have hscan := hbody.balanced.scan_ifElse helse.balanced hmiddle hlast rest
    rw [List.cons_append, List.append_assoc, List.cons_append, List.append_assoc,
      List.singleton_append, Parsed.ofLines_block hfirst.skippable hfirst.header hscan,
      ofLines_body ih, Option.map_some, ofLines_body ihelse]
    exact congrArg (fun block => Parsed.append block _) hblock
  | append _ _ ih ih' =>
    rw [List.append_assoc, ih, ih']
    simp only [Parsed.append, List.append_assoc, List.nil_append]

end Written

/-- A simple line that is well formed, alone in a source text, is read as its statement. -/
theorem ofSource_line {text : List Char} (hone : OneLine text) (hsimple : IsSimple (trim text))
    {stmt : Stmt}
    (hparse : Stmt.parseLine (Line.ofPiece 1 0 text).place (trim text) = .ok stmt) :
    Parsed.ofSource (String.ofList text) = ⟨[stmt], []⟩ := by
  have hsplit : Line.split (String.ofList text) = [Line.ofPiece 1 0 text] := by
    have hnone : ∀ c ∈ text, (c == '\n') = false := by
      intro c hc
      rw [beq_eq_false_iff_ne]
      rintro rfl
      exact hone hc
    rw [Line.split, String.toList_ofList, List.splitOnP_eq_singleton hnone]
    rfl
  have htext : (Line.ofPiece 1 0 text).text.toList = trim text := String.toList_ofList
  rw [Parsed.ofSource, hsplit]
  apply Written.ofLines_body
  refine Written.ofLines_append (.single ?_ ?_)
  · rw [htext]
    exact hsimple
  · rw [htext]
    exact hparse

end Drawscript
