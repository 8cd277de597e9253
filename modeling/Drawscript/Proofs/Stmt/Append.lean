import Drawscript.Proofs.Stmt.Account
import Drawscript.Session

/-!
# Reading lines after lines

A block that is found among some lines is found again when other lines follow, with the same body
and the same second part (`Block.scan?_append_right`). A header without terminator is the one thing
whose meaning other lines can change, and it is reported. So if no such report is made, what is read
from the lines stays as it is, and what is read from the lines that follow comes after it
(`Parsed.Closed.ofLines_append`). A session that is given one more text puts its lines after the ones
it has, and so does not change what those mean (`Session.ofSource_push`).
-/

set_option autoImplicit false

namespace Drawscript

open Text

/-! ## Scans -/

namespace Block

/-- The block with more lines after it. -/
def extend (more : List Line) (block : Block) : Block :=
  { block with rest := block.rest ++ more }

theorem scanPlain?_append_right {kind : BlockKind} {lines : List Line} {block : Block}
    (h : scanPlain? kind lines = some block) (more : List Line) :
    scanPlain? kind (lines ++ more) = some (block.extend more) := by
  induction lines generalizing block with
  | nil => cases h
  | cons line rest ih =>
    rw [List.cons_append, scanPlain?]
    rw [scanPlain?] at h
    by_cases hskip : line.isSkippable = true
    · rw [if_pos hskip] at h ⊢
      exact ih h
    · rw [if_neg hskip] at h ⊢
      by_cases hcloses : kind.closes line.text.toList = true
      · rw [if_pos hcloses] at h ⊢
        cases h
        rfl
      · rw [if_neg hcloses] at h ⊢
        obtain ⟨inner, hinner, rfl⟩ := Option.map_eq_some_iff.1 h
        rw [ih hinner]
        rfl

theorem scanConditional?_append_right {depth : Nat} {inElse : Bool} {lines : List Line}
    {block : Block} (h : scanConditional? depth inElse lines = some block) (more : List Line) :
    scanConditional? depth inElse (lines ++ more) = some (block.extend more) := by
  induction lines generalizing depth inElse block with
  | nil => cases h
  | cons line rest ih =>
    -- what a branch makes of the block that it finds further on does not touch the lines after it
    have hmap {d : Nat} {e : Bool} {f : Block → Block}
        (hf : ∀ inner : Block, f (inner.extend more) = (f inner).extend more)
        (hfound : (scanConditional? d e rest).map f = some block) :
        (scanConditional? d e (rest ++ more)).map f = some (block.extend more) := by
      obtain ⟨inner, hinner, rfl⟩ := Option.map_eq_some_iff.1 hfound
      rw [ih hinner, Option.map_some, hf]
    rw [List.cons_append]
    simp only [scanConditional?] at h ⊢
    split_ifs at h ⊢ with hskip hopens hcloses helse
    · exact ih h
    · exact hmap (fun _ => rfl) h
    · cases depth with
      | zero =>
        cases h
        rfl
      | succ depth => exact hmap (fun _ => rfl) h
    · exact hmap (fun _ => rfl) h
    · exact hmap (fun _ => rfl) h

/-- Lines after a block do not change what it is made of. -/
theorem scan?_append_right {kind : BlockKind} {lines : List Line} {block : Block}
    (h : scan? kind lines = some block) (more : List Line) :
    scan? kind (lines ++ more) = some (block.extend more) := by
  unfold scan? at h ⊢
  split_ifs at h ⊢
  · exact scanConditional?_append_right h more
  · exact scanPlain?_append_right h more

end Block

/-! ## Lines -/

/-- The diagnostic reports a header without terminator. -/
def Diagnostic.Unclosed (d : Diagnostic) : Prop :=
  ∃ kind, d.notice = .problem (.parse (.missingTerminator kind))

namespace Parsed

/-- No header without terminator is reported. -/
def Closed (parsed : Parsed) : Prop :=
  ∀ d ∈ parsed.diagnostics, ¬ d.Unclosed

theorem append_assoc (first second third : Parsed) :
    (first.append second).append third = first.append (second.append third) := by
  simp only [append, List.append_assoc]

theorem Closed.of_append_right {first second : Parsed} (h : (first.append second).Closed) :
    second.Closed :=
  fun d hd => h d (List.mem_append_right _ hd)

theorem not_closed_missingTerminator (line : Line) (kind : BlockKind) :
    ¬ (problem line (.missingTerminator kind)).Closed :=
  fun h => h _ List.mem_cons_self ⟨kind, rfl⟩

/-- If every block is closed, lines that follow are read on their own. -/
theorem Closed.ofLines_append {lines : List Line} (h : (ofLines lines).Closed)
    (more : List Line) : ofLines (lines ++ more) = (ofLines lines).append (ofLines more) := by
  -- by induction along the reading of the first lines
  revert h
  refine ofLines_induction (motive := fun lines parsed => parsed.Closed →
    ofLines (lines ++ more) = parsed.append (ofLines more)) ?_ ?_ ?_ ?_ ?_ lines
  · exact fun _ => rfl
  · intro line rest hskip ih hclosed
    rw [List.cons_append, ofLines_skippable hskip, ih hclosed]
  · intro line rest hskip hheader ih hclosed
    rw [List.cons_append, ofLines_line hskip hheader, ih hclosed.of_append_right, append_assoc]
  · intro line rest kind _ _ _ hclosed
    exact absurd hclosed (not_closed_missingTerminator line kind)
  · intro line rest kind block hskip hheader hscan _ _ ih hclosed
    rw [List.cons_append, ofLines_block hskip hheader (Block.scan?_append_right hscan more),
      append_assoc, ← ih hclosed.of_append_right]
    rfl

end Parsed

/-! ## Sources -/

namespace Line

theorem ofPieces_append (number offset : Nat) (first second : List (List Char)) :
    ofPieces number offset (first ++ second) =
      ofPieces number offset first ++
        ofPieces (number + first.length)
          (offset + (first.map fun piece => byteLength piece + 1).sum) second := by
  induction first generalizing number offset with
  | nil => rfl
  | cons piece rest ih =>
    rw [List.cons_append, ofPieces, ih, ofPieces, List.cons_append, List.map_cons, List.sum_cons,
      List.length_cons, Nat.add_assoc number, Nat.add_comm 1]
    simp only [Nat.add_assoc]

/-- Every piece has a line feed after it, but for the last. -/
theorem sum_byteLength_pieces {pieces : List (List Char)} (hne : pieces ≠ []) :
    (pieces.map fun piece => byteLength piece + 1).sum =
      byteLength (['\n'].intercalate pieces) + 1 := by
  induction pieces with
  | nil => exact absurd rfl hne
  | cons piece rest ih =>
    cases rest with
    | nil =>
      rw [List.intercalate_singleton]
      rfl
    | cons next rest =>
      have hfeed : byteLength ['\n'] = 1 := rfl
      rw [List.map_cons, List.sum_cons, ih (List.cons_ne_nil _ _), List.intercalate_cons_cons,
        byteLength_append, byteLength_append, hfeed]
      omega

/-- The lines of a text that follows a source and a line feed come after the lines of the source. -/
theorem split_append (source text : String) :
    split (source ++ "\n" ++ text) =
      split source ++
        ofPieces ((split source).length + 1) (source.utf8ByteSize + 1)
          (text.toList.splitOnP (· == '\n')) := by
  have hpieces : (source ++ "\n" ++ text).toList.splitOnP (· == '\n') =
      source.toList.splitOnP (· == '\n') ++ text.toList.splitOnP (· == '\n') := by
    rw [String.toList_append, String.toList_append, List.append_assoc]
    exact List.splitOnP_append_cons _ _ rfl
  have hlength : (split source).length = (source.toList.splitOnP (· == '\n')).length := by
    have hnumbers := congrArg List.length (numbers_split source)
    rwa [List.length_map, List.length_range'] at hnumbers
  have hsource : ['\n'].intercalate (source.toList.splitOnP (· == '\n')) = source.toList :=
    List.intercalate_splitOn '\n'
  have hsize : byteLength source.toList = source.utf8ByteSize := by
    rw [byteLength_eq_utf8ByteSize, String.ofList_toList]
  rw [split, hpieces, ofPieces_append, sum_byteLength_pieces (List.splitOnP_ne_nil _ _), hsource,
    hsize, hlength, Nat.add_comm 1, Nat.zero_add]
  rfl

end Line

namespace Session

theorem source_push {session : Session} (hne : session.lines ≠ []) (line : String) :
    (session.push line).source = session.source ++ "\n" ++ line := by
  show "\n".intercalate (session.lines ++ [line]) = "\n".intercalate session.lines ++ "\n" ++ line
  generalize session.lines = lines at hne
  induction lines with
  | nil => exact absurd rfl hne
  | cons first rest ih =>
    cases rest with
    | nil => rfl
    | cons next rest =>
      have hrest := List.cons_ne_nil next rest
      rw [List.cons_append, String.intercalate_cons_of_ne_nil hrest,
        String.intercalate_cons_of_ne_nil (List.append_ne_nil_of_left_ne_nil hrest _), ih hrest]
      simp only [String.append_assoc]

/-- A text that is added to a session is read after what the session has, if that is closed. -/
theorem ofSource_push {session : Session} (h : (Parsed.ofSource session.source).Closed)
    (line : String) :
    ∃ number offset, Parsed.ofSource (session.push line).source =
      (Parsed.ofSource session.source).append
        (Parsed.ofLines (Line.ofPieces number offset (line.toList.splitOnP (· == '\n')))) := by
  by_cases hempty : session.lines = []
  · -- the source of a session without lines is a single empty line
    have hsource : session.source = "" := by
      rw [Session.source, hempty]
      rfl
    have hpushed : (session.push line).source = line := by
      rw [Session.source, Session.push, hempty]
      rfl
    have hlines : Line.split "" = [⟨1, "", ⟨0, 0⟩⟩] := by decide +kernel
    refine ⟨1, 0, ?_⟩
    rw [hpushed, hsource, Parsed.ofSource, Parsed.ofSource, hlines,
      Parsed.ofLines_skippable (by decide), Parsed.ofLines_nil]
    rfl
  · refine ⟨(Line.split session.source).length + 1, session.source.utf8ByteSize + 1, ?_⟩
    rw [source_push hempty, Parsed.ofSource, Line.split_append]
    exact h.ofLines_append _

end Session

/-- If no header without terminator is reported, lines that follow change nothing: the statements
and the diagnostics of all the lines are those of the first lines and then those of the lines that
follow. So it is in a session that is given one more text: what its program meant is kept, and what
is read from the new text, with its lines numbered on, comes after it. -/
theorem ofLines_append_of_closed :
    (∀ lines more : List Line, (Parsed.ofLines lines).Closed →
      (Parsed.ofLines (lines ++ more)).stmts =
        (Parsed.ofLines lines).stmts ++ (Parsed.ofLines more).stmts ∧
      (Parsed.ofLines (lines ++ more)).diagnostics =
        (Parsed.ofLines lines).diagnostics ++ (Parsed.ofLines more).diagnostics) ∧
    ∀ (session : Session) (line : String), (Parsed.ofSource session.source).Closed →
      ∃ number offset,
        let added := Line.ofPieces number offset (line.toList.splitOnP (· == '\n'))
        (Parsed.ofSource (session.push line).source).stmts =
          (Parsed.ofSource session.source).stmts ++ (Parsed.ofLines added).stmts ∧
        (Parsed.ofSource (session.push line).source).diagnostics =
          (Parsed.ofSource session.source).diagnostics ++ (Parsed.ofLines added).diagnostics := by
  refine ⟨fun lines more hclosed => ?_, fun session line hclosed => ?_⟩
  · rw [hclosed.ofLines_append more]
    exact ⟨rfl, rfl⟩
  · obtain ⟨number, offset, hpush⟩ := Session.ofSource_push hclosed line
    refine ⟨number, offset, ?_⟩
    rw [hpush]
    exact ⟨rfl, rfl⟩

/-- Lines with a malformed loop, in whose body a header has no terminator. -/
def dropped : List Line :=
  [⟨1, "for i", ⟨0, 5⟩⟩, ⟨2, "if 1", ⟨6, 10⟩⟩, ⟨3, "end for", ⟨11, 18⟩⟩,
    ⟨4, "write 1", ⟨19, 26⟩⟩]

theorem ofLines_dropped :
    Parsed.ofLines dropped =
      ⟨[.command ⟨4, ⟨19, 26⟩⟩ (.write "1")],
        [⟨.problem (.parse (.missingTo "i")), some ⟨1, ⟨0, 5⟩⟩⟩]⟩ := by
  have hscan : Block.scan? .forLoop
      [⟨2, "if 1", ⟨6, 10⟩⟩, ⟨3, "end for", ⟨11, 18⟩⟩, ⟨4, "write 1", ⟨19, 26⟩⟩] =
      some ⟨[⟨2, "if 1", ⟨6, 10⟩⟩], none, [⟨4, "write 1", ⟨19, 26⟩⟩]⟩ := by
    decide
  have hwrite : Parsed.ofLines [⟨4, "write 1", ⟨19, 26⟩⟩] =
      ⟨[.command ⟨4, ⟨19, 26⟩⟩ (.write "1")], []⟩ := by
    rw [Parsed.ofLines_line (by decide) (by decide), Parsed.ofLines_nil]
    rfl
  -- the header is malformed, so it does not matter what is read from the body
  rw [dropped, Parsed.ofLines_block (by decide) (by decide) hscan, hwrite]
  rfl

/-- A session with these lines. -/
def droppedSession : Session :=
  ⟨["for i", "if 1", "end for", "write 1"], .new {}⟩

/-- The loop is reported and left out, and so is a bare `else` that follows, whether as a line or as
a text that is added to the session. -/
theorem ofLines_append_dropped :
    (Parsed.ofLines dropped).Closed ∧
      ((Parsed.ofLines (dropped ++ [⟨5, "else", ⟨27, 31⟩⟩])).stmts =
          [.command ⟨4, ⟨19, 26⟩⟩ (.write "1")] ∧
        (Parsed.ofLines (dropped ++ [⟨5, "else", ⟨27, 31⟩⟩])).diagnostics =
          [⟨.problem (.parse (.missingTo "i")), some ⟨1, ⟨0, 5⟩⟩⟩,
            ⟨.problem (.parse .strayElse), some ⟨5, ⟨27, 31⟩⟩⟩]) ∧
      (Parsed.ofSource droppedSession.source).Closed ∧
      ∃ number offset, (Parsed.ofSource (droppedSession.push "else").source).stmts =
        [.command ⟨4, ⟨19, 26⟩⟩ (.write "1")] ++
          (Parsed.ofLines (Line.ofPieces number offset ["else".toList])).stmts := by
  have hclosed : (Parsed.ofLines dropped).Closed := by
    rw [ofLines_dropped]
    refine List.forall_mem_singleton.2 ?_
    rintro ⟨kind, hnotice⟩
    cases hnotice
  have hsource : Parsed.ofSource droppedSession.source = Parsed.ofLines dropped := by
    have hlines : Line.split droppedSession.source = dropped := by decide +kernel
    rw [Parsed.ofSource, hlines]
  have hsession : (Parsed.ofSource droppedSession.source).Closed := hsource ▸ hclosed
  obtain ⟨hstmts, hdiagnostics⟩ :=
    ofLines_append_of_closed.1 dropped [⟨5, "else", ⟨27, 31⟩⟩] hclosed
  obtain ⟨number, offset, hpushed, -⟩ := ofLines_append_of_closed.2 droppedSession "else" hsession
  rw [hsource, ofLines_dropped] at hpushed
  refine ⟨hclosed, ?_, hsession, number, offset, hpushed⟩
  rw [hstmts, hdiagnostics, ofLines_dropped, Parsed.ofLines_line (by decide) (by decide),
    Parsed.ofLines_nil]
  exact ⟨rfl, rfl⟩

end Drawscript
