import Drawscript.Proofs.Source.Block
import Drawscript.Proofs.Source.Offset

/-!
# The lines of a source

The lines of a source are numbered upwards without a gap (`numbers_split`). A line stands in the
source where it says: its number tells which piece between line feeds it was made from, and its span
is made of two positions between characters of the source, between which the text of the line stands
(`standsIn_of_mem_split`). Cutting the source at the span of a line is therefore always possible.
-/

set_option autoImplicit false

namespace Drawscript

open Text

namespace Text

/-- The blanks in front of a text are followed by its trimmed form, and this by blanks. -/
theorem exists_eq_takeWhile_trim (text : List Char) :
    ∃ after, (∀ c ∈ after, isBlank c = true) ∧
      text = text.takeWhile isBlank ++ (trim text ++ after) := by
  obtain ⟨after, hafter, hend⟩ := exists_eq_trimEnd (trimStart text)
  refine ⟨after, hafter, ?_⟩
  calc text = text.takeWhile isBlank ++ trimStart text := List.takeWhile_append_dropWhile.symm
    _ = text.takeWhile isBlank ++ (trim text ++ after) := congrArg (_ ++ ·) hend

end Text

namespace Line

/-! ## Numbers -/

theorem numbers_ofPieces (number offset : Nat) (pieces : List (List Char)) :
    (ofPieces number offset pieces).map Line.number = List.range' number pieces.length := by
  induction pieces generalizing number offset with
  | nil => rfl
  | cons piece rest ih =>
    rw [ofPieces, List.map_cons, ih, List.length_cons, List.range'_succ]
    rfl

/-- The lines of a source are numbered from one on. -/
theorem numbers_split (source : String) :
    (split source).map Line.number =
      List.range' 1 (source.toList.splitOnP (· == '\n')).length :=
  numbers_ofPieces 1 0 _

theorem pairwise_number_split (source : String) :
    (split source).Pairwise fun line line' => line.number < line'.number := by
  rw [← List.pairwise_map (f := Line.number), numbers_split]
  exact List.pairwise_lt_range' 1

/-! ## Places -/

/-- The line stands in the source: it is the piece with its number, without blanks at the ends, and
it is what is found between the two positions that its span gives. -/
structure StandsIn (source : String) (line : Line) : Prop where
  piece : ∃ i piece, line.number = i + 1 ∧ (source.toList.splitOnP (· == '\n'))[i]? = some piece ∧
    line.text = String.ofList (trim piece)
  slice : ∃ start stop : source.Pos, start.offset.byteIdx = line.span.start ∧
    stop.offset.byteIdx = line.span.stop ∧ source.extract start stop = line.text

theorem piece_of_mem_ofPieces {number offset : Nat} {pieces : List (List Char)} {line : Line}
    (h : line ∈ ofPieces number offset pieces) :
    ∃ i piece, line.number = number + i ∧ pieces[i]? = some piece ∧
      line.text = String.ofList (trim piece) := by
  induction pieces generalizing number offset with
  | nil => exact absurd h List.not_mem_nil
  | cons piece rest ih =>
    rcases List.mem_cons.1 h with rfl | hrest
    · exact ⟨0, piece, rfl, rfl, rfl⟩
    · obtain ⟨i, piece', hnumber, hpiece, htext⟩ := ih hrest
      exact ⟨i + 1, piece', by omega, hpiece, htext⟩

theorem tidy_of_mem_split {source : String} {line : Line} (h : line ∈ split source) :
    line.Tidy := by
  obtain ⟨i, piece, -, -, htext⟩ := piece_of_mem_ofPieces h
  rw [Tidy, htext, String.toList_ofList, trim_trim]

/-- In consecutive pieces with line feeds between them, after some text, a line is found at the
offset at which its span starts. -/
theorem slice_of_mem_ofPieces {number : Nat} {before : List Char} {pieces : List (List Char)}
    {line : Line} (h : line ∈ ofPieces number (byteLength before) pieces) :
    ∃ front back, before ++ ['\n'].intercalate pieces = front ++ (line.text.toList ++ back) ∧
      line.span.start = byteLength front ∧
      line.span.stop = byteLength front + byteLength line.text.toList := by
  induction pieces generalizing number before with
  | nil => exact absurd h List.not_mem_nil
  | cons piece rest ih =>
    rcases List.mem_cons.1 h with rfl | hrest
    · obtain ⟨after, -, hpiece⟩ := exists_eq_takeWhile_trim piece
      obtain ⟨more, hmore⟩ : ∃ more, ['\n'].intercalate (piece :: rest) = piece ++ more := by
        cases rest with
        | nil => exact ⟨[], by rw [List.intercalate_singleton, List.append_nil]⟩
        | cons next rest => exact ⟨_, by rw [List.intercalate_cons_cons, List.append_assoc]⟩
      have htext : (ofPiece number (byteLength before) piece).text.toList = trim piece :=
        String.toList_ofList
      refine ⟨before ++ piece.takeWhile isBlank, after ++ more, ?_, ?_, ?_⟩
      · rw [hmore, htext]
        nth_rewrite 1 [hpiece]
        simp only [List.append_assoc]
      · exact (byteLength_append _ _).symm
      · rw [htext, byteLength_append]
        rfl
    · have hne : rest ≠ [] := by
        rintro rfl
        exact absurd hrest List.not_mem_nil
      -- a line feed stands between the piece and the next one
      have hoffset : byteLength before + byteLength piece + 1 =
          byteLength (before ++ piece ++ ['\n']) := by
        rw [byteLength_append, byteLength_append]
        rfl
      rw [hoffset] at hrest
      obtain ⟨front, back, hsplit, hspan⟩ := ih hrest
      refine ⟨front, back, ?_, hspan⟩
      rw [← hsplit, List.intercalate_cons_of_ne_nil hne]
      simp only [List.append_assoc]

/-- A text that is written as three parts can be cut where the second starts and ends. -/
theorem exists_pos_of_append {source before text after : String}
    (h : source = before ++ text ++ after) :
    ∃ start stop : source.Pos, start.offset.byteIdx = before.utf8ByteSize ∧
      stop.offset.byteIdx = before.utf8ByteSize + text.utf8ByteSize ∧
      source.extract start stop = text := by
  subst h
  have hstart : String.Pos.Raw.IsValid (before ++ text ++ after) before.rawEndPos :=
    String.Pos.Raw.isValid_iff_exists_append.2
      ⟨before, text ++ after, String.append_assoc, rfl⟩
  have hstop : String.Pos.Raw.IsValid (before ++ text ++ after) (before ++ text).rawEndPos :=
    String.Pos.Raw.isValid_iff_exists_append.2 ⟨before ++ text, after, rfl, rfl⟩
  refine ⟨⟨_, hstart⟩, ⟨_, hstop⟩, rfl, String.utf8ByteSize_append, ?_⟩
  rw [← String.toByteArray_inj, String.toByteArray_extract, String.toByteArray_append]
  -- the bytes up to the end of the second part do not depend on the third
  refine ByteArray.extract_append_size_left.trans ?_
  rw [String.toByteArray_append]
  exact ByteArray.extract_append_eq_right rfl String.utf8ByteSize_append

/-- Every line of a source stands in it. -/
theorem standsIn_of_mem_split {source : String} {line : Line} (h : line ∈ split source) :
    line.StandsIn source := by
  constructor
  · obtain ⟨i, piece, hnumber, hpiece, htext⟩ := piece_of_mem_ofPieces h
    exact ⟨i, piece, by omega, hpiece, htext⟩
  · have hmem : line ∈ ofPieces 1 (byteLength []) (source.toList.splitOnP (· == '\n')) := h
    obtain ⟨front, back, hsplit, hstart, hstop⟩ := slice_of_mem_ofPieces hmem
    have hsource : ['\n'].intercalate (source.toList.splitOnP (· == '\n')) = source.toList :=
      List.intercalate_splitOn '\n'
    have happend : source = String.ofList front ++ line.text ++ String.ofList back := by
      rw [List.nil_append, hsource] at hsplit
      rw [← String.ofList_toList (s := source), hsplit, String.ofList_append, String.ofList_append,
        String.ofList_toList, String.append_assoc]
    have hsize : byteLength line.text.toList = line.text.utf8ByteSize := by
      rw [byteLength_eq_utf8ByteSize, String.ofList_toList]
    rw [hstart, hstop, hsize, byteLength_eq_utf8ByteSize]
    exact exists_pos_of_append happend

end Line

end Drawscript
