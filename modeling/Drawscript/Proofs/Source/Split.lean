import Drawscript.Proofs.Source.Lines

/-!
# Lines and what lies between them

The spans of the lines of a source do not overlap, and they leave nothing out but blanks: every
character outside them is blank, and between two consecutive ones there is exactly one line feed
(`split_layout`).

All of this is proved along the pieces between line feeds, wherever in the source they start. A piece
is its line with blanks on both sides (`isBlank_of_not_covers_ofPiece`), and the line feed after it
belongs to no piece (`cases_of_charAt?_intercalate`).
-/

set_option autoImplicit false

namespace Drawscript.Line

open Text

/-! ## One piece -/

theorem length_splitOnP_newline (text : List Char) :
    (text.splitOnP (· == '\n')).length = text.count '\n' + 1 := by
  induction text with
  | nil => rfl
  | cons c rest ih =>
    rw [List.splitOnP_cons_eq_if_modifyHead, List.count_cons]
    split_ifs with hc
    · rw [List.length_cons, ih]
    · rw [List.length_modifyHead, ih, Nat.add_zero]

/-- The span of a line lies in its piece, behind the blanks at the start of the piece. -/
theorem span_ofPiece (number offset : Nat) (piece : List Char) :
    (ofPiece number offset piece).span.start =
        offset + byteLength (piece.takeWhile isBlank) ∧
      (ofPiece number offset piece).span.stop =
        offset + byteLength (piece.takeWhile isBlank) + byteLength (trim piece) ∧
      byteLength (piece.takeWhile isBlank) + byteLength (trim piece) ≤ byteLength piece := by
  refine ⟨rfl, rfl, ?_⟩
  obtain ⟨after, -, hpiece⟩ := exists_eq_takeWhile_trim piece
  have hlength := congrArg byteLength hpiece
  rw [byteLength_append, byteLength_append] at hlength
  omega

/-- The characters of a piece outside the span of its line are blank. -/
theorem isBlank_of_not_covers_ofPiece {number offset : Nat} {piece : List Char} {k : Nat} {c : Char}
    (hc : charAt? piece k = some c)
    (hout : ¬ (ofPiece number offset piece).span.Covers (offset + k)) : isBlank c = true := by
  obtain ⟨hstart, hstop, -⟩ := span_ofPiece number offset piece
  rw [Span.Covers, hstart, hstop] at hout
  obtain ⟨after, hafter, hpiece⟩ := exists_eq_takeWhile_trim piece
  rw [hpiece] at hc
  rcases cases_of_charAt?_append hc with hlead | ⟨rest, rfl, hrest⟩
  · exact List.mem_takeWhile_imp (mem_of_charAt? hlead)
  · rcases cases_of_charAt?_append hrest with htext | ⟨rest', rfl, htrail⟩
    · -- a character of the trimmed text lies in the span
      have hlt := lt_of_charAt? htext
      exact absurd ⟨by omega, by omega⟩ hout
    · exact hafter c (mem_of_charAt? htrail)

/-! ## Consecutive pieces -/

/-- A character of pieces with line feeds between them belongs to the first piece, is the line feed
after it, or belongs to the other pieces. -/
theorem cases_of_charAt?_intercalate {piece next : List Char} {rest : List (List Char)} {k : Nat}
    {c : Char} (h : charAt? (['\n'].intercalate (piece :: next :: rest)) k = some c) :
    charAt? piece k = some c ∨ (k = byteLength piece ∧ c = '\n') ∨
      ∃ k', k = byteLength piece + 1 + k' ∧
        charAt? (['\n'].intercalate (next :: rest)) k' = some c := by
  rw [List.intercalate_cons_cons, List.append_assoc] at h
  rcases cases_of_charAt?_append h with hpiece | ⟨k', rfl, hrest⟩
  · exact Or.inl hpiece
  · right
    rcases cases_of_charAt?_append hrest with hfeed | ⟨k'', rfl, hmore⟩
    · left
      have hlt : k' < 1 := lt_of_charAt? hfeed
      obtain rfl : k' = 0 := by omega
      cases hfeed
      exact ⟨rfl, rfl⟩
    · right
      exact ⟨k'', by rw [Nat.add_assoc]; rfl, hmore⟩

/-- The line feed after the first piece. -/
theorem charAt?_intercalate_newline (piece next : List Char) (rest : List (List Char)) :
    charAt? (['\n'].intercalate (piece :: next :: rest)) (byteLength piece) = some '\n' := by
  rw [List.intercalate_cons_cons, List.append_assoc, List.singleton_append, charAt?_append_cons]

theorem charAt?_intercalate_add (piece next : List Char) (rest : List (List Char)) (k : Nat) :
    charAt? (['\n'].intercalate (piece :: next :: rest)) (byteLength piece + 1 + k) =
      charAt? (['\n'].intercalate (next :: rest)) k := by
  rw [List.intercalate_cons_cons]
  have hlength : byteLength (piece ++ ['\n']) = byteLength piece + 1 := byteLength_append _ _
  rw [← hlength, charAt?_append_add]

/-- Up to the end of the first piece there are its characters only. -/
theorem charAt?_of_charAt?_intercalate {piece : List Char} {rest : List (List Char)} {k : Nat}
    {c : Char} (h : charAt? (['\n'].intercalate (piece :: rest)) k = some c)
    (hk : k < byteLength piece) : charAt? piece k = some c := by
  cases rest with
  | nil => rwa [List.intercalate_singleton] at h
  | cons next rest =>
    rcases cases_of_charAt?_intercalate h with hpiece | ⟨rfl, -⟩ | ⟨k', rfl, -⟩
    · exact hpiece
    · omega
    · omega

theorem le_start_of_mem_ofPieces {number offset : Nat} {pieces : List (List Char)} {line : Line}
    (h : line ∈ ofPieces number offset pieces) :
    offset ≤ line.span.start ∧ line.span.start ≤ line.span.stop := by
  induction pieces generalizing number offset with
  | nil => exact absurd h List.not_mem_nil
  | cons piece rest ih =>
    rcases List.mem_cons.1 h with rfl | hrest
    · exact ⟨Nat.le_add_right _ _, Nat.le_add_right _ _⟩
    · obtain ⟨hstart, hstop⟩ := ih hrest
      exact ⟨by omega, hstop⟩

/-- Each span ends before the next one starts. -/
theorem pairwise_stop_lt_start_ofPieces (number offset : Nat) (pieces : List (List Char)) :
    (ofPieces number offset pieces).Pairwise fun line line' =>
      line.span.stop < line'.span.start := by
  induction pieces generalizing number offset with
  | nil => exact .nil
  | cons piece rest ih =>
    refine List.pairwise_cons.2 ⟨?_, ih _ _⟩
    intro line hline
    have hle := le_start_of_mem_ofPieces hline
    obtain ⟨-, hstop, hlength⟩ := span_ofPiece number offset piece
    omega

/-- The characters of consecutive pieces outside the spans of the lines are blank. -/
theorem isBlank_of_not_covers_ofPieces (number offset : Nat) {pieces : List (List Char)} {k : Nat}
    {c : Char} (hc : charAt? (['\n'].intercalate pieces) k = some c)
    (hout : ∀ line ∈ ofPieces number offset pieces, ¬ line.span.Covers (offset + k)) :
    isBlank c = true := by
  induction pieces generalizing number offset k with
  | nil => cases hc
  | cons piece rest ih =>
    rw [ofPieces, List.forall_mem_cons] at hout
    cases rest with
    | nil =>
      rw [List.intercalate_singleton] at hc
      exact isBlank_of_not_covers_ofPiece hc hout.1
    | cons next rest =>
      rcases cases_of_charAt?_intercalate hc with hpiece | ⟨-, rfl⟩ | ⟨k', rfl, hrest⟩
      · exact isBlank_of_not_covers_ofPiece hpiece hout.1
      · rfl
      · apply ih _ _ hrest
        intro line hline
        have hline := hout.2 line hline
        rwa [← Nat.add_assoc, ← Nat.add_assoc] at hline

/-- Between the spans of two consecutive lines there is one line feed. -/
theorem existsUnique_newline_ofPieces {number offset : Nat} {pieces : List (List Char)}
    (hfree : ∀ piece ∈ pieces, '\n' ∉ piece) {i : Nat} {line line' : Line}
    (hline : (ofPieces number offset pieces)[i]? = some line)
    (hline' : (ofPieces number offset pieces)[i + 1]? = some line') :
    ∃! k, charAt? (['\n'].intercalate pieces) k = some '\n' ∧
      line.span.stop ≤ offset + k ∧ offset + k < line'.span.start := by
  induction pieces generalizing number offset i with
  | nil => cases hline
  | cons piece rest ih =>
    obtain ⟨hpiece, hrest⟩ := List.forall_mem_cons.1 hfree
    cases rest with
    | nil => cases hline'
    | cons next rest =>
      cases i with
      | zero =>
        cases hline
        cases hline'
        obtain ⟨-, hstop, hlength⟩ := span_ofPiece number offset piece
        obtain ⟨hstart, -, hlength'⟩ := span_ofPiece (number + 1) (offset + byteLength piece + 1) next
        refine ⟨byteLength piece, ⟨charAt?_intercalate_newline piece next rest, ?_, ?_⟩, ?_⟩
        · omega
        · omega
        · rintro k ⟨hk, hle, hlt⟩
          rcases cases_of_charAt?_intercalate hk with hmem | ⟨rfl, -⟩ | ⟨k', rfl, hmem⟩
          · exact absurd (mem_of_charAt? hmem) hpiece
          · rfl
          · -- the blanks in front of the next line are in its piece
            exfalso
            rw [hstart] at hlt
            have hnext := charAt?_of_charAt?_intercalate hmem (by omega)
            exact (List.forall_mem_cons.1 hrest).1 (mem_of_charAt? hnext)
      | succ i =>
        obtain ⟨k, ⟨hk, hle, hlt⟩, hunique⟩ := ih hrest hline hline'
        have hmem : line ∈ ofPieces (number + 1) (offset + byteLength piece + 1) (next :: rest) :=
          List.mem_of_getElem? hline
        obtain ⟨hstart, hstop⟩ := le_start_of_mem_ofPieces hmem
        refine ⟨byteLength piece + 1 + k, ⟨?_, ?_, ?_⟩, ?_⟩
        · rw [charAt?_intercalate_add, hk]
        · omega
        · omega
        · rintro k' ⟨hk', hle', hlt'⟩
          rcases cases_of_charAt?_intercalate hk' with hmem | ⟨rfl, -⟩ | ⟨k'', rfl, hmem⟩
          · have hbefore := lt_of_charAt? hmem
            omega
          · omega
          · rw [hunique k'' ⟨hmem, by omega, by omega⟩]

/-! ## The source -/

/-- The lines are all that a source holds apart from blanks, in their order and at their places: their
spans are ranges of whole characters, one behind the other, at which the texts of the lines are found,
without blanks at their ends. Outside the spans all is blank, and there is one line feed between one
line and the next. -/
structure Layout (source : String) (lines : List Line) : Prop where
  length_eq : lines.length = source.toList.count '\n' + 1
  numbers : lines.map Line.number = List.range' 1 lines.length
  inRange : ∀ line ∈ lines,
    line.span.start ≤ line.span.stop ∧ line.span.stop ≤ source.utf8ByteSize
  onBoundaries : ∀ line ∈ lines, String.Pos.Raw.IsValid source ⟨line.span.start⟩ ∧
    String.Pos.Raw.IsValid source ⟨line.span.stop⟩
  ordered : lines.Pairwise fun line line' => line.span.stop < line'.span.start
  bytes : ∀ line ∈ lines,
    source.toByteArray.extract line.span.start line.span.stop = line.text.toByteArray
  trimmed : ∀ line ∈ lines, (∀ c ∈ line.text.toList.head?, isBlank c = false) ∧
    (∀ c ∈ line.text.toList.getLast?, isBlank c = false) ∧ '\n' ∉ line.text.toList
  blankOutside : ∀ (p : source.Pos) (h : p ≠ source.endPos),
    (∀ line ∈ lines, ¬ line.span.Covers p.offset.byteIdx) → isBlank (p.get h) = true
  newlineBetween : ∀ (i : Nat) (line line' : Line), lines[i]? = some line →
    lines[i + 1]? = some line' →
      ∃! p : source.Pos, line.span.stop ≤ p.offset.byteIdx ∧
        p.offset.byteIdx < line'.span.start ∧ ∃ h, p.get h = '\n'

/-- The text of a line has no line feed. -/
theorem newline_not_mem_text {source : String} {line : Line} (h : line ∈ split source) :
    '\n' ∉ line.text.toList := by
  obtain ⟨i, piece, -, hpiece, htext⟩ := piece_of_mem_ofPieces h
  obtain ⟨hfree, -⟩ := free_of_mem_splitOnP (List.mem_of_getElem? hpiece)
  rw [htext, String.toList_ofList]
  intro hmem
  have hfeed := hfree '\n' (trim_subset piece hmem)
  cases hfeed

/-- **The lines of a source hold everything in it but blanks, each at its place.** -/
theorem split_layout (source : String) : Layout source (split source) := by
  have hsource : ['\n'].intercalate (source.toList.splitOnP (· == '\n')) = source.toList :=
    List.intercalate_splitOn '\n'
  have hfree : ∀ piece ∈ source.toList.splitOnP (· == '\n'), '\n' ∉ piece := by
    intro piece hpiece hmem
    have hfeed := (free_of_mem_splitOnP hpiece).1 '\n' hmem
    cases hfeed
  have hlength : (split source).length = (source.toList.splitOnP (· == '\n')).length := by
    have hnumbers := congrArg List.length (numbers_split source)
    rwa [List.length_map, List.length_range'] at hnumbers
  constructor
  case length_eq => rw [hlength, length_splitOnP_newline]
  case numbers => rw [numbers_split, hlength]
  case inRange =>
    intro line hline
    obtain ⟨-, stop, -, hstop, -⟩ := (standsIn_of_mem_split hline).slice
    refine ⟨(le_start_of_mem_ofPieces hline).2, ?_⟩
    rw [← hstop]
    exact String.Pos.Raw.le_iff.1 stop.isValid.le_rawEndPos
  case onBoundaries =>
    intro line hline
    obtain ⟨start, stop, hstart, hstop, -⟩ := (standsIn_of_mem_split hline).slice
    rw [← hstart, ← hstop]
    exact ⟨start.isValid, stop.isValid⟩
  case ordered => exact pairwise_stop_lt_start_ofPieces 1 0 _
  case bytes =>
    intro line hline
    obtain ⟨start, stop, hstart, hstop, htext⟩ := (standsIn_of_mem_split hline).slice
    rw [← htext, String.toByteArray_extract, hstart, hstop]
  case trimmed =>
    intro line hline
    have htidy := tidy_of_mem_split hline
    exact ⟨head?_of_trimmed htidy, getLast?_of_trimmed htidy, newline_not_mem_text hline⟩
  case blankOutside =>
    intro p hp hout
    have hc : charAt? source.toList p.offset.byteIdx = some (p.get hp) :=
      charAt?_toList_eq_some_iff.2 ⟨p, hp, rfl, rfl⟩
    rw [← hsource] at hc
    refine isBlank_of_not_covers_ofPieces 1 0 hc ?_
    intro line hline
    rw [Nat.zero_add]
    exact hout line hline
  case newlineBetween =>
    intro i line line' hline hline'
    obtain ⟨k, ⟨hk, hle, hlt⟩, hunique⟩ := existsUnique_newline_ofPieces hfree hline hline'
    rw [hsource] at hk
    obtain ⟨p, hp, rfl, hget⟩ := charAt?_toList_eq_some_iff.1 hk
    refine ⟨p, ⟨by omega, by omega, hp, hget⟩, ?_⟩
    rintro p' ⟨hle', hlt', hp', hget'⟩
    have hk' := charAt?_toList_eq_some_iff.2 ⟨p', hp', rfl, hget'⟩
    rw [← hsource] at hk'
    have hoffset := hunique _ ⟨hk', by omega, by omega⟩
    exact String.Pos.ext (String.Pos.Raw.ext hoffset)

end Drawscript.Line
