import Drawscript.Source.Span
import Drawscript.Text.Blank
import Mathlib.Tactic

/-!
# Characters at offsets

Spans count bytes, while texts are lists of characters. The character that starts at an offset is
found by passing over the characters before it (`charAt?`); an offset inside the bytes of a character
has none. The offsets with a character are those of the positions of a string
(`charAt?_toList_eq_some_iff`), so that what is proved along the list of characters can be said of the
bytes of the text.
-/

set_option autoImplicit false

namespace Drawscript

/-- The offset is that of a byte of the span. -/
def Span.Covers (span : Span) (offset : Nat) : Prop :=
  span.start ≤ offset ∧ offset < span.stop

instance (span : Span) (offset : Nat) : Decidable (span.Covers offset) :=
  inferInstanceAs (Decidable (_ ∧ _))

namespace Text

/-! ## Lengths in bytes -/

theorem byteLength_append (first second : List Char) :
    byteLength (first ++ second) = byteLength first + byteLength second := by
  induction first with
  | nil => exact (Nat.zero_add _).symm
  | cons c rest ih => rw [List.cons_append, byteLength, byteLength, ih, Nat.add_assoc]

/-- Lengths in bytes are those of the library for strings. -/
theorem byteLength_eq_utf8ByteSize (text : List Char) :
    byteLength text = (String.ofList text).utf8ByteSize := by
  induction text with
  | nil => rfl
  | cons c rest ih =>
    rw [byteLength, ih]
    simp

theorem byteLength_toList (text : String) : byteLength text.toList = text.utf8ByteSize := by
  rw [byteLength_eq_utf8ByteSize, String.ofList_toList]

/-! ## Characters -/

/-- The character whose first byte is at the offset. -/
def charAt? : List Char → Nat → Option Char
  | [], _ => none
  | c :: rest, offset =>
    if offset = 0 then some c
    else if c.utf8Size ≤ offset then charAt? rest (offset - c.utf8Size)
    else none

theorem charAt?_cons_zero (c : Char) (rest : List Char) : charAt? (c :: rest) 0 = some c := rfl

theorem charAt?_cons_add (c : Char) (rest : List Char) (offset : Nat) :
    charAt? (c :: rest) (c.utf8Size + offset) = charAt? rest offset := by
  have hpos := c.utf8Size_pos
  rw [charAt?, if_neg (by omega), if_pos (by omega), Nat.add_sub_cancel_left]

/-- The characters of a second part are found behind the bytes of the first. -/
theorem charAt?_append_add (first second : List Char) (offset : Nat) :
    charAt? (first ++ second) (byteLength first + offset) = charAt? second offset := by
  induction first generalizing offset with
  | nil => rw [byteLength, Nat.zero_add, List.nil_append]
  | cons c rest ih => rw [byteLength, Nat.add_assoc, List.cons_append, charAt?_cons_add, ih]

/-- A character is found where it stands. -/
theorem charAt?_append_cons (front : List Char) (c : Char) (back : List Char) :
    charAt? (front ++ c :: back) (byteLength front) = some c := by
  have hadd := charAt?_append_add front (c :: back) 0
  rwa [Nat.add_zero, charAt?_cons_zero] at hadd

/-- A character that is found stands in the text after as many bytes. -/
theorem exists_eq_append_of_charAt? {text : List Char} {offset : Nat} {c : Char}
    (h : charAt? text offset = some c) :
    ∃ front back, text = front ++ c :: back ∧ byteLength front = offset := by
  induction text generalizing offset with
  | nil => cases h
  | cons d rest ih =>
    rw [charAt?] at h
    split_ifs at h with hzero hle
    · cases h
      exact ⟨[], rest, rfl, hzero.symm⟩
    · obtain ⟨front, back, rfl, hfront⟩ := ih h
      refine ⟨d :: front, back, rfl, ?_⟩
      rw [byteLength, hfront, Nat.add_sub_cancel' hle]

/-- There is no character at or behind the end. -/
theorem lt_of_charAt? {text : List Char} {offset : Nat} {c : Char}
    (h : charAt? text offset = some c) : offset < byteLength text := by
  obtain ⟨front, back, rfl, rfl⟩ := exists_eq_append_of_charAt? h
  have hpos := c.utf8Size_pos
  rw [byteLength_append, byteLength]
  omega

theorem mem_of_charAt? {text : List Char} {offset : Nat} {c : Char}
    (h : charAt? text offset = some c) : c ∈ text := by
  obtain ⟨front, back, rfl, -⟩ := exists_eq_append_of_charAt? h
  exact List.mem_append_right front List.mem_cons_self

/-- A character of two texts put together is one of the first, or one of the second after all bytes
of the first. -/
theorem cases_of_charAt?_append {first second : List Char} {offset : Nat} {c : Char}
    (h : charAt? (first ++ second) offset = some c) :
    charAt? first offset = some c ∨
      ∃ rest, offset = byteLength first + rest ∧ charAt? second rest = some c := by
  obtain ⟨front, back, htext, rfl⟩ := exists_eq_append_of_charAt? h
  rcases List.append_eq_append_iff.1 htext with ⟨middle, rfl, rfl⟩ | ⟨middle, rfl, hmiddle⟩
  · right
    exact ⟨byteLength middle, byteLength_append first middle, charAt?_append_cons middle c back⟩
  · cases middle with
    | nil =>
      right
      rw [List.append_nil]
      refine ⟨0, rfl, ?_⟩
      rw [List.nil_append] at hmiddle
      rw [← hmiddle, charAt?_cons_zero]
    | cons d middle =>
      left
      obtain ⟨rfl, -⟩ := List.cons.inj hmiddle
      exact charAt?_append_cons front c middle

/-- The characters of a string are those at its positions. -/
theorem charAt?_toList_eq_some_iff {text : String} {offset : Nat} {c : Char} :
    charAt? text.toList offset = some c ↔
      ∃ (p : text.Pos) (h : p ≠ text.endPos), p.offset.byteIdx = offset ∧ p.get h = c := by
  constructor
  · intro hc
    obtain ⟨front, back, htext, rfl⟩ := exists_eq_append_of_charAt? hc
    have happend : text = String.ofList front ++ (String.singleton c ++ String.ofList back) := by
      rw [← String.ofList_toList (s := text), htext, String.ofList_append, String.ofList_cons]
    have hsplits := String.Pos.splits_ofEqAppend happend
    refine ⟨_, hsplits.ne_endPos_of_singleton, ?_, hsplits.next.get_eq_of_singleton⟩
    rw [hsplits.offset_eq_rawEndPos, byteLength_eq_utf8ByteSize]
    rfl
  · rintro ⟨p, hp, rfl, rfl⟩
    obtain ⟨happend, hoffset⟩ := p.splits_next_right hp
    have htext : text.toList = (text.sliceTo p).copy.toList ++
        p.get hp :: (text.sliceFrom (p.next hp)).copy.toList := by
      conv_lhs => rw [happend]
      simp
    have hlength : p.offset.byteIdx = byteLength (text.sliceTo p).copy.toList := by
      rw [hoffset, byteLength_toList]
      rfl
    rw [htext, hlength, charAt?_append_cons]

end Text

end Drawscript
