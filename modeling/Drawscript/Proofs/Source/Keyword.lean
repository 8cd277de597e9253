import Drawscript.Proofs.Text.Fields
import Drawscript.Proofs.Text.Match
import Drawscript.Source.BlockKind

/-!
# Lines by their first word

On a trimmed text a keyword is recognised by comparing it with the first word (`afterKeyword?_eq`),
so that at most one keyword fits. A line that closes a block is one of two lists of words, up to
case (`closes_iff`); in particular its first word is one of a few (`isMark_of_closes`), and so is
that of a bare `else`.
-/

set_option autoImplicit false

namespace Drawscript

open Text

variable {text : List Char}

/-! ## Keywords -/

/-- Looking for a keyword is comparing the first word, provided that the line has no blanks at its
ends. -/
theorem afterKeyword?_eq {keyword : String} (hkeyword : IsWord keyword.toList)
    (htext : trim text = text) :
    afterKeyword? keyword text =
      if (firstWord text).1 = keyword.toList then some (firstWord text).2 else none := by
  rw [afterKeyword?]
  by_cases hlead : (firstWord text).1 = keyword.toList
  · rw [if_pos hlead]
    have hne : trim text ≠ [] := by
      intro hempty
      rw [firstWord, hempty] at hlead
      exact hkeyword.ne_nil hlead.symm
    obtain ⟨-, rest, hsplit, hblank, hrest⟩ := exists_eq_firstWord hne
    rw [htext, hlead] at hsplit
    have hstarts : keyword.toList.isPrefixOf? text = some rest :=
      List.isPrefixOf?_eq_some_iff_append_eq.2 hsplit.symm
    rw [hstarts, ← hrest]
    cases rest with
    | nil => rfl
    | cons c rest => exact if_pos (hblank c rfl)
  · rw [if_neg hlead]
    cases hstarts : keyword.toList.isPrefixOf? text with
    | none => rfl
    | some rest =>
      have hsplit := List.isPrefixOf?_eq_some_iff_append_eq.1 hstarts
      -- if a blank or nothing followed, the keyword would be the first word
      have hblank : ¬ ∀ c ∈ rest.head?, isBlank c = true := by
        intro hblank
        rw [← hsplit, firstWord_append hkeyword hblank] at hlead
        exact hlead rfl
      cases rest with
      | nil => exact absurd (fun c hc => by cases hc) hblank
      | cons c rest =>
        refine if_neg fun hc => hblank fun d hd => ?_
        rw [List.head?_cons, Option.mem_some_iff] at hd
        rw [← hd, hc]

theorem BlockKind.isWord_keyword (kind : BlockKind) : IsWord kind.keyword.toList := by
  cases kind <;> decide

/-- A header is recognised by its first word. -/
theorem ofHeader?_eq_some_iff (htext : trim text = text) {kind : BlockKind} :
    BlockKind.ofHeader? text = some kind ↔ (firstWord text).1 = kind.keyword.toList := by
  have hfits : (fun kind : BlockKind => (afterKeyword? kind.keyword text).isSome) =
      fun kind => decide ((firstWord text).1 = kind.keyword.toList) := by
    funext kind
    rw [afterKeyword?_eq kind.isWord_keyword htext]
    by_cases h : (firstWord text).1 = kind.keyword.toList
    · rw [if_pos h, decide_eq_true h]
      rfl
    · rw [if_neg h, decide_eq_false h]
      rfl
  rw [BlockKind.ofHeader?, hfits]
  constructor
  · intro h
    have hfound := List.find?_some h
    exact of_decide_eq_true hfound
  · intro h
    rw [h]
    cases kind <;> decide

/-- A line opens no block if its first word is none of the keywords. -/
theorem ofHeader?_eq_none (htext : trim text = text)
    (h : ∀ kind : BlockKind, (firstWord text).1 ≠ kind.keyword.toList) :
    BlockKind.ofHeader? text = none := by
  cases hheader : BlockKind.ofHeader? text with
  | none => rfl
  | some kind => exact absurd ((ofHeader?_eq_some_iff htext).1 hheader) (h kind)

/-! ## Terminators -/

/-- The text in lower case. -/
def lowered (text : List Char) : List Char :=
  text.map Char.toLower

theorem isWord_lowered {word : List Char} (h : IsWord word) : IsWord (lowered word) where
  ne_nil := fun hnil => h.ne_nil (List.map_eq_nil_iff.1 hnil)
  free := List.forall_mem_map.2 fun c hc => (isBlank_toLower c).trans (h.free c hc)

/-- A line closes a block of a kind if it is `end` and the keyword, as two words or one. -/
theorem closes_iff {kind : BlockKind} :
    kind.closes text = true ↔
      (words text).map lowered = ["end".toList, kind.keyword.toList] ∨
        (words text).map lowered = [("end" ++ kind.keyword).toList] := by
  -- the line is compared as one text; its words are found again in that text
  have hwords : words (spaced ((words text).map lowered)) = (words text).map lowered := by
    refine (fields_spaced (by decide) _).trans (flatMap_fields fun word hword => ?_)
    obtain ⟨original, horiginal, rfl⟩ := List.mem_map.1 hword
    exact isWord_lowered (isField_of_mem_fields horiginal).1
  have hclosing : words kind.closing.toList = ["end".toList, kind.keyword.toList] := by
    cases kind <;> decide
  have hjoined : words ("end" ++ kind.keyword).toList = [("end" ++ kind.keyword).toList] := by
    cases kind <;> decide
  have hcloses : kind.closes text = true ↔
      spaced ((words text).map lowered) = kind.closing.toList ∨
        spaced ((words text).map lowered) = ("end" ++ kind.keyword).toList := by
    rw [BlockKind.closes, Bool.or_eq_true, beq_iff_eq, beq_iff_eq]
    rfl
  rw [hcloses]
  constructor
  · rintro (h | h)
    · exact Or.inl (by rw [← hwords, h, hclosing])
    · exact Or.inr (by rw [← hwords, h, hjoined])
  · rintro (h | h)
    · exact Or.inl (by rw [h]; cases kind <;> decide)
    · exact Or.inr (by rw [h]; exact List.intercalate_singleton)

/-- A line closes blocks of one kind at most. -/
theorem closes_unique {kind kind' : BlockKind} (h : kind.closes text = true)
    (h' : kind'.closes text = true) : kind = kind' := by
  -- the words of the line would be equal to two of the eight lists of words
  rcases closes_iff.1 h with h | h <;> rcases closes_iff.1 h' with h' | h' <;> rw [h] at h' <;>
    revert h' <;> cases kind <;> cases kind' <;> decide

/-- The first word of a line that closes a block, for both ways to write it. -/
theorem lowered_firstWord_of_closes {kind : BlockKind} (h : kind.closes text = true) :
    lowered (firstWord text).1 = "end".toList ∨
      lowered (firstWord text).1 = ("end" ++ kind.keyword).toList := by
  have hne : trim text ≠ [] := by
    intro hempty
    rw [closes_iff, ← words_trim, hempty] at h
    rcases h with h | h <;> cases h
  rw [closes_iff, words_eq_cons hne, List.map_cons] at h
  rcases h with h | h
  · exact Or.inl (List.cons.inj h).1
  · exact Or.inr (List.cons.inj h).1

theorem lowered_firstWord_of_isElse (h : isElse text = true) :
    lowered (firstWord text).1 = "else".toList := by
  have hlowered : lowered (trim text) = "else".toList := beq_iff_eq.1 h
  -- no letter of `else` is blank in either case
  have hword : IsWord (trim text) := by
    constructor
    · intro hnil
      rw [hnil] at hlowered
      cases hlowered
    · intro c hc
      have hmem : c.toLower ∈ "else".toList := hlowered ▸ List.mem_map_of_mem hc
      have hwhole : IsWord "else".toList := by decide
      rw [← isBlank_toLower]
      exact hwhole.free _ hmem
  rw [← firstWord_trim, firstWord_eq_self hword, hlowered]

/-- No line both closes and divides a block. -/
theorem isElse_of_closes {kind : BlockKind} (h : kind.closes text = true) :
    isElse text = false := by
  by_contra helse
  have helse := lowered_firstWord_of_isElse (Bool.not_eq_false _ ▸ helse)
  rcases lowered_firstWord_of_closes h with hclose | hclose <;> rw [helse] at hclose <;>
    revert hclose <;> cases kind <;> decide

/-- The first words, up to case, of lines that divide or close a block. -/
def isMark (word : List Char) : Bool :=
  ["else", "end", "endwhile", "endfor", "endif", "endmethod"].any fun mark =>
    lowered word == mark.toList

/-- No keyword that opens a block also divides or closes one. -/
theorem isMark_keyword (kind : BlockKind) : isMark kind.keyword.toList = false := by
  cases kind <;> decide

/-- Lines that close a block are known from their first word. -/
theorem isMark_of_closes {kind : BlockKind} (h : kind.closes text = true) :
    isMark (firstWord text).1 = true := by
  rw [isMark]
  rcases lowered_firstWord_of_closes h with hlead | hlead <;> rw [hlead] <;> cases kind <;> decide

theorem closes_eq_false_of_isMark (h : isMark (firstWord text).1 = false) (kind : BlockKind) :
    kind.closes text = false := by
  by_contra hcloses
  have hmark := isMark_of_closes (Bool.not_eq_false _ ▸ hcloses)
  exact Bool.false_ne_true (h.symm.trans hmark)

theorem isMark_of_isElse (h : isElse text = true) : isMark (firstWord text).1 = true := by
  rw [isMark, lowered_firstWord_of_isElse h]
  decide

/-! ## Lines that stand for themselves -/

/-- The text of a line that carries a statement of its own: it is not skipped, and it neither opens
nor divides nor closes a block. -/
structure IsSimple (text : List Char) : Prop where
  trimmed : trim text = text
  ne_nil : text ≠ []
  star : text.head? ≠ some '*'
  header : BlockKind.ofHeader? text = none
  terminator : isTerminator text = false
  divider : isElse text = false

/-- A word that, in front of a line, makes it a simple one. -/
def isOrdinary (word : List Char) : Bool :=
  !word.isEmpty && word.head? != some '*' && !isMark word &&
    BlockKind.all.all fun kind => word != kind.keyword.toList

/-- Whether a line carries a statement of its own is decided by its first word. -/
theorem isSimple_of_isOrdinary (htext : trim text = text)
    (h : isOrdinary (firstWord text).1 = true) : IsSimple text := by
  simp only [isOrdinary, Bool.and_eq_true, Bool.not_eq_true', List.isEmpty_eq_false_iff, bne_iff_ne,
    List.all_eq_true] at h
  obtain ⟨⟨⟨hne, hstar⟩, hmark⟩, hkeyword⟩ := h
  have hnonblank : trim text ≠ [] := by
    intro hempty
    rw [firstWord, hempty] at hne
    exact hne rfl
  obtain ⟨-, rest, hsplit, -, -⟩ := exists_eq_firstWord hnonblank
  refine ⟨htext, htext ▸ hnonblank, ?_, ?_, ?_, ?_⟩
  · rw [← htext, hsplit, List.head?_append_of_ne_nil _ hne]
    exact hstar
  · refine ofHeader?_eq_none htext fun kind => hkeyword kind ?_
    cases kind <;> decide
  · rw [isTerminator, List.any_eq_false]
    intro kind _ hcloses
    rw [isMark_of_closes hcloses] at hmark
    cases hmark
  · rw [Bool.eq_false_iff]
    intro helse
    rw [isMark_of_isElse helse] at hmark
    cases hmark

end Drawscript
