import Drawscript.Proofs.Text.Trim
import Drawscript.Text.Match
import Mathlib

/-!
# Cutting texts, and identifiers

Exact conditions for a cut at a single character (`cut?_eq_some_iff`, `cut?_eq_none_iff`), and for
being an identifier (`isIdentifier_iff`). A cut at a longer pattern is made where the pattern occurs
first (`exists_cut?_append`), and there is none if it does not occur (`cut?_eq_none_iff_absent`).
Word characters and digits are told by their codes, and so is what lower case does to them.
-/

set_option autoImplicit false

namespace Drawscript.Text

variable {c : Char} {text : List Char}

/-! ## Cuts -/

theorem cut?_cons (c d : Char) (rest : List Char) :
    cut? [c] (d :: rest) =
      if c = d then some ([], rest)
      else (cut? [c] rest).map fun (before, after) => (d :: before, after) := by
  rw [cut?]
  by_cases h : c = d
  · subst h
    rw [if_pos rfl, List.isPrefixOf?, beq_self_eq_true]
    rfl
  · rw [if_neg h, List.isPrefixOf?, beq_false_of_ne h]
    rfl

/-- A text is cut where the character stands first. -/
theorem cut?_eq_some_iff {before after : List Char} :
    cut? [c] text = some (before, after) ↔ text = before ++ c :: after ∧ c ∉ before := by
  induction text generalizing before with
  | nil =>
    refine ⟨nofun, fun h => ?_⟩
    exact absurd h.1.symm (List.append_ne_nil_of_right_ne_nil _ (List.cons_ne_nil _ _))
  | cons d rest ih =>
    rw [cut?_cons]
    by_cases hd : c = d
    · subst hd
      rw [if_pos rfl]
      constructor
      · intro h
        cases h
        exact ⟨rfl, List.not_mem_nil⟩
      · rintro ⟨htext, hnot⟩
        cases before with
        | nil =>
          cases htext
          rfl
        | cons e before =>
          -- what stands before the cut would start with `c`
          obtain rfl : c = e := (List.cons.inj htext).1
          exact absurd List.mem_cons_self hnot
    · rw [if_neg hd]
      constructor
      · intro h
        obtain ⟨⟨before, after⟩, hcut, heq⟩ := Option.map_eq_some_iff.1 h
        cases heq
        obtain ⟨rfl, hnot⟩ := ih.1 hcut
        exact ⟨rfl, List.not_mem_cons_of_ne_of_not_mem hd hnot⟩
      · rintro ⟨htext, hnot⟩
        cases before with
        | nil => exact absurd (List.cons.inj htext).1.symm hd
        | cons e before =>
          obtain ⟨rfl, hrest⟩ := List.cons.inj htext
          rw [ih.2 ⟨hrest, List.not_mem_of_not_mem_cons hnot⟩]
          rfl

/-- A text is not cut at a character only if it does not have it. -/
theorem cut?_eq_none_iff : cut? [c] text = none ↔ c ∉ text := by
  induction text with
  | nil => exact ⟨fun _ => List.not_mem_nil, fun _ => rfl⟩
  | cons d rest ih =>
    rw [cut?_cons, List.mem_cons, not_or]
    by_cases hd : c = d
    · rw [if_pos hd]
      exact ⟨nofun, fun h => absurd hd h.1⟩
    · rw [if_neg hd, Option.map_eq_none_iff, ih]
      exact ⟨fun h => ⟨hd, h⟩, And.right⟩

theorem cut?_cons_of_starts {pattern rest after : List Char}
    (h : c :: rest = pattern ++ after) : cut? pattern (c :: rest) = some ([], after) := by
  rw [cut?, List.isPrefixOf?_eq_some_iff_append_eq.2 h.symm]

/-- Where the pattern does not start, the search moves on by one character. -/
theorem cut?_cons_of_not_starts {pattern rest : List Char} (h : ¬ pattern <+: c :: rest) :
    cut? pattern (c :: rest) =
      (cut? pattern rest).map fun (before, after) => (c :: before, after) := by
  rw [cut?]
  cases hstarts : pattern.isPrefixOf? (c :: rest) with
  | none => rfl
  | some after => exact absurd ⟨after, List.isPrefixOf?_eq_some_iff_append_eq.1 hstarts⟩ h

/-- A text is cut at the first occurrence of a pattern, so that what follows any occurrence is at the
end of what follows the cut. -/
theorem exists_cut?_append {pattern : List Char} (hne : pattern ≠ []) (before after : List Char) :
    ∃ start rest, cut? pattern (before ++ (pattern ++ after)) = some (start, rest) ∧
      after <:+ rest := by
  induction before with
  | nil =>
    obtain ⟨c, tail, rfl⟩ := List.exists_cons_of_ne_nil hne
    exact ⟨[], after, cut?_cons_of_starts rfl, List.suffix_rfl⟩
  | cons c before ih =>
    rw [List.cons_append]
    by_cases hstarts : pattern <+: c :: (before ++ (pattern ++ after))
    · obtain ⟨rest, hrest⟩ := hstarts
      refine ⟨[], rest, cut?_cons_of_starts hrest.symm, ?_⟩
      -- both are ends of the text, and the one after the earlier occurrence is longer
      have hlength := congrArg List.length hrest
      simp only [List.length_append, List.length_cons] at hlength
      have hafter : after <:+ pattern ++ rest := by
        rw [hrest]
        exact ⟨c :: before ++ pattern, by simp⟩
      exact List.suffix_of_suffix_length_le hafter (List.suffix_append pattern rest) (by omega)
    · obtain ⟨start, rest, hcut, hafter⟩ := ih
      refine ⟨c :: start, rest, ?_, hafter⟩
      rw [cut?_cons_of_not_starts hstarts, hcut]
      rfl

/-- A text is not cut if the pattern does not occur in it. -/
theorem cut?_eq_none_iff_absent {pattern : List Char} (hne : pattern ≠ []) :
    cut? pattern text = none ↔ ¬ pattern <:+: text := by
  constructor
  · rintro hcut ⟨before, after, rfl⟩
    obtain ⟨start, rest, hsome, -⟩ := exists_cut?_append hne before after
    rw [← List.append_assoc, hcut] at hsome
    cases hsome
  · intro h
    induction text with
    | nil =>
      rw [cut?, if_neg]
      rwa [List.isEmpty_iff]
    | cons c rest ih =>
      rw [List.infix_cons_iff, not_or] at h
      rw [cut?_cons_of_not_starts h.1, ih h.2]
      rfl

/-- A text is cut at a pattern whose first character does not stand before it. -/
theorem cut?_append_of_not_mem {before : List Char} (h : c ∉ before) (tail after : List Char) :
    cut? (c :: tail) (before ++ (c :: tail ++ after)) = some (before, after) := by
  induction before with
  | nil => exact cut?_cons_of_starts rfl
  | cons d before ih =>
    rw [List.mem_cons, not_or] at h
    have hstarts : ¬ c :: tail <+: d :: (before ++ (c :: tail ++ after)) := by
      rw [List.cons_prefix_cons]
      exact fun hstarts => h.1 hstarts.1
    rw [List.cons_append, cut?_cons_of_not_starts hstarts, ih h.2]
    rfl

/-- A last character can be dropped only if it is the one that is asked for. -/
theorem dropLast?_eq_some_iff {init : List Char} :
    dropLast? c text = some init ↔ text = init ++ [c] := by
  rw [dropLast?]
  constructor
  · intro h
    by_cases hlast : text.getLast? = some c
    · rw [if_pos hlast] at h
      cases h
      exact (List.dropLast_append_getLast? c hlast).symm
    · rw [if_neg hlast] at h
      cases h
  · rintro rfl
    rw [List.getLast?_concat, if_pos rfl, List.dropLast_concat]

theorem unquote?_quoted (content : List Char) :
    unquote? ('"' :: (content ++ ['"'])) = some content :=
  dropLast?_eq_some_iff.2 rfl

theorem unquote?_of_not_mem (h : '"' ∉ text) : unquote? text = none := by
  rw [unquote?]
  rintro rest rfl
  exact h List.mem_cons_self

/-! ## Identifiers -/

/-- The word characters by their codes. -/
theorem isWordChar_iff :
    isWordChar c = true ↔
      (48 ≤ c.toNat ∧ c.toNat ≤ 57) ∨ (65 ≤ c.toNat ∧ c.toNat ≤ 90) ∨ c.toNat = 95 ∨
        (97 ≤ c.toNat ∧ c.toNat ≤ 122) := by
  simp only [isWordChar, Char.isAlphanum, Char.isAlpha, Char.isUpper, Char.isLower, Char.isDigit,
    Bool.or_eq_true, Bool.and_eq_true, decide_eq_true_eq, beq_iff_eq, UInt32.le_iff_toNat_le,
    ge_iff_le, Char.ext_iff, UInt32.toNat_inj.symm, UInt32.reduceToNat, Char.reduceVal, Char.toNat]
  omega

theorem isDigit_iff : c.isDigit = true ↔ 48 ≤ c.toNat ∧ c.toNat ≤ 57 := by
  simp only [Char.isDigit, Bool.and_eq_true, decide_eq_true_eq, UInt32.le_iff_toNat_le, ge_iff_le]
  exact Iff.rfl

/-- No character of a word is blank. -/
theorem isBlank_of_isWordChar (h : isWordChar c = true) : isBlank c = false := by
  rw [isWordChar_iff] at h
  simp only [isBlank, Bool.or_eq_false_iff, Bool.and_eq_false_iff, decide_eq_false_iff_not,
    beq_eq_false_iff_ne]
  omega

theorem isWordChar_of_isBlank (h : isBlank c = true) : isWordChar c = false := by
  by_contra hword
  rw [isBlank_of_isWordChar (Bool.eq_true_of_not_eq_false hword)] at h
  cases h

/-- A capital letter goes to the letter 32 places on, and any other character to itself. -/
theorem toNat_toLower (c : Char) :
    c.toLower.toNat = if 65 ≤ c.toNat ∧ c.toNat ≤ 90 then c.toNat + 32 else c.toNat := by
  unfold Char.toLower
  split
  case isTrue hupper =>
    have hlow : 65 ≤ c.val.toNat := UInt32.le_iff_toNat_le.1 hupper.1
    have hhigh : c.val.toNat ≤ 90 := UInt32.le_iff_toNat_le.1 hupper.2
    have hsum : (c.val + ('a'.val - 'A'.val)).toNat = c.val.toNat + 32 := by
      have hshift : ('a'.val - 'A'.val).toNat = 32 := rfl
      rw [UInt32.toNat_add, hshift, Nat.mod_eq_of_lt (by omega)]
    rw [if_pos ⟨hlow, hhigh⟩]
    exact hsum
  case isFalse hother =>
    rw [if_neg]
    rintro ⟨hlow, hhigh⟩
    exact hother ⟨UInt32.le_iff_toNat_le.2 hlow, UInt32.le_iff_toNat_le.2 hhigh⟩

@[simp] theorem isBlank_toLower (c : Char) : isBlank c.toLower = isBlank c := by
  rw [isBlank, isBlank, toNat_toLower, Bool.eq_iff_iff]
  simp only [Bool.or_eq_true, Bool.and_eq_true, decide_eq_true_eq, beq_iff_eq]
  split <;> omega

theorem isDigit_toLower (c : Char) : c.toLower.isDigit = c.isDigit := by
  rw [Bool.eq_iff_iff, isDigit_iff, isDigit_iff, toNat_toLower]
  split <;> omega

theorem isWordChar_toLower (c : Char) : isWordChar c.toLower = isWordChar c := by
  rw [Bool.eq_iff_iff, isWordChar_iff, isWordChar_iff, toNat_toLower]
  split <;> omega

/-- An identifier is a nonempty run of word characters that does not start with a digit. -/
theorem isIdentifier_iff :
    isIdentifier text = true ↔ text ≠ [] ∧ (∀ c ∈ text, isWordChar c = true) ∧
      ∀ c ∈ text.head?, c.isDigit = false := by
  cases text with
  | nil => simp [isIdentifier]
  | cons c rest =>
    have hfirst : (c.isAlpha || c == '_') = true ↔ isWordChar c = true ∧ c.isDigit = false := by
      rw [isWordChar_iff, ← Bool.not_eq_true, isDigit_iff]
      simp only [Char.isAlpha, Char.isUpper, Char.isLower, Bool.or_eq_true, Bool.and_eq_true,
        decide_eq_true_eq, beq_iff_eq, UInt32.le_iff_toNat_le, ge_iff_le, Char.ext_iff,
        UInt32.toNat_inj.symm, UInt32.reduceToNat, Char.reduceVal, Char.toNat]
      omega
    rw [isIdentifier, Bool.and_eq_true, hfirst]
    simp [and_assoc, and_comm]

/-- An identifier is made of word characters, at least one. -/
theorem wordChars_of_isIdentifier (h : isIdentifier text = true) :
    text ≠ [] ∧ ∀ c ∈ text, isWordChar c = true :=
  ⟨(isIdentifier_iff.1 h).1, (isIdentifier_iff.1 h).2.1⟩

theorem isWord_of_isIdentifier (h : isIdentifier text = true) : IsWord text :=
  ⟨(wordChars_of_isIdentifier h).1,
    fun c hc => isBlank_of_isWordChar ((wordChars_of_isIdentifier h).2 c hc)⟩

/-- No operator, bracket or blank can be in an identifier. -/
theorem not_mem_of_isIdentifier (h : isIdentifier text = true) (hc : isWordChar c = false) :
    c ∉ text := by
  intro hmem
  rw [(wordChars_of_isIdentifier h).2 c hmem] at hc
  cases hc

end Drawscript.Text
