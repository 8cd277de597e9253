import Drawscript.Text.Blank
import Mathlib.Data.List.DropRight
import Mathlib.Data.List.TakeWhile
import Mathlib.Tactic

/-!
# Trimming and first words

A text is its trimmed form between blanks (`exists_eq_trim`), and blanks around a text do not matter
to its trimmed form. A first word is what stands before the first blank of the trimmed text; a word
put in front of a text with a blank between them is its first word (`firstWord_append`).
-/

set_option autoImplicit false

namespace Drawscript.Text

variable {text : List Char}

/-! ## Trimming -/

theorem trimStart_eq_self (h : ∀ c ∈ text.head?, isBlank c = false) : trimStart text = text := by
  cases text with
  | nil => rfl
  | cons c rest =>
    have hc := h c rfl
    exact List.dropWhile_cons_of_neg (by rw [hc]; exact Bool.false_ne_true)

theorem trimEnd_eq_self (h : ∀ c ∈ text.getLast?, isBlank c = false) : trimEnd text = text := by
  refine List.rdropWhile_eq_self_iff.2 fun hne => ?_
  rw [h _ (List.getLast?_eq_some_getLast hne)]
  exact Bool.false_ne_true

theorem head?_trimStart (text : List Char) : ∀ c ∈ (trimStart text).head?, isBlank c = false := by
  intro c hc
  have hnot := List.head?_dropWhile_not isBlank text
  rw [← trimStart, Option.mem_def.1 hc] at hnot
  exact hnot

theorem getLast?_trimEnd (text : List Char) : ∀ c ∈ (trimEnd text).getLast?, isBlank c = false := by
  intro c hc
  have hreverse : (trimEnd text).getLast? = (trimStart text.reverse).head? := List.getLast?_reverse
  rw [hreverse] at hc
  exact head?_trimStart text.reverse c hc

/-- A text is its trimmed start behind blanks. -/
theorem exists_eq_trimStart (text : List Char) :
    ∃ before, (∀ c ∈ before, isBlank c = true) ∧ text = before ++ trimStart text :=
  ⟨text.takeWhile isBlank, fun _ hc => List.mem_takeWhile_imp hc,
    List.takeWhile_append_dropWhile.symm⟩

theorem exists_eq_trimEnd (text : List Char) :
    ∃ after, (∀ c ∈ after, isBlank c = true) ∧ text = trimEnd text ++ after :=
  ⟨text.rtakeWhile isBlank, fun _ hc => List.mem_rtakeWhile_imp hc,
    List.rdropWhile_append_rtakeWhile.symm⟩

/-- A text is its trimmed form with blanks on both sides. -/
theorem exists_eq_trim (text : List Char) :
    ∃ before after, (∀ c ∈ before, isBlank c = true) ∧ (∀ c ∈ after, isBlank c = true) ∧
      text = before ++ (trim text ++ after) := by
  obtain ⟨before, hbefore, hstart⟩ := exists_eq_trimStart text
  obtain ⟨after, hafter, hend⟩ := exists_eq_trimEnd (trimStart text)
  exact ⟨before, after, hbefore, hafter, hstart.trans (congrArg (before ++ ·) hend)⟩

theorem trim_subset (text : List Char) : trim text ⊆ text := by
  obtain ⟨before, after, -, -, htext⟩ := exists_eq_trim text
  intro c hc
  rw [htext]
  exact List.mem_append_right _ (List.mem_append_left _ hc)

/-- Trimming loses blanks only. -/
theorem mem_trim {c : Char} (h : c ∈ text) (hc : isBlank c = false) : c ∈ trim text := by
  obtain ⟨before, after, hbefore, hafter, htext⟩ := exists_eq_trim text
  rw [htext, List.mem_append, List.mem_append] at h
  rcases h with h | h | h
  · rw [hbefore c h] at hc
    cases hc
  · exact h
  · rw [hafter c h] at hc
    cases hc

/-- A trimmed text neither starts nor ends with a blank. -/
theorem head?_trim (text : List Char) : ∀ c ∈ (trim text).head?, isBlank c = false := by
  intro c hc
  obtain ⟨after, -, hend⟩ := exists_eq_trimEnd (trimStart text)
  refine head?_trimStart text c ?_
  rw [hend]
  exact List.mem_head?_append_of_mem_head? hc

/-- A text without blanks at its ends is left as it is. -/
theorem trim_eq_self (hhead : ∀ c ∈ text.head?, isBlank c = false)
    (hlast : ∀ c ∈ text.getLast?, isBlank c = false) : trim text = text := by
  rw [trim, trimStart_eq_self hhead, trimEnd_eq_self hlast]

@[simp] theorem trim_trim (text : List Char) : trim (trim text) = trim text :=
  trim_eq_self (head?_trim text) (getLast?_trimEnd _)

theorem head?_of_trimmed (h : trim text = text) : ∀ c ∈ text.head?, isBlank c = false :=
  h ▸ head?_trim text

theorem getLast?_of_trimmed (h : trim text = text) : ∀ c ∈ text.getLast?, isBlank c = false :=
  h ▸ getLast?_trimEnd (trimStart text)

/-- Blanks in front do not matter to trimming. -/
theorem trim_blank_append {before : List Char} (h : ∀ c ∈ before, isBlank c = true)
    (text : List Char) : trim (before ++ text) = trim text := by
  rw [trim, trimStart, List.dropWhile_append_of_pos h]
  rfl

theorem trimEnd_append_blank {after : List Char} (h : ∀ c ∈ after, isBlank c = true)
    (text : List Char) : trimEnd (text ++ after) = trimEnd text := by
  rw [trimEnd, List.reverse_append,
    List.dropWhile_append_of_pos fun c hc => h c (List.mem_reverse.1 hc)]
  rfl

/-- Blanks at the end do not matter to trimming. -/
theorem trim_append_blank {after : List Char} (h : ∀ c ∈ after, isBlank c = true)
    (text : List Char) : trim (text ++ after) = trim text := by
  rw [trim, trim, trimStart, trimStart, List.dropWhile_append]
  -- if the text is blank, the blanks after it are dropped from the front
  by_cases hempty : (text.dropWhile isBlank).isEmpty = true
  · rw [if_pos hempty, List.dropWhile_eq_nil_iff.2 h, List.isEmpty_iff.1 hempty]
  · rw [if_neg hempty, trimEnd_append_blank h]

theorem trim_space_cons (text : List Char) : trim (' ' :: text) = trim text :=
  trim_blank_append (List.forall_mem_singleton.2 rfl) text

theorem trim_append_space (text : List Char) : trim (text ++ [' ']) = trim text :=
  trim_append_blank (List.forall_mem_singleton.2 rfl) text

@[simp] theorem trim_trimEnd (text : List Char) : trim (trimEnd text) = trim text := by
  obtain ⟨after, hafter, htext⟩ := exists_eq_trimEnd text
  conv_rhs => rw [htext, trim_append_blank hafter]

@[simp] theorem trim_trimStart (text : List Char) : trim (trimStart text) = trim text := by
  obtain ⟨before, hbefore, htext⟩ := exists_eq_trimStart text
  conv_rhs => rw [htext, trim_blank_append hbefore]

/-- A nonempty text without blanks at its ends. -/
structure IsTrimmed (text : List Char) : Prop where
  ne_nil : text ≠ []
  trim_eq : trim text = text

/-- Two trimmed texts hold what stands between them. -/
theorem IsTrimmed.between {first last : List Char} (hfirst : IsTrimmed first)
    (hlast : IsTrimmed last) (middle : List Char) : IsTrimmed (first ++ (middle ++ last)) where
  ne_nil := List.append_ne_nil_of_left_ne_nil hfirst.ne_nil _
  trim_eq := by
    refine trim_eq_self (fun c hc => head?_of_trimmed hfirst.trim_eq c ?_)
      fun c hc => getLast?_of_trimmed hlast.trim_eq c ?_
    · rwa [List.head?_append_of_ne_nil _ hfirst.ne_nil] at hc
    · rwa [← List.append_assoc, List.getLast?_append_of_ne_nil _ hlast.ne_nil] at hc

/-- Around a trimmed text only the outer ends are trimmed. -/
theorem IsTrimmed.trim_around {middle : List Char} (h : IsTrimmed middle)
    (before after : List Char) :
    trim (before ++ (middle ++ after)) = trimStart before ++ (middle ++ trimEnd after) := by
  obtain ⟨blanks, hblanks, hbefore⟩ := exists_eq_trimStart before
  obtain ⟨blanks', hblanks', hafter⟩ := exists_eq_trimEnd after
  have hinner : trim (trimStart before ++ (middle ++ trimEnd after)) =
      trimStart before ++ (middle ++ trimEnd after) := by
    apply trim_eq_self
    · intro c hc
      by_cases hempty : trimStart before = []
      · rw [hempty, List.nil_append, List.head?_append_of_ne_nil _ h.ne_nil] at hc
        exact head?_of_trimmed h.trim_eq c hc
      · rw [List.head?_append_of_ne_nil _ hempty] at hc
        exact head?_trimStart before c hc
    · intro c hc
      rw [← List.append_assoc] at hc
      by_cases hempty : trimEnd after = []
      · rw [hempty, List.append_nil, List.getLast?_append_of_ne_nil _ h.ne_nil] at hc
        exact getLast?_of_trimmed h.trim_eq c hc
      · rw [List.getLast?_append_of_ne_nil _ hempty] at hc
        exact getLast?_trimEnd after c hc
  calc trim (before ++ (middle ++ after))
      = trim (blanks ++ ((trimStart before ++ (middle ++ trimEnd after)) ++ blanks')) := by
        conv_lhs => rw [hbefore, hafter]
        simp only [List.append_assoc]
    _ = trimStart before ++ (middle ++ trimEnd after) := by
        rw [trim_blank_append hblanks, trim_append_blank hblanks', hinner]

/-! ## First words -/

/-- A nonempty text without separators. -/
structure IsField (isSeparator : Char → Bool) (part : List Char) : Prop where
  ne_nil : part ≠ []
  free : ∀ c ∈ part, isSeparator c = false

theorem isField_iff {isSeparator : Char → Bool} {part : List Char} :
    (!part.isEmpty && part.all fun c => !isSeparator c) = true ↔ IsField isSeparator part := by
  simp only [Bool.and_eq_true, Bool.not_eq_true', List.isEmpty_eq_false_iff, List.all_eq_true]
  constructor
  · rintro ⟨hne, hfree⟩
    exact ⟨hne, hfree⟩
  · intro h
    exact ⟨h.ne_nil, h.free⟩

instance (isSeparator : Char → Bool) (part : List Char) : Decidable (IsField isSeparator part) :=
  decidable_of_iff _ isField_iff

/-- A nonempty text without blanks. -/
abbrev IsWord (word : List Char) : Prop :=
  IsField isBlank word

/-- A word has no blanks, in particular none at its ends. -/
theorem IsWord.isTrimmed {word : List Char} (h : IsWord word) : IsTrimmed word where
  ne_nil := h.ne_nil
  trim_eq := trim_eq_self (fun c hc => h.free c (List.mem_of_head? hc))
    fun c hc => h.free c (List.mem_of_getLast? hc)

/-- The first word ends where a blank follows. -/
theorem takeWhile_nonblank_append {word rest : List Char} (hword : IsWord word)
    (hrest : ∀ c ∈ rest.head?, isBlank c = true) :
    (word ++ rest).takeWhile (fun c => !isBlank c) = word ∧
      (word ++ rest).dropWhile (fun c => !isBlank c) = rest := by
  have hall : ∀ c ∈ word, (!isBlank c) = true := fun c hc => by rw [hword.free c hc]; rfl
  rw [List.takeWhile_append_of_pos hall, List.dropWhile_append_of_pos hall]
  cases rest with
  | nil => exact ⟨List.append_nil word, rfl⟩
  | cons c rest =>
    have hc : (!isBlank c) = false := by rw [hrest c rfl]; rfl
    rw [List.takeWhile_cons, List.dropWhile_cons, hc]
    exact ⟨List.append_nil word, rfl⟩

/-- Behind a word only the end of a text is trimmed. -/
theorem trim_word_append {word : List Char} (hword : IsWord word) (rest : List Char) :
    trim (word ++ rest) = word ++ trimEnd rest := by
  have hhead : trimStart (word ++ rest) = word ++ rest := by
    refine trimStart_eq_self fun c hc => hword.free c ?_
    rw [List.head?_append_of_ne_nil _ hword.ne_nil] at hc
    exact List.mem_of_head? hc
  obtain ⟨after, hafter, hrest⟩ := exists_eq_trimEnd rest
  -- the end stays, be it that of the word or that of the trimmed rest
  have hend : trimEnd (word ++ trimEnd rest) = word ++ trimEnd rest := by
    refine trimEnd_eq_self fun c hc => ?_
    by_cases hempty : trimEnd rest = []
    · rw [hempty, List.append_nil] at hc
      exact hword.free c (List.mem_of_getLast? hc)
    · rw [List.getLast?_append_of_ne_nil _ hempty] at hc
      exact getLast?_trimEnd rest c hc
  calc trim (word ++ rest) = trimEnd (word ++ rest) := by rw [trim, hhead]
    _ = trimEnd ((word ++ trimEnd rest) ++ after) := by rw [List.append_assoc, ← hrest]
    _ = word ++ trimEnd rest := by rw [trimEnd_append_blank hafter, hend]

/-- A word with a blank after it is the first word. -/
theorem firstWord_append {word rest : List Char} (hword : IsWord word)
    (hrest : ∀ c ∈ rest.head?, isBlank c = true) :
    firstWord (word ++ rest) = (word, trim rest) := by
  -- trimming the rest may leave nothing of it, but never moves its first character
  have hhead : ∀ c ∈ (trimEnd rest).head?, isBlank c = true := by
    intro c hc
    obtain ⟨after, -, htext⟩ := exists_eq_trimEnd rest
    refine hrest c ?_
    rw [htext]
    exact List.mem_head?_append_of_mem_head? hc
  obtain ⟨htake, hdrop⟩ := takeWhile_nonblank_append hword hhead
  rw [firstWord, trim_word_append hword, htake, hdrop, trim_trimEnd]

theorem firstWord_eq_self {word : List Char} (hword : IsWord word) :
    firstWord word = (word, []) := by
  have hfirst : firstWord (word ++ []) = (word, trim []) := firstWord_append hword nofun
  rwa [List.append_nil] at hfirst

@[simp] theorem firstWord_trim (text : List Char) : firstWord (trim text) = firstWord text := by
  rw [firstWord, firstWord, trim_trim]

/-- No first word has a blank in it. -/
theorem firstWord_fst_nonblank (text : List Char) :
    ∀ c ∈ (firstWord text).1, isBlank c = false := by
  intro c hc
  have hnot := List.mem_takeWhile_imp hc
  exact Bool.not_eq_true' (isBlank c) ▸ hnot

/-- A text that is not blank is its first word and what follows it. -/
theorem exists_eq_firstWord (h : trim text ≠ []) :
    IsWord (firstWord text).1 ∧ ∃ rest, trim text = (firstWord text).1 ++ rest ∧
      (∀ c ∈ rest.head?, isBlank c = true) ∧ trim rest = (firstWord text).2 := by
  have hhead := head?_trim text
  refine ⟨⟨?_, firstWord_fst_nonblank text⟩, (trim text).dropWhile fun c => !isBlank c,
    List.takeWhile_append_dropWhile.symm, ?_, rfl⟩
  · cases htext : trim text with
    | nil => exact absurd htext h
    | cons c rest =>
      rw [htext] at hhead
      rw [firstWord, htext, List.takeWhile_cons_of_pos (by rw [hhead c rfl]; rfl)]
      exact List.cons_ne_nil _ _
  · intro c hc
    have hnot := List.head?_dropWhile_not (fun c => !isBlank c) (trim text)
    rw [Option.mem_def.1 hc] at hnot
    simpa using hnot

theorem firstWord_fst_subset (text : List Char) : (firstWord text).1 ⊆ text :=
  fun _ hc => trim_subset text ((List.takeWhile_sublist _).subset hc)

theorem firstWord_snd_subset (text : List Char) : (firstWord text).2 ⊆ text :=
  fun _ hc => trim_subset text (List.dropWhile_subset _ (trim_subset _ hc))

/-- What follows the first word has no blanks at its ends. -/
theorem trim_firstWord_snd (text : List Char) : trim (firstWord text).2 = (firstWord text).2 :=
  trim_trim _

end Drawscript.Text
