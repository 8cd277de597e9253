import Drawscript.Proofs.Text.Trim

/-!
# Fields and words

The fields of texts put together with separators between them are those of the texts
(`fields_intercalate`), so fields put together are found again (`flatMap_fields`). Only separators
are lost (`flatten_fields`), and what has no separators in it is found in one field
(`exists_fields_append`). Blanks around a text do not matter to its words, nor to the trimmed pieces
between commas (`map_trim_splitOnP_trim`).
-/

set_option autoImplicit false

namespace Drawscript.Text

variable {isSeparator : Char → Bool} {text : List Char}

/-! ## Pieces between separators -/

theorem free_of_mem_splitOnP {piece : List Char} (h : piece ∈ text.splitOnP isSeparator) :
    (∀ c ∈ piece, isSeparator c = false) ∧ piece ⊆ text := by
  induction text generalizing piece with
  | nil =>
    rw [List.splitOnP_nil, List.mem_singleton] at h
    subst h
    exact ⟨fun c hc => (List.not_mem_nil hc).elim, List.Subset.refl _⟩
  | cons c rest ih =>
    rw [List.splitOnP_cons_eq_if_modifyHead] at h
    by_cases hc : isSeparator c = true
    · rw [if_pos hc, List.mem_cons] at h
      rcases h with rfl | h
      · exact ⟨fun c hc => (List.not_mem_nil hc).elim, List.nil_subset _⟩
      · exact ⟨(ih h).1, List.subset_cons_of_subset _ (ih h).2⟩
    · rw [if_neg hc] at h
      obtain ⟨first, others, hsplit⟩ := List.exists_cons_of_ne_nil
        (List.splitOnP_ne_nil isSeparator rest)
      -- the character belongs to the first piece, the other pieces are those of the rest
      rw [hsplit, List.modifyHead_cons, List.mem_cons] at h
      rcases h with rfl | h
      · obtain ⟨hfree, hsubset⟩ := ih (hsplit ▸ List.mem_cons_self)
        refine ⟨List.forall_mem_cons.2 ⟨Bool.eq_false_iff.2 hc, hfree⟩, ?_⟩
        exact List.cons_subset_cons c hsubset
      · obtain ⟨hfree, hsubset⟩ := ih (hsplit ▸ List.mem_cons_of_mem _ h)
        exact ⟨hfree, List.subset_cons_of_subset _ hsubset⟩

/-- A text without separators put in front belongs to the first piece. -/
theorem splitOnP_free_append {before : List Char} (h : ∀ c ∈ before, isSeparator c = false)
    (text : List Char) :
    ∃ first others, text.splitOnP isSeparator = first :: others ∧
      (before ++ text).splitOnP isSeparator = (before ++ first) :: others := by
  obtain ⟨first, others, hsplit⟩ := List.exists_cons_of_ne_nil
    (List.splitOnP_ne_nil isSeparator text)
  refine ⟨first, others, hsplit, ?_⟩
  induction before with
  | nil => exact hsplit
  | cons c before ih =>
    obtain ⟨hc, hbefore⟩ := List.forall_mem_cons.1 h
    rw [List.cons_append, List.splitOnP_cons_eq_if_modifyHead, hc, ih hbefore]
    rfl

/-- A text without separators put at the end belongs to the last piece. -/
theorem splitOnP_append_free {after : List Char} (h : ∀ c ∈ after, isSeparator c = false)
    (text : List Char) :
    ∃ others last, text.splitOnP isSeparator = others ++ [last] ∧
      (text ++ after).splitOnP isSeparator = others ++ [last ++ after] := by
  induction text with
  | nil => exact ⟨[], [], rfl, List.splitOnP_eq_singleton (by simpa using h)⟩
  | cons c rest ih =>
    obtain ⟨others, last, hrest, happend⟩ := ih
    rw [List.cons_append, List.splitOnP_cons_eq_if_modifyHead,
      List.splitOnP_cons_eq_if_modifyHead, hrest, happend]
    by_cases hc : isSeparator c = true
    · rw [if_pos hc, if_pos hc]
      exact ⟨[] :: others, last, rfl, rfl⟩
    · rw [if_neg hc, if_neg hc]
      cases others with
      | nil => exact ⟨[], c :: last, rfl, rfl⟩
      | cons first others => exact ⟨(c :: first) :: others, last, rfl, rfl⟩

/-- Blanks around a text do not matter to its trimmed pieces, if no blank separates. -/
theorem map_trim_splitOnP_trim (h : ∀ c, isBlank c = true → isSeparator c = false)
    (text : List Char) :
    ((trim text).splitOnP isSeparator).map trim = (text.splitOnP isSeparator).map trim := by
  obtain ⟨before, after, hbefore, hafter, htext⟩ := exists_eq_trim text
  obtain ⟨first, others, hfirst, happend⟩ :=
    splitOnP_free_append (fun c hc => h c (hbefore c hc)) (trim text ++ after)
  obtain ⟨others', last, hlast, happend'⟩ :=
    splitOnP_append_free (fun c hc => h c (hafter c hc)) (trim text)
  calc ((trim text).splitOnP isSeparator).map trim
      = (others' ++ [last ++ after]).map trim := by
        rw [hlast, List.map_append, List.map_append, List.map_singleton, List.map_singleton,
          trim_append_blank hafter]
    _ = (first :: others).map trim := by rw [← happend', hfirst]
    _ = ((before ++ first) :: others).map trim := by
        rw [List.map_cons, List.map_cons, trim_blank_append hbefore]
    _ = (text.splitOnP isSeparator).map trim := by rw [← happend, ← htext]

/-! ## Fields -/

theorem isField_of_mem_fields {part : List Char} (h : part ∈ fields isSeparator text) :
    IsField isSeparator part ∧ part ⊆ text := by
  obtain ⟨hmem, hne⟩ := List.mem_filter.1 h
  obtain ⟨hfree, hsubset⟩ := free_of_mem_splitOnP hmem
  refine ⟨⟨fun hnil => ?_, hfree⟩, hsubset⟩
  rw [hnil] at hne
  exact Bool.false_ne_true hne

@[simp] theorem fields_nil (isSeparator : Char → Bool) : fields isSeparator [] = [] := rfl

theorem fields_append_sep {c : Char} (hc : isSeparator c = true) (before after : List Char) :
    fields isSeparator (before ++ c :: after) =
      fields isSeparator before ++ fields isSeparator after := by
  rw [fields, List.splitOnP_append_cons before after hc, List.filter_append]
  rfl

theorem fields_sep_cons {c : Char} (hc : isSeparator c = true) (rest : List Char) :
    fields isSeparator (c :: rest) = fields isSeparator rest :=
  fields_append_sep hc [] rest

theorem fields_seps_append {before : List Char} (h : ∀ c ∈ before, isSeparator c = true)
    (text : List Char) : fields isSeparator (before ++ text) = fields isSeparator text := by
  induction before with
  | nil => rfl
  | cons c before ih =>
    obtain ⟨hc, hbefore⟩ := List.forall_mem_cons.1 h
    rw [List.cons_append, fields_sep_cons hc, ih hbefore]

theorem fields_append_seps {after : List Char} (h : ∀ c ∈ after, isSeparator c = true)
    (text : List Char) : fields isSeparator (text ++ after) = fields isSeparator text := by
  cases after with
  | nil => rw [List.append_nil]
  | cons c after =>
    obtain ⟨hc, hafter⟩ := List.forall_mem_cons.1 h
    have hempty := fields_seps_append hafter []
    rw [List.append_nil, fields_nil] at hempty
    rw [fields_append_sep hc, hempty, List.append_nil]

/-- Blanks around a text do not matter to its fields, if blanks separate. -/
theorem fields_trim (h : ∀ c, isBlank c = true → isSeparator c = true) (text : List Char) :
    fields isSeparator (trim text) = fields isSeparator text := by
  obtain ⟨before, after, hbefore, hafter, htext⟩ := exists_eq_trim text
  conv_rhs => rw [htext, fields_seps_append fun c hc => h c (hbefore c hc),
    fields_append_seps fun c hc => h c (hafter c hc)]

theorem fields_eq_singleton {part : List Char} (h : IsField isSeparator part) :
    fields isSeparator part = [part] := by
  have hsplit : part.splitOnP isSeparator = [part] := List.splitOnP_eq_singleton h.free
  have hne : (!part.isEmpty) = true := by
    rw [List.isEmpty_eq_false_iff.2 h.ne_nil]
    rfl
  rw [fields, hsplit, List.filter_cons, if_pos hne, List.filter_nil]

/-- The fields of texts put together with separators between them are those of the texts. -/
theorem fields_intercalate {between : List Char} (hbetween : between ≠ [])
    (hseps : ∀ c ∈ between, isSeparator c = true) (parts : List (List Char)) :
    fields isSeparator (List.intercalate between parts) = parts.flatMap (fields isSeparator) := by
  induction parts with
  | nil => rfl
  | cons part parts ih =>
    cases parts with
    | nil => rw [List.intercalate_singleton, List.flatMap_singleton]
    | cons next parts =>
      -- the first separator parts the fields, the others add no field
      obtain ⟨c, between, rfl⟩ := List.exists_cons_of_ne_nil hbetween
      obtain ⟨hc, hseps⟩ := List.forall_mem_cons.1 hseps
      rw [List.intercalate_cons_cons, List.append_assoc, List.cons_append, fields_append_sep hc,
        fields_seps_append hseps, ih, ← List.flatMap_cons]

theorem flatMap_fields {parts : List (List Char)}
    (hparts : ∀ part ∈ parts, IsField isSeparator part) :
    parts.flatMap (fields isSeparator) = parts := by
  induction parts with
  | nil => rfl
  | cons part parts ih =>
    obtain ⟨hpart, hparts⟩ := List.forall_mem_cons.1 hparts
    rw [List.flatMap_cons, fields_eq_singleton hpart, ih hparts]
    rfl

/-- Dividing a text into fields loses the separators only. -/
theorem flatten_fields (isSeparator : Char → Bool) (text : List Char) :
    (fields isSeparator text).flatten = text.filter fun c => !isSeparator c := by
  rw [fields, List.flatten_filter_not_isEmpty]
  induction text with
  | nil => rfl
  | cons c rest ih =>
    rw [List.splitOnP_cons_eq_if_modifyHead, List.filter_cons, ← ih]
    by_cases hc : isSeparator c = true
    · rw [if_pos hc, hc]
      rfl
    · obtain ⟨first, others, hsplit⟩ := List.exists_cons_of_ne_nil
        (List.splitOnP_ne_nil isSeparator rest)
      rw [if_neg hc, Bool.eq_false_iff.2 hc, hsplit]
      rfl

/-- What follows a separator is divided on its own. -/
theorem fields_append_of_getLast? {before : List Char}
    (h : ∀ c ∈ before.getLast?, isSeparator c = true) (after : List Char) :
    fields isSeparator (before ++ after) =
      fields isSeparator before ++ fields isSeparator after := by
  rcases List.eq_nil_or_concat before with rfl | ⟨init, c, rfl⟩
  · rfl
  · rw [List.concat_eq_append] at h ⊢
    have hc : isSeparator c = true := h c List.getLast?_concat
    rw [List.append_assoc, List.singleton_append, fields_append_sep hc, fields_append_sep hc,
      fields_nil, List.append_nil]

/-- What stands before a separator is divided on its own. -/
theorem fields_append_of_head? {after : List Char} (h : ∀ c ∈ after.head?, isSeparator c = true)
    (before : List Char) :
    fields isSeparator (before ++ after) =
      fields isSeparator before ++ fields isSeparator after := by
  cases after with
  | nil => rw [List.append_nil, fields_nil, List.append_nil]
  | cons c after =>
    have hc : isSeparator c = true := h c rfl
    rw [fields_append_sep hc, fields_sep_cons hc]

/-- A text ends in a text without separators, before which a separator stands, if anything. -/
theorem exists_eq_append_free (isSeparator : Char → Bool) (text : List Char) :
    ∃ before after, text = before ++ after ∧ (∀ c ∈ before.getLast?, isSeparator c = true) ∧
      ∀ c ∈ after, isSeparator c = false := by
  refine ⟨text.rdropWhile fun c => !isSeparator c, text.rtakeWhile fun c => !isSeparator c,
    List.rdropWhile_append_rtakeWhile.symm, fun c hc => ?_, fun c hc => ?_⟩
  · obtain ⟨hne, rfl⟩ := List.mem_getLast?_eq_getLast hc
    simpa using List.rdropWhile_last_not (fun c => !isSeparator c) text hne
  · simpa using List.mem_rtakeWhile_imp hc

/-- A text starts with a text without separators, after which a separator stands, if anything. -/
theorem exists_eq_free_append (isSeparator : Char → Bool) (text : List Char) :
    ∃ before after, text = before ++ after ∧ (∀ c ∈ before, isSeparator c = false) ∧
      ∀ c ∈ after.head?, isSeparator c = true := by
  refine ⟨text.takeWhile fun c => !isSeparator c, text.dropWhile fun c => !isSeparator c,
    List.takeWhile_append_dropWhile.symm, fun c hc => ?_, fun c hc => ?_⟩
  · simpa using List.mem_takeWhile_imp hc
  · have hhead := List.head?_dropWhile_not (fun c => !isSeparator c) text
    rw [Option.mem_def.1 hc] at hhead
    simpa using hhead

/-- A text without separators is found in one field, and what stands before it is found in the
fields before that one and in the field itself. -/
theorem exists_fields_append (front : List Char) {middle : List Char}
    (hmiddle : IsField isSeparator middle) (back : List Char) :
    ∃ before left right after,
      fields isSeparator (front ++ (middle ++ back)) =
        before ++ (left ++ (middle ++ right)) :: after ∧
      before.flatten ++ left = front.filter fun c => !isSeparator c := by
  -- the field goes on to the left and to the right up to the next separators
  obtain ⟨init, left, rfl, hinit, hleft⟩ := exists_eq_append_free isSeparator front
  obtain ⟨right, rest, rfl, hright, hrest⟩ := exists_eq_free_append isSeparator back
  have hfield : IsField isSeparator (left ++ (middle ++ right)) := by
    refine ⟨List.append_ne_nil_of_right_ne_nil _
      (List.append_ne_nil_of_left_ne_nil hmiddle.ne_nil _), fun c hc => ?_⟩
    rw [List.mem_append, List.mem_append] at hc
    rcases hc with hc | hc | hc
    · exact hleft c hc
    · exact hmiddle.free c hc
    · exact hright c hc
  refine ⟨fields isSeparator init, left, right, fields isSeparator rest, ?_, ?_⟩
  · calc fields isSeparator (init ++ left ++ (middle ++ (right ++ rest)))
        = fields isSeparator (init ++ (left ++ (middle ++ right) ++ rest)) := by
          simp only [List.append_assoc]
      _ = fields isSeparator init ++ (left ++ (middle ++ right)) :: fields isSeparator rest := by
          rw [fields_append_of_getLast? hinit, fields_append_of_head? hrest,
            fields_eq_singleton hfield]
          rfl
  · have hkept : left.filter (fun c => !isSeparator c) = left := by
      rw [List.filter_eq_self]
      intro c hc
      rw [hleft c hc, Bool.not_false]
    rw [flatten_fields, List.filter_append, hkept]

theorem fields_spaced (hspace : isSeparator ' ' = true) (parts : List (List Char)) :
    fields isSeparator (spaced parts) = parts.flatMap (fields isSeparator) :=
  fields_intercalate (List.cons_ne_nil _ _)
    (fun c hc => by rw [List.mem_singleton.1 hc, hspace]) parts

theorem mem_intercalate {between : List Char} {parts : List (List Char)} {c : Char}
    (h : c ∈ List.intercalate between parts) : c ∈ between ∨ ∃ part ∈ parts, c ∈ part := by
  induction parts with
  | nil => cases h
  | cons part parts ih =>
    cases parts with
    | nil =>
      rw [List.intercalate_singleton] at h
      exact Or.inr ⟨part, List.mem_cons_self, h⟩
    | cons next parts =>
      rw [List.intercalate_cons_cons, List.append_assoc, List.mem_append, List.mem_append] at h
      rcases h with h | h | h
      · exact Or.inr ⟨part, List.mem_cons_self, h⟩
      · exact Or.inl h
      · rcases ih h with h | ⟨found, hfound, h⟩
        · exact Or.inl h
        · exact Or.inr ⟨found, List.mem_cons_of_mem _ hfound, h⟩

theorem spaced_pair (first second : List Char) :
    spaced [first, second] = first ++ ' ' :: second := by
  rw [spaced, List.intercalate_cons_cons, List.intercalate_singleton, List.append_assoc]
  rfl

/-! ## Words -/

theorem words_trim (text : List Char) : words (trim text) = words text :=
  fields_trim (fun _ hc => hc) text

/-- The words of a text that is not blank are its first word and the words of the rest. -/
theorem words_eq_cons (h : trim text ≠ []) :
    words text = (firstWord text).1 :: words (firstWord text).2 := by
  obtain ⟨hword, rest, htext, hhead, hrest⟩ := exists_eq_firstWord h
  rw [← words_trim text, htext, ← hrest, words_trim]
  cases rest with
  | nil => rw [List.append_nil, words, fields_eq_singleton hword]; rfl
  | cons c rest =>
    have hc : isBlank c = true := hhead c rfl
    rw [words, fields_append_sep hc, fields_eq_singleton hword, words, fields_sep_cons hc]
    rfl

end Drawscript.Text
