import Drawscript.Proofs.Stmt.Printer
import Drawscript.Proofs.Text.Match
import Drawscript.Stmt.Arguments

/-!
# Parts of a `write`

The text of a `write` is divided at each `+` outside double quotes, and blanks around the parts are
dropped. Texts in double quotes and expressions without `+`, joined with ` + `, are found again as
they were (`writeParts_joined`): whatever stands between the quotes is passed over as a whole.
-/

set_option autoImplicit false

namespace Drawscript

open Text

/-- A part of a `write`: a text in double quotes, or an expression. -/
inductive WritePart where
  | quoted (content : List Char)
  | expression (text : List Char)

namespace WritePart

/-- The part as it is written. -/
def print : WritePart → List Char
  | quoted content => '"' :: (content ++ ['"'])
  | expression text => text

/-- The part keeps to one line and to its place: no quote ends a quoted text early, and an expression
is not blank and has neither quotes nor a `+`. -/
def IsValid : WritePart → Prop
  | quoted content => '"' ∉ content ∧ '\n' ∉ content
  | expression text => trim text ≠ [] ∧ '"' ∉ text ∧ '+' ∉ text ∧ '\n' ∉ text

instance : DecidablePred IsValid
  | quoted content => inferInstanceAs (Decidable ('"' ∉ content ∧ '\n' ∉ content))
  | expression text =>
    inferInstanceAs (Decidable (trim text ≠ [] ∧ '"' ∉ text ∧ '+' ∉ text ∧ '\n' ∉ text))

/-- Parts with ` + ` between neighbours. -/
def joined (parts : List WritePart) : List Char :=
  List.intercalate [' ', '+', ' '] (parts.map print)

end WritePart

/-! ## Texts that are not divided -/

theorem splitUnquoted_ne_nil (separator : Char) (quoted : Bool) (text : List Char) :
    splitUnquoted separator quoted text ≠ [] := by
  have hprepend (c : Char) (parts : List (List Char)) : prepend c parts ≠ [] := by
    cases parts <;> exact List.cons_ne_nil _ _
  cases text with
  | nil => exact List.cons_ne_nil _ _
  | cons c rest =>
    rw [splitUnquoted]
    split_ifs
    · exact hprepend c _
    · exact List.cons_ne_nil _ _
    · exact hprepend c _

/-- Text without quotes, and without separators unless it stands inside quotes, is not divided. -/
theorem splitUnquoted_append {separator : Char} {quoted : Bool} {text : List Char}
    (hquote : '"' ∉ text) (hseparator : quoted = true ∨ separator ∉ text) {rest first : List Char}
    {others : List (List Char)} (h : splitUnquoted separator quoted rest = first :: others) :
    splitUnquoted separator quoted (text ++ rest) = (text ++ first) :: others := by
  induction text with
  | nil => exact h
  | cons c text ih =>
    rw [List.mem_cons, not_or] at hquote
    have hpass : ¬ (c = separator ∧ quoted = false) := by
      rintro ⟨rfl, rfl⟩
      rcases hseparator with hquoted | hnot
      · cases hquoted
      · exact hnot List.mem_cons_self
    have htext := ih hquote.2 (hseparator.imp_right fun hnot hmem =>
      hnot (List.mem_cons_of_mem c hmem))
    rw [List.cons_append, splitUnquoted, if_neg (Ne.symm hquote.1), if_neg hpass, htext]
    rfl

/-- The text is not divided: in front of others it goes to their first part as a whole. -/
def Uncut (text : List Char) : Prop :=
  ∀ ⦃rest first : List Char⦄ ⦃others : List (List Char)⦄,
    splitUnquoted '+' false rest = first :: others →
      splitUnquoted '+' false (text ++ rest) = (text ++ first) :: others

theorem uncut_of_not_mem {text : List Char} (hquote : '"' ∉ text) (hplus : '+' ∉ text) :
    Uncut text := by
  intro rest first others hrest
  exact splitUnquoted_append hquote (Or.inr hplus) hrest

/-- The quotes around a text are passed over together with what they enclose. -/
theorem uncut_quoted {content : List Char} (h : '"' ∉ content) :
    Uncut ('"' :: (content ++ ['"'])) := by
  intro rest first others hrest
  -- what follows the opening quote is divided as inside quotes, up to the closing one
  have hclose : splitUnquoted '+' true ('"' :: rest) = ('"' :: first) :: others := by
    rw [splitUnquoted, if_pos rfl, Bool.not_true, hrest]
    rfl
  have hcontent := splitUnquoted_append h (Or.inl rfl) hclose
  rw [List.cons_append, List.append_assoc, List.singleton_append, splitUnquoted, if_pos rfl,
    Bool.not_false, hcontent]
  simp only [prepend, List.cons_append, List.append_assoc, List.nil_append]

/-- A ` + ` ends a part; its blanks stay at the ends of the parts it divides. -/
theorem splitUnquoted_plus {rest first : List Char} {others : List (List Char)}
    (h : splitUnquoted '+' false rest = first :: others) :
    splitUnquoted '+' false (' ' :: '+' :: ' ' :: rest) = [' '] :: (' ' :: first) :: others := by
  have hspace : Uncut [' '] := uncut_of_not_mem (by decide) (by decide)
  have hafter : splitUnquoted '+' false ('+' :: ' ' :: rest) = [] :: (' ' :: first) :: others := by
    rw [splitUnquoted, if_neg (by decide), if_pos ⟨rfl, rfl⟩]
    exact congrArg _ (hspace h)
  exact hspace hafter

theorem WritePart.IsValid.uncut {part : WritePart} (h : part.IsValid) : Uncut part.print := by
  cases part with
  | quoted content => exact uncut_quoted h.1
  | expression text => exact uncut_of_not_mem h.2.1 h.2.2.1

/-! ## Blanks -/

theorem not_mem_of_blank {blanks : List Char} (h : ∀ c ∈ blanks, isBlank c = true) {c : Char}
    (hc : isBlank c = false) : c ∉ blanks := by
  intro hmem
  rw [h c hmem] at hc
  cases hc

/-- Blanks at the end go to the last part. -/
theorem splitUnquoted_append_blank {blanks : List Char} (h : ∀ c ∈ blanks, isBlank c = true)
    (quoted : Bool) (text : List Char) :
    ∃ before last, splitUnquoted '+' quoted text = before ++ [last] ∧
      splitUnquoted '+' quoted (text ++ blanks) = before ++ [last ++ blanks] := by
  have hprepend {c : Char} {parts parts' : List (List Char)}
      (hparts : ∃ before last, parts = before ++ [last] ∧ parts' = before ++ [last ++ blanks]) :
      ∃ before last, prepend c parts = before ++ [last] ∧
        prepend c parts' = before ++ [last ++ blanks] := by
    obtain ⟨before, last, rfl, rfl⟩ := hparts
    cases before with
    | nil => exact ⟨[], c :: last, rfl, rfl⟩
    | cons first before => exact ⟨(c :: first) :: before, last, rfl, rfl⟩
  induction text generalizing quoted with
  | nil =>
    refine ⟨[], [], rfl, ?_⟩
    have hsplit := splitUnquoted_append (not_mem_of_blank h (by decide))
      (Or.inr (not_mem_of_blank h (by decide))) (rfl : splitUnquoted '+' quoted [] = [[]])
    rw [List.append_nil] at hsplit
    exact hsplit
  | cons c text ih =>
    rw [List.cons_append, splitUnquoted, splitUnquoted]
    split_ifs
    · exact hprepend (ih (!quoted))
    · obtain ⟨before, last, hsplit, hsplit'⟩ := ih quoted
      exact ⟨[] :: before, last, by rw [hsplit]; rfl, by rw [hsplit']; rfl⟩
    · exact hprepend (ih quoted)

/-- Blanks around the text of a `write` are blanks around its parts. -/
theorem map_trim_splitUnquoted_trim (text : List Char) :
    (splitUnquoted '+' false (trim text)).map trim = (splitUnquoted '+' false text).map trim := by
  obtain ⟨blanks, blanks', hblanks, hblanks', htext⟩ := exists_eq_trim text
  -- first the blanks at the end, which go to the last part, then those in front of the first part
  obtain ⟨before, last, hsplit, hsplit'⟩ := splitUnquoted_append_blank hblanks' false (trim text)
  obtain ⟨first, others, hfirst⟩ := List.exists_cons_of_ne_nil
    (splitUnquoted_ne_nil '+' false (trim text ++ blanks'))
  have huncut : Uncut blanks :=
    uncut_of_not_mem (not_mem_of_blank hblanks (by decide)) (not_mem_of_blank hblanks (by decide))
  calc (splitUnquoted '+' false (trim text)).map trim
      = (before ++ [last ++ blanks']).map trim := by
        rw [hsplit, List.map_append, List.map_append, List.map_singleton, List.map_singleton,
          trim_append_blank hblanks']
    _ = (first :: others).map trim := by rw [← hsplit', hfirst]
    _ = ((blanks ++ first) :: others).map trim := by
        rw [List.map_cons, List.map_cons, trim_blank_append hblanks]
    _ = (splitUnquoted '+' false text).map trim := by rw [← huncut hfirst, ← htext]

/-! ## Joining parts -/

namespace WritePart

variable {parts : List WritePart}

theorem map_trim_splitUnquoted_joined (hparts : parts ≠ []) (h : ∀ part ∈ parts, part.IsValid) :
    (splitUnquoted '+' false (joined parts)).map trim = parts.map fun part => trim part.print := by
  induction parts with
  | nil => exact absurd rfl hparts
  | cons part parts ih =>
    have huncut := (h part List.mem_cons_self).uncut
    cases parts with
    | nil =>
      have hsplit := huncut (rfl : splitUnquoted '+' false [] = [[]])
      rw [List.append_nil] at hsplit
      rw [joined, List.map_singleton, List.intercalate_singleton, hsplit, List.map_singleton,
        List.map_singleton]
    | cons next parts =>
      have hrest := ih (List.cons_ne_nil _ _) fun p hp => h p (List.mem_cons_of_mem part hp)
      obtain ⟨first, others, hfirst⟩ := List.exists_cons_of_ne_nil
        (splitUnquoted_ne_nil '+' false (joined (next :: parts)))
      have hplus := splitUnquoted_plus hfirst
      have hjoined : joined (part :: next :: parts) =
          part.print ++ (' ' :: '+' :: ' ' :: joined (next :: parts)) := by
        simp only [joined, List.map_cons, List.intercalate_cons_cons, List.append_assoc,
          List.cons_append, List.nil_append]
      rw [hfirst, List.map_cons] at hrest
      rw [hjoined, huncut hplus, List.map_cons, List.map_cons, trim_append_space, trim_space_cons,
        hrest]
      rfl

/-- Quotes keep the blanks between them. -/
theorem isTrimmed_quoted (content : List Char) : IsTrimmed (print (.quoted content)) := by
  have hquote : IsTrimmed ['"'] := ⟨by decide, by decide⟩
  exact hquote.between hquote content

theorem IsValid.trim_ne_nil {part : WritePart} (h : part.IsValid) : trim part.print ≠ [] := by
  cases part with
  | quoted content =>
    rw [(isTrimmed_quoted content).trim_eq]
    exact (isTrimmed_quoted content).ne_nil
  | expression text => exact h.1

/-- Parts that are joined and trimmed are found again, without blanks around them. -/
theorem writeParts_joined (hparts : parts ≠ []) (h : ∀ part ∈ parts, part.IsValid) :
    writeParts (trim (joined parts)) = parts.map fun part => trim part.print := by
  rw [writeParts, map_trim_splitUnquoted_trim, map_trim_splitUnquoted_joined hparts h,
    List.filter_eq_self]
  intro text htext
  obtain ⟨part, hpart, rfl⟩ := List.mem_map.1 htext
  rw [List.isEmpty_eq_false_iff.2 (h part hpart).trim_ne_nil, Bool.not_false]

theorem IsValid.oneLine {part : WritePart} (h : part.IsValid) : OneLine part.print := by
  cases part with
  | quoted content =>
    exact List.not_mem_cons_of_ne_of_not_mem (by decide) (OneLine.append h.2 (by decide))
  | expression text => exact h.2.2.2

theorem oneLine_joined (h : ∀ part ∈ parts, part.IsValid) : OneLine (joined parts) := by
  refine oneLine_intercalate (by decide) fun text htext => ?_
  obtain ⟨part, hpart, rfl⟩ := List.mem_map.1 htext
  exact (h part hpart).oneLine

end WritePart

end Drawscript
