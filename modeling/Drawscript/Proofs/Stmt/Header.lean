import Drawscript.Proofs.Stmt.Printer
import Drawscript.Stmt.Parser

/-!
# Headers and call arguments read again

The header of a `for` loop is read from its fields: a variable, the words of the start, `to`, the
words of the stop, and maybe `step` and the words of a width (`ForHeader.parse_eq_ok_iff`). The
header of a method is a kind, a name and parameters (`MethodHeader.parse_eq_ok_iff`). The canonical
text of a header that was read is read as the same header, and the arguments of a call are found
again in the list of them with commas between.
-/

set_option autoImplicit false

namespace Drawscript

open Text

namespace ForHeader

/-- Blanks and equals signs divide the header of a loop. -/
def isGap (c : Char) : Bool :=
  isBlank c || c == '='

theorem isGap_of_isBlank (c : Char) (h : isBlank c = true) : isGap c = true := by
  rw [isGap, h]
  rfl

/-! ## Divisions of a list at a word -/

theorem takeWhile_of_division {α : Type} {p : α → Bool} {before after : List α} {word : α}
    (hbefore : ∀ x ∈ before, p x = true) (hword : p word = false) :
    (before ++ word :: after).takeWhile p = before := by
  rw [List.takeWhile_append_of_pos hbefore, List.takeWhile_cons, hword]
  exact List.append_nil before

theorem drop_takeWhile {α : Type} (p : α → Bool) (list : List α) :
    list.drop (list.takeWhile p).length = list.dropWhile p :=
  calc list.drop (list.takeWhile p).length
      = (list.takeWhile p ++ list.dropWhile p).drop (list.takeWhile p).length := by
        rw [List.takeWhile_append_dropWhile]
    _ = list.dropWhile p := List.drop_left

/-- Where a search stops, the list is divided at the word that it stopped at. -/
theorem division_of_dropWhile {α : Type} {p : α → Bool} {list after : List α} {word : α}
    (h : list.dropWhile p = word :: after) :
    list = list.takeWhile p ++ word :: after ∧ p word = false := by
  have hnot := List.head?_dropWhile_not p list
  rw [h] at hnot
  exact ⟨by rw [← h, List.takeWhile_append_dropWhile], hnot⟩

/-! ## Loops -/

/-- The header with the given words. -/
def ofWords (var : List Char) (start stop : List (List Char)) (step : Option (List (List Char))) :
    ForHeader :=
  ⟨String.ofList var, String.ofList (spaced start), String.ofList (spaced stop),
    step.map fun width => String.ofList (spaced width)⟩

/-- The words after the stop of a loop that has a step of the given words, or none. -/
inductive IsStep : List (List Char) → Option (List (List Char)) → Prop
  | none : IsStep [] none
  | some {word : List Char} {width : List (List Char)} (hword : isWord "step" word = true)
    (hwidth : width ≠ []) : IsStep (word :: width) (some width)

/-- The words before and after `to`. -/
structure Bounds (var : List Char) (start stop tail : List (List Char))
    (step : Option (List (List Char))) : Prop where
  identifier : isIdentifier var = true
  start_ne : start ≠ []
  stop_ne : stop ≠ []
  free : ∀ part ∈ stop, isWord "step" part = false
  isStep : IsStep tail step

theorem bounds_of_ofParts? {before after : List (List Char)} {header : ForHeader}
    (h : ofParts? before after = some header) :
    ∃ var start stop tail step, before = var :: start ∧ after = stop ++ tail ∧
      Bounds var start stop tail step ∧ header = ofWords var start stop step := by
  unfold ofParts? at h
  split at h
  case h_2 => cases h
  case h_1 var first others =>
    dsimp only at h
    obtain ⟨hcond, h⟩ := Option.ite_none_right_eq_some.1 h
    simp only [drop_takeWhile, Bool.and_eq_true, Bool.not_eq_true', List.isEmpty_eq_false_iff,
      bne_iff_ne] at hcond h
    obtain ⟨⟨hvar, hstop⟩, hwidth⟩ := hcond
    have hfree : ∀ part ∈ after.takeWhile (fun part => !isWord "step" part),
        isWord "step" part = false := by
      intro part hpart
      simpa using List.mem_takeWhile_imp hpart
    -- no `step` at all, or a first one with the words of the width after it
    cases hdrop : after.dropWhile (fun part => !isWord "step" part) with
    | nil =>
      have hafter : after = after.takeWhile (fun part => !isWord "step" part) ++ [] := by
        rw [← hdrop, List.takeWhile_append_dropWhile]
      rw [hdrop] at h
      cases h
      exact ⟨var, first :: others, _, [], none, rfl, hafter,
        ⟨hvar, List.cons_ne_nil _ _, hstop, hfree, .none⟩, rfl⟩
    | cons word width =>
      obtain ⟨hafter, hword⟩ := division_of_dropWhile hdrop
      rw [hdrop] at h hwidth
      cases h
      refine ⟨var, first :: others, _, word :: width, some width, rfl, hafter,
        ⟨hvar, List.cons_ne_nil _ _, hstop, hfree, .some ?_ ?_⟩, rfl⟩
      · simpa using hword
      · exact fun hnil => hwidth (congrArg some hnil)

theorem ofParts?_of_bounds {var : List Char} {start stop tail : List (List Char)}
    {step : Option (List (List Char))} (h : Bounds var start stop tail step) :
    ofParts? (var :: start) (stop ++ tail) = some (ofWords var start stop step) := by
  obtain ⟨first, others, rfl⟩ := List.exists_cons_of_ne_nil h.start_ne
  have htake : (stop ++ tail).takeWhile (fun part => !isWord "step" part) = stop := by
    have hfree : ∀ part ∈ stop, (!isWord "step" part) = true := by
      intro part hpart
      rw [h.free part hpart]
      rfl
    cases h.isStep with
    | none => rw [List.append_nil, List.takeWhile_eq_self_iff.2 hfree]
    | some hword hwidth => exact takeWhile_of_division hfree (by rw [hword]; rfl)
  have hcond : (isIdentifier var && !stop.isEmpty && tail.tail? != some []) = true := by
    rw [h.identifier, List.isEmpty_eq_false_iff.2 h.stop_ne]
    cases h.isStep with
    | none => rfl
    | some hword hwidth => exact bne_iff_ne.2 fun hnil => hwidth (Option.some.inj hnil)
  have hstep : tail.tail? = step := by
    cases h.isStep with
    | none => rfl
    | some hword hwidth => rfl
  rw [ofParts?, htake, List.drop_left, if_pos hcond, hstep]
  rfl

/-- The fields of a header: the words of the bounds, with `to` between them. -/
inductive Reads (parts : List (List Char)) : ForHeader → Prop
  | intro {var word : List Char} {start stop tail : List (List Char)}
    {step : Option (List (List Char))} (hparts : parts = (var :: start) ++ word :: (stop ++ tail))
    (hfree : ∀ part ∈ var :: start, isWord "to" part = false) (hword : isWord "to" word = true)
    (hbounds : Bounds var start stop tail step) : Reads parts (ofWords var start stop step)

/-- A `for` header is read just if its words can be divided into variable, bounds and step. -/
theorem parse_eq_ok_iff {rest : List Char} {header : ForHeader} :
    parse rest = .ok header ↔ Reads (fields isGap rest) header := by
  have hgap : (fun c => isBlank c || c == '=') = isGap := rfl
  rw [parse, hgap, drop_takeWhile]
  constructor
  · intro h
    cases hdrop : (fields isGap rest).dropWhile (fun part => !isWord "to" part) with
    | nil =>
      rw [hdrop] at h
      cases h
    | cons word after =>
      obtain ⟨hparts, hword⟩ := division_of_dropWhile hdrop
      simp only [hdrop] at h
      cases hof : ofParts? ((fields isGap rest).takeWhile fun part => !isWord "to" part) after with
      | none =>
        rw [hof] at h
        cases h
      | some found =>
        rw [hof] at h
        cases h
        obtain ⟨var, start, stop, tail, step, hbefore, rfl, hbounds, rfl⟩ := bounds_of_ofParts? hof
        rw [hbefore] at hparts
        refine .intro hparts (fun part hpart => ?_) (by simpa using hword) hbounds
        rw [← hbefore] at hpart
        simpa using List.mem_takeWhile_imp hpart
  · rintro ⟨hparts, hfree, hword, hbounds⟩
    have hnot := fun part hpart => congrArg Bool.not (hfree part hpart)
    have hstop := congrArg Bool.not hword
    rw [← drop_takeWhile, hparts, takeWhile_of_division hnot hstop, List.drop_left]
    simp only [ofParts?_of_bounds hbounds]

/-- The fields of the canonical text are the words of the header, `to`, and maybe `step`. -/
theorem fields_print {var : List Char} {start stop : List (List Char)}
    {step : Option (List (List Char))} (hvar : isIdentifier var = true)
    (hstart : ∀ part ∈ start, IsField isGap part) (hstop : ∀ part ∈ stop, IsField isGap part)
    (hstep : ∀ width ∈ step, ∀ part ∈ width, IsField isGap part) :
    fields isGap (trim (ofWords var start stop step).print) =
      (var :: start) ++ "to".toList :: (stop ++
        match step with
        | none => []
        | some width => "step".toList :: width) := by
  have hgap : isGap ' ' = true := by decide
  have hword : IsField isGap var := by
    refine ⟨(isWord_of_isIdentifier hvar).ne_nil, fun c hc => ?_⟩
    rw [isGap, (isWord_of_isIdentifier hvar).free c hc, beq_false_of_ne]
    · rfl
    · rintro rfl
      exact not_mem_of_isIdentifier hvar (by decide) hc
  have hto : fields isGap "to".toList = ["to".toList] := by decide
  have hkeyword : fields isGap "step".toList = ["step".toList] := by decide
  have hequals : fields isGap ['='] = [] := by decide
  rw [fields_trim isGap_of_isBlank, print, fields_spaced hgap]
  cases step with
  | none =>
    simp only [ofWords, String.toList_ofList, Option.map_none, List.append_nil, List.flatMap_cons,
      List.flatMap_nil, fields_eq_singleton hword, hequals, hto, fields_spaced hgap,
      flatMap_fields hstart, flatMap_fields hstop]
    simp
  | some width =>
    simp only [ofWords, String.toList_ofList, Option.map_some, List.flatMap_append,
      List.flatMap_cons, List.flatMap_nil, fields_eq_singleton hword, hequals, hto, hkeyword,
      fields_spaced hgap, flatMap_fields hstart, flatMap_fields hstop,
      flatMap_fields (hstep width rfl)]
    simp

/-- The canonical text of a header that was read is read as that header. -/
theorem parse_print {rest : List Char} {header : ForHeader} (h : parse rest = .ok header) :
    parse (trim header.print) = .ok header ∧ (OneLine rest → OneLine header.print) := by
  rw [parse_eq_ok_iff] at h
  have hpart : ∀ part ∈ fields isGap rest, IsField isGap part ∧ part ⊆ rest :=
    fun part hpart => isField_of_mem_fields hpart
  obtain @⟨var, word, start, stop, tail, step, hparts, hfree, hword, hbounds⟩ := h
  rw [hparts] at hpart
  simp only [List.cons_append, List.forall_mem_cons, List.forall_mem_append] at hpart
  obtain ⟨⟨-, hvar⟩, hstart, -, hstop, htail⟩ := hpart
  have hstep : ∀ width ∈ step, ∀ part ∈ width, IsField isGap part ∧ part ⊆ rest := by
    intro width hwidth part hpart
    cases hbounds.isStep with
    | none => cases hwidth
    | some hword hne =>
      cases hwidth
      exact htail part (List.mem_cons_of_mem _ hpart)
  constructor
  · rw [parse_eq_ok_iff, fields_print hbounds.identifier (fun part hpart => (hstart part hpart).1)
      (fun part hpart => (hstop part hpart).1)
      fun width hwidth part hpart => (hstep width hwidth part hpart).1]
    -- `to` and `step` may have been written in capitals; the bounds are those that were read
    refine .intro rfl hfree (by decide) { hbounds with isStep := ?_ }
    cases hbounds.isStep with
    | none => exact .none
    | some hword hne => exact .some (by decide) hne
  · intro hrest
    have hspaced {parts : List (List Char)}
        (hparts : ∀ part ∈ parts, IsField isGap part ∧ part ⊆ rest) : OneLine (spaced parts) :=
      oneLine_intercalate (by decide) fun part hpart => hrest.of_subset (hparts part hpart).2
    refine oneLine_intercalate (by decide) fun part hpart => ?_
    simp only [ofWords, String.toList_ofList, List.mem_append, List.mem_cons, List.not_mem_nil,
      or_false] at hpart
    rcases hpart with (rfl | rfl | rfl | rfl | rfl) | hpart
    · exact hrest.of_subset hvar
    · decide
    · exact hspaced hstart
    · decide
    · exact hspaced hstop
    · cases step with
      | none => cases hpart
      | some width =>
        simp only [Option.map_some, String.toList_ofList, List.mem_cons, List.not_mem_nil,
          or_false] at hpart
        rcases hpart with rfl | rfl
        · decide
        · exact hspaced (hstep width rfl)

end ForHeader

/-! ## Methods -/

namespace MethodHeader

/-- Blanks and commas divide the header of a method. -/
def isGap (c : Char) : Bool :=
  isBlank c || c == ','

theorem isGap_of_isBlank (c : Char) (h : isBlank c = true) : isGap c = true := by
  rw [isGap, h]
  rfl

/-- A method header is a kind, an identifier and parameters, among which the names of kinds are
passed over. -/
theorem parse_eq_ok_iff {rest : List Char} {header : MethodHeader} :
    parse rest = .ok header ↔
      ∃ result kind name params, fields isGap rest = result :: name :: params ∧
        ElementKind.ofName? (String.ofList result) = some kind ∧ isIdentifier name = true ∧
        header = ⟨String.ofList name, kind,
          (params.map String.ofList).filter fun p => (ElementKind.ofName? p).isNone⟩ := by
  have hgap : (fun c => isBlank c || c == ',') = isGap := rfl
  rw [parse, hgap]
  constructor
  · intro h
    split at h
    case h_2 => cases h
    case h_1 result name params hfields =>
      split at h
      case h_1 => cases h
      case h_2 kind hkind =>
        by_cases hname : isIdentifier name = true
        · rw [if_pos hname] at h
          cases h
          exact ⟨result, kind, name, params, hfields, hkind, hname, rfl⟩
        · rw [if_neg hname] at h
          cases h
  · rintro ⟨result, kind, name, params, hfields, hkind, hname, rfl⟩
    simp only [hfields, hkind, if_pos hname]

/-- The canonical text of a header that was read is read as that header. -/
theorem parse_print {rest : List Char} {header : MethodHeader} (h : parse rest = .ok header) :
    parse (trim header.print) = .ok header ∧ (OneLine rest → OneLine header.print) := by
  obtain ⟨result, kind, name, params, hfields, hkind, hname, rfl⟩ := parse_eq_ok_iff.1 h
  have hpart : ∀ part ∈ fields isGap rest, IsField isGap part ∧ part ⊆ rest :=
    fun part hpart => isField_of_mem_fields hpart
  rw [hfields] at hpart
  simp only [List.forall_mem_cons] at hpart
  obtain ⟨-, ⟨hnamefield, hnamerest⟩, hparams⟩ := hpart
  -- kinds among the parameters are dropped, and what is left holds none
  generalize hkept : ((params.map String.ofList).filter
    fun p => (ElementKind.ofName? p).isNone) = kept
  have hkeptfield : ∀ part ∈ kept.map String.toList, IsField isGap part ∧ part ⊆ rest := by
    intro part hpart
    obtain ⟨param, hparam, rfl⟩ := List.mem_map.1 hpart
    rw [← hkept] at hparam
    obtain ⟨original, horiginal, rfl⟩ := List.mem_map.1 (List.mem_of_mem_filter hparam)
    rw [String.toList_ofList]
    exact hparams original horiginal
  have hkindname : fields isGap kind.name.toList = [kind.name.toList] ∧
      ElementKind.ofName? kind.name = some kind ∧ OneLine kind.name.toList := by
    cases kind <;> decide
  have hseps : ∀ c ∈ [',', ' '], isGap c = true :=
    List.forall_mem_cons.2 ⟨rfl, List.forall_mem_singleton.2 rfl⟩
  constructor
  · refine parse_eq_ok_iff.2
      ⟨kind.name.toList, kind, name, kept.map String.toList, ?_, ?_, hname, ?_⟩
    · rw [fields_trim isGap_of_isBlank, print, fields_spaced (by decide)]
      simp only [List.flatMap_cons, List.flatMap_nil, hkindname.1, String.toList_ofList,
        fields_eq_singleton hnamefield, listed]
      rw [fields_intercalate (List.cons_ne_nil _ _) hseps,
        flatMap_fields fun part hpart => (hkeptfield part hpart).1]
      simp
    · rw [String.ofList_toList]
      exact hkindname.2.1
    · have hagain : (kept.map String.toList).map String.ofList = kept := by
        rw [List.map_map]
        exact (List.map_congr_left fun p _ => String.ofList_toList).trans (List.map_id kept)
      rw [hagain, ← hkept, List.filter_filter]
      simp only [Bool.and_self]
  · intro hrest
    refine oneLine_intercalate (by decide) fun part hpart => ?_
    simp only [String.toList_ofList, List.mem_cons, List.not_mem_nil, or_false] at hpart
    rcases hpart with rfl | rfl | rfl
    · exact hkindname.2.2
    · exact hrest.of_subset hnamerest
    · exact oneLine_intercalate (by decide) fun part hpart =>
        hrest.of_subset (hkeptfield part hpart).2

end MethodHeader

/-! ## Call arguments -/

theorem comma_of_isBlank (c : Char) (h : isBlank c = true) : (c == ',') = false := by
  rw [beq_eq_false_iff_ne]
  rintro rfl
  revert h
  decide

theorem map_trim_splitOnP_intercalate {parts : List (List Char)} (hparts : parts ≠ [])
    (hfree : ∀ part ∈ parts, ',' ∉ part) :
    ((List.intercalate [',', ' '] parts).splitOnP (· == ',')).map trim = parts.map trim := by
  have hcomma {part : List Char} (hpart : ',' ∉ part) : ∀ c ∈ part, (c == ',') = false := by
    intro c hc
    rw [beq_eq_false_iff_ne]
    rintro rfl
    exact hpart hc
  induction parts with
  | nil => exact absurd rfl hparts
  | cons part parts ih =>
    obtain ⟨hpart, hfree⟩ := List.forall_mem_cons.1 hfree
    cases parts with
    | nil =>
      rw [List.intercalate_singleton, List.splitOnP_eq_singleton (hcomma hpart)]
    | cons next parts =>
      -- the space after the comma is trimmed away from the next piece
      have hspace : trim (' ' :: List.intercalate [',', ' '] (next :: parts)) =
          trim (List.intercalate [',', ' '] (next :: parts)) :=
        trim_space_cons _
      rw [List.intercalate_cons_cons, List.append_assoc, List.cons_append,
        List.splitOnP_append_cons_of_forall_mem (hcomma hpart) _ (by decide), List.map_cons,
        ← map_trim_splitOnP_trim comma_of_isBlank, List.singleton_append, hspace,
        map_trim_splitOnP_trim comma_of_isBlank, ih (List.cons_ne_nil _ _) hfree]
      rfl

/-- What the arguments of a call are: trimmed texts without commas, and a word if there is only
one. -/
structure AreArgs (args : List (List Char)) : Prop where
  trimmed : ∀ arg ∈ args, trim arg = arg
  free : ∀ arg ∈ args, ',' ∉ arg
  single : ∀ arg, args = [arg] → IsWord arg

/-- The arguments of a call are trimmed texts without commas, all from the line of the call. -/
theorem areArgs_callArgs (text : List Char) :
    AreArgs (callArgs text) ∧ ∀ arg ∈ callArgs text, arg ⊆ text := by
  rw [callArgs]
  by_cases hempty : (trim text).isEmpty = true
  · rw [if_pos hempty]
    exact ⟨⟨nofun, nofun, nofun⟩, nofun⟩
  rw [if_neg hempty]
  by_cases hcomma : (trim text).contains ',' = true
  · rw [if_pos hcomma]
    have hpiece : ∀ arg ∈ ((trim text).splitOnP (· == ',')).map trim,
        trim arg = arg ∧ ',' ∉ arg ∧ arg ⊆ text := by
      intro arg harg
      obtain ⟨piece, hpiece, rfl⟩ := List.mem_map.1 harg
      obtain ⟨hfree, hsubset⟩ := free_of_mem_splitOnP hpiece
      refine ⟨trim_trim piece, fun hmem => ?_, fun c hc => ?_⟩
      · have hsep := hfree ',' (trim_subset piece hmem)
        cases hsep
      · exact trim_subset text (hsubset (trim_subset piece hc))
    refine ⟨⟨fun arg harg => (hpiece arg harg).1, fun arg harg => (hpiece arg harg).2.1,
      fun arg harg => ?_⟩, fun arg harg => (hpiece arg harg).2.2⟩
    -- a comma makes at least two pieces
    obtain ⟨before, after, hsplit⟩ := List.append_of_mem (List.contains_iff_mem.1 hcomma)
    have hlength := congrArg List.length harg
    rw [hsplit, List.splitOnP_append_cons _ _ (by decide), List.length_map, List.length_append]
      at hlength
    have hbefore := List.length_pos_iff.2 (List.splitOnP_ne_nil (· == ',') before)
    have hafter := List.length_pos_iff.2 (List.splitOnP_ne_nil (· == ',') after)
    simp only [List.length_singleton] at hlength
    omega
  · rw [if_neg hcomma]
    have hword : ∀ arg ∈ words (trim text), IsWord arg ∧ arg ⊆ trim text :=
      fun arg harg => isField_of_mem_fields harg
    refine ⟨⟨fun arg harg => (hword arg harg).1.isTrimmed.trim_eq, fun arg harg hmem => ?_,
      fun arg harg => ?_⟩, fun arg harg c hc => ?_⟩
    · exact hcomma (List.contains_iff_mem.2 ((hword arg harg).2 hmem))
    · exact (hword arg (harg ▸ List.mem_cons_self)).1
    · exact trim_subset text ((hword arg harg).2 hc)

/-- The arguments of a call are found again in their list. -/
theorem callArgs_intercalate {args : List (List Char)} (h : AreArgs args) :
    callArgs (trim (List.intercalate [',', ' '] args)) = args := by
  rw [callArgs, trim_trim]
  match args, h with
  | [], _ => rfl
  | [arg], h =>
    have hword := h.single arg rfl
    have hcomma : ¬ arg.contains ',' = true := fun hmem =>
      h.free arg List.mem_cons_self (List.contains_iff_mem.1 hmem)
    rw [List.intercalate_singleton, hword.isTrimmed.trim_eq, if_neg hcomma,
      List.isEmpty_eq_false_iff.2 hword.ne_nil, words, fields_eq_singleton hword]
    rfl
  | first :: next :: others, h =>
    have hmem : ',' ∈ trim (List.intercalate [',', ' '] (first :: next :: others)) := by
      refine mem_trim ?_ (by decide)
      rw [List.intercalate_cons_cons, List.append_assoc]
      exact List.mem_append_right _ List.mem_cons_self
    rw [List.isEmpty_eq_false_iff.2 (List.ne_nil_of_mem hmem), if_neg Bool.false_ne_true,
      if_pos (List.contains_iff_mem.2 hmem), map_trim_splitOnP_trim comma_of_isBlank,
      map_trim_splitOnP_intercalate (List.cons_ne_nil _ _) h.free]
    exact (List.map_congr_left h.trimmed).trans (List.map_id _)

end Drawscript
