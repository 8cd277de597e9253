import Drawscript.Proofs.Stmt.Printer
import Drawscript.Stmt.Parser

/-!
# Commands read again

A line is read in the form of its first word (`toOption_parse`), and the reader of each form has its
exact condition (`array?_eq_some_iff`, `poke?_eq_some_iff`, `peek?_eq_some_iff`). From these it
follows that the canonical line of a command that was read from some line stands for the same
command (`stable_of_parse`).
-/

set_option autoImplicit false

namespace Drawscript

open Text

variable {text : List Char}

/-- A keyword is found just if it is the first word, and what is left is the rest of the line. -/
theorem afterKeyword?_eq_some_iff {keyword : String} (hkeyword : IsWord keyword.toList)
    (htext : trim text = text) {rest : List Char} :
    afterKeyword? keyword text = some rest ↔ firstWord text = (keyword.toList, rest) := by
  rw [afterKeyword?_eq hkeyword htext, Prod.ext_iff]
  by_cases h : (firstWord text).1 = keyword.toList
  · rw [if_pos h, Option.some.injEq]
    exact ⟨fun hrest => ⟨h, hrest⟩, And.right⟩
  · rw [if_neg h]
    exact ⟨nofun, fun hfirst => absurd hfirst.1 h⟩

theorem afterKeyword?_eq_none {keyword : String} (hkeyword : IsWord keyword.toList)
    (htext : trim text = text) (h : (firstWord text).1 ≠ keyword.toList) :
    afterKeyword? keyword text = none := by
  rw [afterKeyword?_eq hkeyword htext]
  exact if_neg h

namespace Command

/-! ## The command of a line -/

/-- The keywords of commands, with the readers of what follows them. -/
def forms : List (String × (List Char → Option Command)) :=
  [("int", fun rest => (declaration? rest).map fun (name, init) => .declareInt name init),
    ("real", fun rest => (declaration? rest).map fun (name, init) => .declareReal name init),
    ("array", array?), ("peek", peek?), ("poke", poke?),
    ("write", fun rest => some (.write (String.ofList rest)))]

/-- The reader of the form with the given keyword. -/
def form? (word : List Char) : Option (List Char → Option Command) :=
  (forms.find? fun form => word == form.1.toList).map Prod.snd

theorem toOption_orMalformed {what : String} (found : Option Command) :
    (match found with
      | some command => Except.ok command
      | none => Except.error (ParseError.malformed what (String.ofList text))).toOption =
      found := by
  cases found <;> rfl

/-- A line is read in the form of its first word, if that is a keyword. -/
theorem toOption_parse (htext : trim text = text) :
    (parse text).toOption =
      match form? (firstWord text).1 with
      | some read => read (firstWord text).2
      | none => (parsePlain text).toOption := by
  have hafter {keyword : String} (hkeyword : IsWord keyword.toList)
      (hfirst : (firstWord text).1 = keyword.toList) :
      afterKeyword? keyword text = some (firstWord text).2 :=
    (afterKeyword?_eq_some_iff hkeyword htext).2 (Prod.ext hfirst rfl)
  rw [parse]
  dsimp only
  -- the keywords are tried in turn, but only the first word can be one of them
  by_cases hint : (firstWord text).1 = "int".toList
  · rw [hafter (by decide) hint, hint]
    exact toOption_orMalformed _
  rw [afterKeyword?_eq_none (by decide) htext hint]
  by_cases hreal : (firstWord text).1 = "real".toList
  · rw [hafter (by decide) hreal, hreal]
    exact toOption_orMalformed _
  rw [afterKeyword?_eq_none (by decide) htext hreal]
  by_cases harray : (firstWord text).1 = "array".toList
  · rw [hafter (by decide) harray, harray]
    exact toOption_orMalformed _
  rw [afterKeyword?_eq_none (by decide) htext harray]
  by_cases hpeek : (firstWord text).1 = "peek".toList
  · rw [hafter (by decide) hpeek, hpeek]
    exact toOption_orMalformed _
  rw [afterKeyword?_eq_none (by decide) htext hpeek]
  by_cases hpoke : (firstWord text).1 = "poke".toList
  · rw [hafter (by decide) hpoke, hpoke]
    exact toOption_orMalformed _
  rw [afterKeyword?_eq_none (by decide) htext hpoke]
  by_cases hwrite : (firstWord text).1 = "write".toList
  · rw [hafter (by decide) hwrite, hwrite]
    rfl
  rw [afterKeyword?_eq_none (by decide) htext hwrite]
  have hnone : form? (firstWord text).1 = none := by
    rw [form?, Option.map_eq_none_iff, List.find?_eq_none]
    simp only [forms, List.forall_mem_cons, beq_iff_eq]
    exact ⟨hint, hreal, harray, hpeek, hpoke, hwrite, nofun⟩
  rw [hnone]

/-! ## Declarations -/

/-- A name, and an expression if there is one. -/
structure IsDeclared (name : String) (init : Option String) : Prop where
  name : isIdentifier name.toList = true
  init : ∀ expr ∈ init, IsTrimmed expr.toList

/-- A declaration that is read has an identifier for its name, and all its text comes from the
line. -/
theorem isDeclared_of_declaration? {rest : List Char} {name : String} {init : Option String}
    (h : declaration? rest = some (name, init)) :
    IsDeclared name init ∧ name.toList ⊆ rest ∧ ∀ expr ∈ init, expr.toList ⊆ rest := by
  rw [declaration?, atEquals?] at h
  cases hcut : cut? ['='] rest with
  | none =>
    simp only [hcut, Option.map_none] at h
    obtain ⟨hname, h⟩ := Option.ite_none_right_eq_some.1 h
    cases h
    rw [String.toList_ofList]
    exact ⟨⟨by rwa [String.toList_ofList], nofun⟩, trim_subset rest, nofun⟩
  | some parts =>
    obtain ⟨left, right⟩ := parts
    simp only [hcut, Option.map_some] at h
    obtain ⟨hparts, h⟩ := Option.ite_none_right_eq_some.1 h
    cases h
    simp only [Bool.and_eq_true, Bool.not_eq_true', List.isEmpty_eq_false_iff] at hparts
    obtain ⟨rfl, -⟩ := cut?_eq_some_iff.1 hcut
    simp only [String.toList_ofList, Option.mem_some_iff, forall_eq']
    refine ⟨⟨by simpa using hparts.1, ?_⟩, ?_, ?_⟩
    · intro expr hexpr
      cases hexpr
      rw [String.toList_ofList]
      exact ⟨hparts.2, trim_trim right⟩
    · exact fun c hc => List.mem_append_left _ (trim_subset left hc)
    · exact fun c hc => List.mem_append_right _ (List.mem_cons_of_mem _ (trim_subset right hc))

/-- A declaration is read back from its canonical text. -/
theorem declaration?_declared {name : String} {init : Option String} (h : IsDeclared name init) :
    declaration? (trim (declared name init)) = some (name, init) := by
  have hname := (isWord_of_isIdentifier h.name).isTrimmed
  have hequals : '=' ∉ name.toList := not_mem_of_isIdentifier h.name (by decide)
  cases init with
  | none =>
    rw [declared, hname.trim_eq, declaration?, atEquals?, cut?_eq_none_iff.2 hequals]
    simp only [Option.map_none]
    rw [hname.trim_eq, if_pos h.name, String.ofList_toList]
  | some expr =>
    have hexpr := h.init expr rfl
    -- the first equals sign is the printed one, whatever the expression holds
    have hcut : cut? ['='] (name.toList ++ (" = ".toList ++ expr.toList)) =
        some (name.toList ++ [' '], ' ' :: expr.toList) := by
      refine cut?_eq_some_iff.2 ⟨by simp, ?_⟩
      exact List.not_mem_append hequals (by decide)
    rw [declared, List.append_assoc, (hname.between hexpr _).trim_eq, declaration?, atEquals?, hcut]
    simp only [Option.map_some]
    rw [trim_append_space, trim_space_cons, hname.trim_eq, hexpr.trim_eq, h.name]
    simp [hexpr.ne_nil]

/-! ## Arrays -/

/-- An array declaration is a kind, an identifier and a size of at least one word. -/
theorem array?_eq_some_iff {rest : List Char} {cmd : Command} :
    array? rest = some cmd ↔
      ∃ kind name size, words rest = kind :: name :: size ∧ size ≠ [] ∧
        isIdentifier name = true ∧
        cmd = .declareArray (String.ofList kind) (String.ofList name)
          (String.ofList (spaced size)) := by
  rw [array?]
  constructor
  · intro h
    split at h
    case h_1 kind name first others hwords =>
      obtain ⟨hname, h⟩ := Option.ite_none_right_eq_some.1 h
      cases h
      exact ⟨kind, name, first :: others, hwords, List.cons_ne_nil _ _, hname, rfl⟩
    case h_2 => cases h
  · rintro ⟨kind, name, size, hwords, hsize, hname, rfl⟩
    obtain ⟨first, others, rfl⟩ := List.exists_cons_of_ne_nil hsize
    rw [hwords]
    exact if_pos hname

/-- The words of an array declaration are found again in its canonical text. -/
theorem array?_spaced {kind name : List Char} {size : List (List Char)} (hkind : IsWord kind)
    (hname : isIdentifier name = true) (hsize : size ≠ []) (hwords : ∀ word ∈ size, IsWord word) :
    array? (trim (spaced [kind, name, spaced size])) =
      some (.declareArray (String.ofList kind) (String.ofList name)
        (String.ofList (spaced size))) := by
  refine array?_eq_some_iff.2 ⟨kind, name, size, ?_, hsize, hname, rfl⟩
  rw [words_trim, words, fields_spaced (by decide), List.flatMap_cons, List.flatMap_cons,
    List.flatMap_singleton, fields_eq_singleton hkind,
    fields_eq_singleton (isWord_of_isIdentifier hname), fields_spaced (by decide),
    flatMap_fields hwords]
  rfl

/-- An array name and the text of an index. -/
structure IsElement (array index : String) : Prop where
  array : isIdentifier array.toList = true
  index : IsTrimmed index.toList

/-- An element that is read has an identifier for its array, and all its text comes from the
line. -/
theorem isElement_of_element? {target : List Char} {array index : String}
    (h : element? target = some (array, index)) :
    IsElement array index ∧ array.toList ⊆ target ∧ index.toList ⊆ target := by
  -- the last check is the same for both ways to write an element
  have hparts {name inside : List Char}
      (h : (if isIdentifier name && !inside.isEmpty then
        some (String.ofList name, String.ofList inside) else none) = some (array, index))
      (htrim : trim inside = inside) (hname : name ⊆ target) (hinside : inside ⊆ target) :
      IsElement array index ∧ array.toList ⊆ target ∧ index.toList ⊆ target := by
    obtain ⟨hboth, h⟩ := Option.ite_none_right_eq_some.1 h
    cases h
    simp only [Bool.and_eq_true, Bool.not_eq_true', List.isEmpty_eq_false_iff] at hboth
    simp only [String.toList_ofList]
    exact ⟨⟨by simpa using hboth.1, by simpa using ⟨hboth.2, htrim⟩⟩, hname, hinside⟩
  rw [element?] at h
  cases hcut : cut? ['['] (trim target) with
  | none =>
    simp only [hcut] at h
    refine hparts h (trim_firstWord_snd _) (fun c hc => ?_) fun c hc => ?_
    · exact trim_subset target (firstWord_fst_subset _ hc)
    · exact trim_subset target (firstWord_snd_subset _ hc)
  | some cut =>
    obtain ⟨name, rest⟩ := cut
    obtain ⟨htarget, -⟩ := cut?_eq_some_iff.1 hcut
    have hsubset : name ++ '[' :: rest ⊆ target := htarget ▸ trim_subset target
    cases hlast : dropLast? ']' (trim rest) with
    | none => simp [hcut, hlast] at h
    | some index =>
      simp only [hcut, hlast, Option.map_some] at h
      have hindex := dropLast?_eq_some_iff.1 hlast
      refine hparts h (trim_trim index) (fun c hc => ?_) fun c hc => ?_
      · exact hsubset (List.mem_append_left _ (trim_subset name hc))
      · have hrest : c ∈ rest :=
          trim_subset rest (hindex ▸ List.mem_append_left _ (trim_subset _ hc))
        exact hsubset (List.mem_append_right _ (List.mem_cons_of_mem _ hrest))

theorem isTrimmed_element {array index : String} (h : IsElement array index) :
    IsTrimmed (element array index) := by
  have hbracket : IsTrimmed [']'] := ⟨by decide, by decide⟩
  exact (isWord_of_isIdentifier h.array).isTrimmed.between hbracket ('[' :: index.toList)

/-- An element is read back from its canonical text, with blanks around it or without. -/
theorem element?_of_trim {target : List Char} {array index : String} (h : IsElement array index)
    (htarget : trim target = element array index) : element? target = some (array, index) := by
  have hcut : cut? ['['] (element array index) = some (array.toList, index.toList ++ [']']) :=
    cut?_eq_some_iff.2 ⟨rfl, not_mem_of_isIdentifier h.array (by decide)⟩
  have hindex : trim (index.toList ++ [']']) = index.toList ++ [']'] :=
    (h.index.between ⟨by decide, by decide⟩ []).trim_eq
  have hlast : dropLast? ']' (index.toList ++ [']']) = some index.toList :=
    dropLast?_eq_some_iff.2 rfl
  rw [element?, htarget]
  simp only [hcut, hindex, hlast, Option.map_some]
  rw [h.index.trim_eq, (isWord_of_isIdentifier h.array).isTrimmed.trim_eq, h.array]
  simp [h.index.ne_nil]

/-- A `poke` is an element and a value that is not blank, on the two sides of the first equals
sign. -/
theorem poke?_eq_some_iff {rest : List Char} {cmd : Command} :
    poke? rest = some cmd ↔
      ∃ target value array index, rest = target ++ '=' :: value ∧ '=' ∉ target ∧
        element? target = some (array, index) ∧ trim value ≠ [] ∧
        cmd = .poke array index (String.ofList (trim value)) := by
  rw [poke?]
  constructor
  · intro h
    split at h
    case h_1 target value hcut =>
      obtain ⟨hrest, hequals⟩ := cut?_eq_some_iff.1 hcut
      split at h
      case h_1 array index helement =>
        obtain ⟨hvalue, h⟩ := Option.ite_none_left_eq_some.1 h
        cases h
        refine ⟨target, value, array, index, hrest, hequals, helement, ?_, rfl⟩
        exact fun hnil => hvalue (List.isEmpty_iff.2 hnil)
      case h_2 => cases h
    case h_2 => cases h
  · rintro ⟨target, value, array, index, hrest, hequals, helement, hvalue, rfl⟩
    simp only [cut?_eq_some_iff.2 ⟨hrest, hequals⟩, helement]
    exact if_neg fun hempty => hvalue (List.isEmpty_iff.1 hempty)

/-- A `peek` is an identifier and an element, on the two sides of the first equals sign. -/
theorem peek?_eq_some_iff {rest : List Char} {cmd : Command} :
    peek? rest = some cmd ↔
      ∃ target source array index, rest = target ++ '=' :: source ∧ '=' ∉ target ∧
        isIdentifier (trim target) = true ∧ element? source = some (array, index) ∧
        cmd = .peek (String.ofList (trim target)) array index := by
  rw [peek?]
  constructor
  · intro h
    split at h
    case h_1 target source hcut =>
      obtain ⟨hrest, hequals⟩ := cut?_eq_some_iff.1 hcut
      obtain ⟨htarget, h⟩ := Option.ite_none_right_eq_some.1 h
      obtain ⟨⟨array, index⟩, helement, rfl⟩ := Option.map_eq_some_iff.1 h
      exact ⟨target, source, array, index, hrest, hequals, htarget, helement, rfl⟩
    case h_2 => cases h
  · rintro ⟨target, source, array, index, hrest, hequals, htarget, helement, rfl⟩
    simp only [cut?_eq_some_iff.2 ⟨hrest, hequals⟩, helement]
    exact if_pos htarget

/-! ## Canonical lines -/

/-- A reader that took a command from a text takes it again from another text, which is on one line
if the first is. -/
structure Rereads (read : List Char → Option Command) (rest rest' : List Char) (cmd : Command) :
    Prop where
  again : read (trim rest') = some cmd
  oneLine : OneLine rest → OneLine rest'

theorem rereads_declared {rest : List Char} {name : String} {init : Option String}
    (h : declaration? rest = some (name, init)) :
    declaration? (trim (declared name init)) = some (name, init) ∧
      (OneLine rest → OneLine (declared name init)) := by
  obtain ⟨hdeclared, hname, hinit⟩ := isDeclared_of_declaration? h
  refine ⟨declaration?_declared hdeclared, fun hrest => ?_⟩
  cases init with
  | none => exact hrest.of_subset hname
  | some expr =>
    have hexpr := hrest.of_subset (hinit expr rfl)
    exact ((hrest.of_subset hname).append (by decide : '\n' ∉ " = ".toList)).append hexpr

/-- The size of an array may be several words; its canonical text has single blanks between them. -/
theorem rereads_array {rest : List Char} {cmd : Command} (h : array? rest = some cmd) :
    ∃ rest', cmd.print = phrase "array" rest' ∧ Rereads array? rest rest' cmd := by
  obtain ⟨kind, name, size, hwords, hsize, hname, rfl⟩ := array?_eq_some_iff.1 h
  have hword : ∀ word ∈ kind :: name :: size, IsWord word ∧ word ⊆ rest := by
    rw [← hwords]
    exact fun word hword => isField_of_mem_fields hword
  obtain ⟨⟨hkind, hkindrest⟩, ⟨-, hnamerest⟩, hsizes⟩ := by
    simpa only [List.forall_mem_cons] using hword
  refine ⟨spaced [kind, name, spaced size], by simp [print], ?_, fun hrest => ?_⟩
  · exact array?_spaced hkind hname hsize fun word hword => (hsizes word hword).1
  · have hspace : OneLine [' '] := by decide
    refine oneLine_intercalate hspace fun part hpart => ?_
    simp only [List.mem_cons, List.not_mem_nil, or_false] at hpart
    rcases hpart with rfl | rfl | rfl
    · exact hrest.of_subset hkindrest
    · exact hrest.of_subset hnamerest
    · exact oneLine_intercalate hspace fun word hword => hrest.of_subset (hsizes word hword).2

theorem oneLine_element {array index : String} (harray : OneLine array.toList)
    (hindex : OneLine index.toList) : OneLine (element array index) :=
  harray.append (List.not_mem_cons_of_ne_of_not_mem (by decide) (hindex.append (by decide)))

theorem rereads_poke {rest : List Char} {cmd : Command} (h : poke? rest = some cmd) :
    ∃ rest', cmd.print = phrase "poke" rest' ∧ Rereads poke? rest rest' cmd := by
  obtain ⟨target, value, array, index, rfl, hequals, helement, hvalue, rfl⟩ :=
    poke?_eq_some_iff.1 h
  obtain ⟨hshape, harray, hindex⟩ := isElement_of_element? helement
  have hcanonical := isTrimmed_element hshape
  have htrimmed : IsTrimmed (trim value) := ⟨hvalue, trim_trim value⟩
  refine ⟨element array index ++ (" = ".toList ++ trim value), by simp [print], ?_, fun hrest => ?_⟩
  · rw [(hcanonical.between htrimmed _).trim_eq]
    refine poke?_eq_some_iff.2
      ⟨element array index ++ [' '], ' ' :: trim value, array, index, ?_, ?_, ?_, ?_, ?_⟩
    · simp
    · -- the index was read from before the first equals sign, so it holds none
      have hnot : '=' ∉ element array index := by
        simp only [element, List.mem_append, List.mem_cons, List.not_mem_nil, not_or]
        exact ⟨fun hmem => hequals (harray hmem), by decide, fun hmem => hequals (hindex hmem),
          by decide, not_false⟩
      exact List.not_mem_append hnot (by decide)
    · exact element?_of_trim hshape ((trim_append_space _).trans hcanonical.trim_eq)
    · rw [trim_space_cons, htrimmed.trim_eq]
      exact hvalue
    · rw [trim_space_cons, htrimmed.trim_eq]
  · have hparts : OneLine target ∧ OneLine value := by
      refine ⟨hrest.of_subset (List.subset_append_left _ _), hrest.of_subset ?_⟩
      exact List.subset_append_of_subset_right _ (List.subset_cons_self _ _)
    have helem := oneLine_element (hparts.1.of_subset harray) (hparts.1.of_subset hindex)
    have hequal : OneLine " = ".toList := by decide
    exact helem.append (hequal.append (hparts.2.of_subset (trim_subset value)))

theorem rereads_peek {rest : List Char} {cmd : Command} (h : peek? rest = some cmd) :
    ∃ rest', cmd.print = phrase "peek" rest' ∧ Rereads peek? rest rest' cmd := by
  obtain ⟨target, source, array, index, rfl, hequals, htarget, helement, rfl⟩ :=
    peek?_eq_some_iff.1 h
  obtain ⟨hshape, harray, hindex⟩ := isElement_of_element? helement
  have hcanonical := isTrimmed_element hshape
  have hname := (isWord_of_isIdentifier htarget).isTrimmed
  refine ⟨trim target ++ (" = ".toList ++ element array index), by simp [print], ?_,
    fun hrest => ?_⟩
  · rw [(hname.between hcanonical _).trim_eq]
    refine peek?_eq_some_iff.2 ⟨trim target ++ [' '], ' ' :: element array index, array, index, ?_,
      ?_, ?_, ?_, ?_⟩
    · simp
    · exact List.not_mem_append (not_mem_of_isIdentifier htarget (by decide)) (by decide)
    · rw [trim_append_space, hname.trim_eq]
      exact htarget
    · exact element?_of_trim hshape ((trim_space_cons _).trans hcanonical.trim_eq)
    · rw [trim_append_space, hname.trim_eq]
  · have hparts : OneLine target ∧ OneLine source := by
      refine ⟨hrest.of_subset (List.subset_append_left _ _), hrest.of_subset ?_⟩
      exact List.subset_append_of_subset_right _ (List.subset_cons_self _ _)
    have helem := oneLine_element (hparts.2.of_subset harray) (hparts.2.of_subset hindex)
    have hequal : OneLine " = ".toList := by decide
    exact (hparts.1.of_subset (trim_subset target)).append (hequal.append helem)

/-- A command of some form is found again in its canonical line. -/
theorem rereads_of_mem_forms {keyword : String} {read : List Char → Option Command}
    (hform : (keyword, read) ∈ forms) {rest : List Char} (hrest : trim rest = rest) {cmd : Command}
    (h : read rest = some cmd) :
    ∃ rest', cmd.print = phrase keyword rest' ∧ Rereads read rest rest' cmd := by
  simp only [forms, List.mem_cons, Prod.mk.injEq, List.not_mem_nil, or_false] at hform
  rcases hform with ⟨rfl, rfl⟩ | ⟨rfl, rfl⟩ | ⟨rfl, rfl⟩ | ⟨rfl, rfl⟩ | ⟨rfl, rfl⟩ | ⟨rfl, rfl⟩
  · obtain ⟨⟨name, init⟩, hread, rfl⟩ := Option.map_eq_some_iff.1 h
    obtain ⟨hagain, honeLine⟩ := rereads_declared hread
    exact ⟨declared name init, rfl, by rw [hagain]; rfl, honeLine⟩
  · obtain ⟨⟨name, init⟩, hread, rfl⟩ := Option.map_eq_some_iff.1 h
    obtain ⟨hagain, honeLine⟩ := rereads_declared hread
    exact ⟨declared name init, rfl, by rw [hagain]; rfl, honeLine⟩
  · exact rereads_array h
  · exact rereads_peek h
  · exact rereads_poke h
  · cases h
    refine ⟨rest, by rw [print, String.toList_ofList], ?_, id⟩
    rw [hrest]

/-- The canonical line of a command that was read from a simple line is simple, is no call, stands
for the same command, and is on one line if the line read was. -/
structure Stable (text : List Char) (cmd : Command) : Prop where
  simple : IsSimple (trim cmd.print)
  call : (firstWord cmd.print).1 ≠ "call".toList
  again : parse (trim cmd.print) = .ok cmd
  oneLine : OneLine text → OneLine cmd.print

theorem parse_eq_ok_of_toOption {cmd : Command} (h : (parse text).toOption = some cmd) :
    parse text = .ok cmd := by
  cases hparse : parse text with
  | ok found =>
    rw [hparse] at h
    exact congrArg Except.ok (Option.some.inj h)
  | error e =>
    rw [hparse] at h
    cases h

/-- The keywords of commands are words that stand for themselves, and none of them is `call`. -/
theorem keyword_of_mem_forms {keyword : String} {read : List Char → Option Command}
    (hform : (keyword, read) ∈ forms) :
    IsWord keyword.toList ∧ isOrdinary keyword.toList = true ∧ OneLine keyword.toList ∧
      keyword.toList ≠ "call".toList := by
  have hkeywords : ∀ keyword ∈ forms.map Prod.fst, IsWord keyword.toList ∧
      isOrdinary keyword.toList = true ∧ OneLine keyword.toList ∧
      keyword.toList ≠ "call".toList := by decide
  exact hkeywords keyword (List.mem_map_of_mem hform)

theorem form?_of_mem_forms {keyword : String} {read : List Char → Option Command}
    (hform : (keyword, read) ∈ forms) : form? keyword.toList = some read := by
  simp only [forms, List.mem_cons, Prod.mk.injEq, List.not_mem_nil, or_false] at hform
  rcases hform with
    ⟨rfl, rfl⟩ | ⟨rfl, rfl⟩ | ⟨rfl, rfl⟩ | ⟨rfl, rfl⟩ | ⟨rfl, rfl⟩ | ⟨rfl, rfl⟩ <;> rfl

/-- What follows the keyword of a form is read in that form. -/
theorem parse_phrase {keyword : String} {read : List Char → Option Command}
    (hform : (keyword, read) ∈ forms) {rest : List Char} {cmd : Command}
    (h : read (trim rest) = some cmd) : parse (trim (phrase keyword rest)) = .ok cmd := by
  obtain ⟨hword, -, -, -⟩ := keyword_of_mem_forms hform
  refine parse_eq_ok_of_toOption ?_
  rw [toOption_parse (trim_trim _), firstWord_trim, firstWord_phrase hword rest]
  simp only [form?_of_mem_forms hform]
  exact h

/-- A command read by one of the forms with a keyword is stable. -/
theorem stable_of_form {keyword : String} {read : List Char → Option Command}
    (hform : (keyword, read) ∈ forms) {cmd : Command}
    (h : read (firstWord text).2 = some cmd) : Stable text cmd := by
  obtain ⟨rest, hprint, hagain, honeLine⟩ :=
    rereads_of_mem_forms hform (trim_firstWord_snd text) h
  obtain ⟨hword, hordinary, hkeyword, hcall⟩ := keyword_of_mem_forms hform
  refine ⟨?_, ?_, ?_, fun htext => ?_⟩
  · rw [hprint]
    exact isSimple_phrase hword rest hordinary
  · rw [hprint, firstWord_phrase hword rest]
    exact hcall
  · rw [hprint]
    exact parse_phrase hform hagain
  · rw [hprint]
    exact (honeLine (htext.of_subset (firstWord_snd_subset text))).phrase hkeyword

/-! ## Lines without a keyword -/

/-- The line is an assignment, a drawing command, or neither. -/
inductive ReadsPlain (text : List Char) : Command → Prop
  | assign {left right : List Char} (htext : text = left ++ '=' :: right) (hleft : '=' ∉ left)
    (hname : isIdentifier (trim left) = true) (hexpr : trim right ≠ []) :
    ReadsPlain text (.assign (String.ofList (trim left)) (String.ofList (trim right)))
  | draw {op : DrawOp} (htext : '=' ∉ text) (hop : DrawOp.ofWord? (firstWord text).1 = some op) :
    ReadsPlain text (.draw op (String.ofList (firstWord text).2))
  | unknown (htext : '=' ∉ text) (hop : DrawOp.ofWord? (firstWord text).1 = none) :
    ReadsPlain text (.unknown (String.ofList text))

/-- A line without a keyword is an assignment, a drawing command or unknown, and nothing else. -/
theorem readsPlain_of_parsePlain {cmd : Command} (h : parsePlain text = .ok cmd) :
    ReadsPlain text cmd := by
  rw [parsePlain, atEquals?] at h
  cases hcut : cut? ['='] text with
  | none =>
    have htext := cut?_eq_none_iff.1 hcut
    simp only [hcut, Option.map_none] at h
    cases hop : DrawOp.ofWord? (firstWord text).1 with
    | none =>
      rw [hop] at h
      cases h
      exact .unknown htext hop
    | some op =>
      rw [hop] at h
      cases h
      exact .draw htext hop
  | some parts =>
    obtain ⟨left, right⟩ := parts
    obtain ⟨htext, hleft⟩ := cut?_eq_some_iff.1 hcut
    simp only [hcut, Option.map_some] at h
    by_cases hparts : (isIdentifier (trim left) && !(trim right).isEmpty) = true
    · rw [if_pos hparts] at h
      cases h
      simp only [Bool.and_eq_true, Bool.not_eq_true', List.isEmpty_eq_false_iff] at hparts
      exact .assign htext hleft hparts.1 hparts.2
    · rw [if_neg hparts] at h
      cases h

theorem parsePlain_of_readsPlain {cmd : Command} (h : ReadsPlain text cmd) :
    parsePlain text = .ok cmd := by
  rw [parsePlain, atEquals?]
  cases h with
  | assign htext hleft hname hexpr =>
    simp only [cut?_eq_some_iff.2 ⟨htext, hleft⟩, Option.map_some]
    rw [hname, List.isEmpty_eq_false_iff.2 hexpr]
    rfl
  | draw htext hop =>
    simp only [cut?_eq_none_iff.2 htext, Option.map_none]
    rw [hop]
  | unknown htext hop =>
    simp only [cut?_eq_none_iff.2 htext, Option.map_none]
    rw [hop]

/-- No keyword and no mark holds an equals sign. -/
theorem isOrdinary_of_equals {word : List Char} (hmem : '=' ∈ word)
    (hstar : word.head? ≠ some '*') : isOrdinary word = true := by
  have hlowered : '=' ∈ lowered word := List.mem_map.2 ⟨'=', hmem, by decide⟩
  have hmark : isMark word = false := by
    rw [isMark, List.any_eq_false]
    intro mark hmark hsame
    have hmarks : ∀ mark ∈ ["else", "end", "endwhile", "endfor", "endif", "endmethod"],
        '=' ∉ mark.toList := by decide
    rw [beq_iff_eq.1 hsame] at hlowered
    exact hmarks mark hmark hlowered
  have hkeyword : ∀ kind ∈ BlockKind.all, (word != kind.keyword.toList) = true := by
    intro kind _
    rw [bne_iff_ne]
    rintro rfl
    revert hmem
    cases kind <;> decide
  rw [isOrdinary, hmark, List.all_eq_true.2 hkeyword, bne_iff_ne.2 hstar,
    List.isEmpty_eq_false_iff.2 (List.ne_nil_of_mem hmem)]
  rfl

/-- An assignment is read back from its canonical line, which is taken for nothing else. -/
theorem stable_assign {name expr : String} (hname : isIdentifier name.toList = true)
    (hexpr : IsTrimmed expr.toList) (hline : OneLine text → OneLine (print (.assign name expr))) :
    Stable text (.assign name expr) := by
  have hword := isWord_of_isIdentifier hname
  have hprint : print (.assign name expr) = name.toList ++ (['='] ++ expr.toList) := rfl
  have htrim : trim (print (.assign name expr)) = print (.assign name expr) :=
    (hword.isTrimmed.between hexpr ['=']).trim_eq
  -- without blanks around it, the equals sign belongs to the first word, which is no keyword
  have hfirst : (firstWord (print (.assign name expr))).1 =
      name.toList ++ '=' :: expr.toList.takeWhile fun c => !isBlank c := by
    have hnonblank : ∀ c ∈ name.toList ++ ['='], (!isBlank c) = true := by
      intro c hc
      rcases List.mem_append.1 hc with hc | hc
      · rw [hword.free c hc]
        rfl
      · rw [List.mem_singleton.1 hc]
        decide
    rw [firstWord, htrim, hprint, ← List.append_assoc, List.takeWhile_append_of_pos hnonblank,
      List.append_assoc]
    rfl
  have hequals : '=' ∈ (firstWord (print (.assign name expr))).1 := by
    rw [hfirst]
    exact List.mem_append_right _ List.mem_cons_self
  have hstar : (firstWord (print (.assign name expr))).1.head? ≠ some '*' := by
    rw [hfirst, List.head?_append_of_ne_nil _ hword.ne_nil]
    intro hhead
    exact not_mem_of_isIdentifier hname (by decide) (List.mem_of_head? hhead)
  have hform : form? (firstWord (print (.assign name expr))).1 = none := by
    rw [form?, Option.map_eq_none_iff, List.find?_eq_none]
    intro form hform hsame
    rw [beq_iff_eq.1 hsame] at hequals
    have hkeywords : ∀ keyword ∈ forms.map Prod.fst, '=' ∉ keyword.toList := by decide
    exact hkeywords form.1 (List.mem_map_of_mem hform) hequals
  refine ⟨?_, fun hcall => ?_, parse_eq_ok_of_toOption ?_, hline⟩
  · rw [htrim]
    exact isSimple_of_isOrdinary htrim (isOrdinary_of_equals hequals hstar)
  · rw [hcall] at hequals
    revert hequals
    decide
  · have hplain : parsePlain (print (.assign name expr)) = .ok (.assign name expr) := by
      have hreads : ReadsPlain (print (.assign name expr))
          (.assign (String.ofList (trim name.toList)) (String.ofList (trim expr.toList))) := by
        refine .assign rfl (not_mem_of_isIdentifier hname (by decide)) ?_ ?_
        · rw [hword.isTrimmed.trim_eq]
          exact hname
        · rw [hexpr.trim_eq]
          exact hexpr.ne_nil
      rw [hword.isTrimmed.trim_eq, hexpr.trim_eq, String.ofList_toList, String.ofList_toList]
        at hreads
      exact parsePlain_of_readsPlain hreads
    rw [htrim, toOption_parse htrim, hform]
    simp only [hplain]
    rfl

/-- Drawing commands are stable. An equals sign in the arguments would make an assignment of
them. -/
theorem stable_draw {op : DrawOp} {args : String} (hargs : trim args.toList = args.toList)
    (hequals : '=' ∉ args.toList) (hline : OneLine text → OneLine args.toList) :
    Stable text (.draw op args) := by
  have hop : IsWord op.name.toList ∧ isOrdinary op.name.toList = true ∧ OneLine op.name.toList ∧
      '=' ∉ op.name.toList ∧ op.name.toList ≠ "call".toList ∧
      DrawOp.ofWord? op.name.toList = some op := by
    cases op <;> decide
  obtain ⟨hword, hordinary, hname, hnot, hcall, hofWord⟩ := hop
  have hform : form? op.name.toList = none := by cases op <;> rfl
  have hprint : print (.draw op args) = phrase op.name args.toList := rfl
  have hfirst : firstWord (print (.draw op args)) = (op.name.toList, args.toList) := by
    rw [hprint, firstWord_phrase hword, hargs]
  refine ⟨isSimple_phrase hword _ hordinary, ?_, parse_eq_ok_of_toOption ?_, fun htext => ?_⟩
  · rw [hfirst]
    exact hcall
  · have hreads : ReadsPlain (trim (print (.draw op args))) (.draw op args) := by
      have hdraw : ReadsPlain (trim (print (.draw op args)))
          (.draw op (String.ofList (firstWord (trim (print (.draw op args)))).2)) := by
        refine .draw (fun hmem => ?_) ?_
        · have hmem := trim_subset _ hmem
          rw [hprint, phrase, List.mem_append, List.mem_cons] at hmem
          rcases hmem with hmem | hmem | hmem
          · exact hnot hmem
          · cases hmem
          · exact hequals hmem
        · rw [firstWord_trim, hfirst]
          exact hofWord
      rwa [firstWord_trim, hfirst, String.ofList_toList] at hdraw
    rw [toOption_parse (trim_trim _), firstWord_trim, hfirst]
    simp only [hform, parsePlain_of_readsPlain hreads]
    rfl
  · exact (hline htext).phrase hname

theorem exists_of_form? {word : List Char} {read : List Char → Option Command}
    (h : form? word = some read) : ∃ keyword, (keyword, read) ∈ forms := by
  obtain ⟨⟨keyword, found⟩, hfound, rfl⟩ := Option.map_eq_some_iff.1 h
  exact ⟨keyword, List.mem_of_find?_eq_some hfound⟩

/-- Every command that is read from a simple line is stable. -/
theorem stable_of_parse (hsimple : IsSimple text) (hcall : (firstWord text).1 ≠ "call".toList)
    {cmd : Command} (h : parse text = .ok cmd) : Stable text cmd := by
  have hoption := toOption_parse hsimple.trimmed
  rw [h] at hoption
  cases hform : form? (firstWord text).1 with
  | some read =>
    simp only [hform] at hoption
    obtain ⟨keyword, hmem⟩ := exists_of_form? hform
    exact stable_of_form hmem hoption.symm
  | none =>
    simp only [hform] at hoption
    cases hplain : parsePlain text with
    | error e =>
      rw [hplain] at hoption
      cases hoption
    | ok found =>
      rw [hplain] at hoption
      cases hoption
      cases readsPlain_of_parsePlain hplain with
      | @assign left right htext hleft hname hexpr =>
        refine stable_assign (by rwa [String.toList_ofList])
          (by rw [String.toList_ofList]; exact ⟨hexpr, trim_trim right⟩) fun hline => ?_
        rw [htext] at hline
        simp only [print, String.toList_ofList]
        have hleft := hline.of_subset (List.subset_append_left _ _)
        have hright := hline.of_subset
          (List.subset_append_of_subset_right _ (List.subset_cons_self _ _))
        exact (hleft.of_subset (trim_subset left)).append
          (List.not_mem_cons_of_ne_of_not_mem (by decide)
            (hright.of_subset (trim_subset right)))
      | draw htext hop =>
        have hsubset := firstWord_snd_subset text
        refine stable_draw ?_ ?_ fun hline => ?_
        · rw [String.toList_ofList]
          exact trim_firstWord_snd text
        · rw [String.toList_ofList]
          exact fun hmem => htext (hsubset hmem)
        · rw [String.toList_ofList]
          exact hline.of_subset hsubset
      | unknown htext hop =>
        -- such a line is printed as it is, and all that is asked of it is known already
        have hprint : print (.unknown (String.ofList text)) = text := String.toList_ofList
        refine ⟨?_, ?_, ?_, fun hline => ?_⟩
        · rw [hprint, hsimple.trimmed]
          exact hsimple
        · rw [hprint]
          exact hcall
        · rw [hprint, hsimple.trimmed]
          exact h
        · rw [hprint]
          exact hline

end Command

end Drawscript
