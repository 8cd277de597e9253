import Drawscript.Expr.Substitution
import Drawscript.Proofs.Number.Printer
import Drawscript.Proofs.Table
import Drawscript.Proofs.Text.Match

/-!
# Substitution in one pass

Substitution goes over the whole text once for each variable. `substituteOnce` goes over it a single
time and replaces every maximal run of word characters that is the name of a variable. The two are
the same if all names are identifiers and all values are integers or finite reals, and then the
order of the variables does not matter (`substitute_eq_substituteOnce`).

Two facts carry the proof. To replace a word is to map the runs of the text (`replaceWord_eq`): an
occurrence that does not count lies inside a longer run and hides no other run. And mapping runs
twice is mapping each run once, by both maps (`mapRuns_mapRuns`): what is put in the place of a run
stands between characters of no word, and the runs that it holds are numbers.
-/

set_option autoImplicit false

namespace Drawscript

open Text

/-! ## Runs of word characters -/

/-- A nonempty text of word characters. -/
def IsRun (run : List Char) : Prop :=
  run ≠ [] ∧ ∀ c ∈ run, isWordChar c = true

/-- The text with every maximal run of word characters put through `f`, and every other character
as it is. -/
def mapRuns (f : List Char → List Char) (text : List Char) : List Char :=
  match text with
  | [] => []
  | c :: rest =>
    if isWordChar c then f (c :: rest.takeWhile isWordChar) ++ mapRuns f (rest.dropWhile isWordChar)
    else c :: mapRuns f rest
termination_by text.length
decreasing_by
  · have := (List.dropWhile_sublist isWordChar (l := rest)).length_le
    simp only [List.length_cons]
    omega
  · simp

variable {f g : List Char → List Char} {text rest run : List Char}

theorem startsInWord_append (h : startsInWord rest = false) (hrun : startsInWord run = false) :
    startsInWord (run ++ rest) = false := by
  cases run with
  | nil => exact h
  | cons c run => exact hrun

theorem startsInWord_dropWhile (text : List Char) :
    startsInWord (text.dropWhile isWordChar) = false := by
  have hnot := List.head?_dropWhile_not isWordChar text
  cases hdrop : text.dropWhile isWordChar with
  | nil => rfl
  | cons c rest =>
    rw [hdrop] at hnot
    exact hnot

/-- Word characters before a text that starts with no word are taken off in one go. -/
theorem takeWhile_run (hrun : ∀ c ∈ run, isWordChar c = true) (h : startsInWord rest = false) :
    (run ++ rest).takeWhile isWordChar = run ∧ (run ++ rest).dropWhile isWordChar = rest := by
  rw [List.takeWhile_append_of_pos hrun, List.dropWhile_append_of_pos hrun]
  cases rest with
  | nil => exact ⟨List.append_nil run, rfl⟩
  | cons c rest =>
    have hc : ¬ isWordChar c = true := by
      rw [show isWordChar c = false from h]
      exact Bool.false_ne_true
    rw [List.takeWhile_cons_of_neg hc, List.dropWhile_cons_of_neg hc]
    exact ⟨List.append_nil run, rfl⟩

/-- A text is taken apart into its maximal runs and the characters between them. -/
theorem runs_induction {motive : List Char → Prop} (nil : motive [])
    (other : ∀ c rest, isWordChar c = false → motive rest → motive (c :: rest))
    (run : ∀ run rest, IsRun run → startsInWord rest = false → motive rest → motive (run ++ rest))
    (text : List Char) : motive text := by
  fun_induction mapRuns id text with
  | case1 => exact nil
  | case2 c rest hword ih =>
    have hrun : IsRun (c :: rest.takeWhile isWordChar) := by
      refine ⟨List.cons_ne_nil _ _, List.forall_mem_cons.2 ⟨hword, ?_⟩⟩
      intro d hd
      exact List.mem_takeWhile_imp hd
    have htext := run _ _ hrun (startsInWord_dropWhile rest) ih
    rwa [List.cons_append, List.takeWhile_append_dropWhile] at htext
  | case3 c rest hword ih => exact other c rest (Bool.eq_false_of_not_eq_true hword) ih

theorem mapRuns_nil (f : List Char → List Char) : mapRuns f [] = [] := by
  rw [mapRuns]

theorem mapRuns_other {c : Char} (h : isWordChar c = false) (rest : List Char) :
    mapRuns f (c :: rest) = c :: mapRuns f rest := by
  rw [mapRuns, if_neg (by rw [h]; exact Bool.false_ne_true)]

theorem mapRuns_others {gap : List Char} (h : ∀ c ∈ gap, isWordChar c = false) (rest : List Char) :
    mapRuns f (gap ++ rest) = gap ++ mapRuns f rest := by
  induction gap with
  | nil => rfl
  | cons c gap ih =>
    obtain ⟨hc, hgap⟩ := List.forall_mem_cons.1 h
    rw [List.cons_append, mapRuns_other hc, ih hgap, List.cons_append]

theorem mapRuns_run (hrun : IsRun run) (h : startsInWord rest = false) :
    mapRuns f (run ++ rest) = f run ++ mapRuns f rest := by
  obtain ⟨hne, hword⟩ := hrun
  obtain ⟨c, run, rfl⟩ := List.exists_cons_of_ne_nil hne
  have hparts := List.forall_mem_cons.1 hword
  rw [List.cons_append, mapRuns, if_pos hparts.1, (takeWhile_run hparts.2 h).1,
    (takeWhile_run hparts.2 h).2]

/-- A text that is a single run. -/
theorem mapRuns_single (hrun : IsRun run) : mapRuns f run = f run := by
  have hend : startsInWord [] = false := rfl
  have hmap := mapRuns_run (f := f) hrun hend
  rwa [List.append_nil, mapRuns_nil, List.append_nil] at hmap

theorem startsInWord_mapRuns (h : startsInWord text = false) :
    startsInWord (mapRuns f text) = false := by
  cases text with
  | nil =>
    rw [mapRuns_nil]
    rfl
  | cons c rest =>
    rw [mapRuns_other h]
    exact h

/-- Runs do not go beyond the start of a text that starts with no word. -/
theorem mapRuns_append (h : startsInWord rest = false) (text : List Char) :
    mapRuns f (text ++ rest) = mapRuns f text ++ mapRuns f rest := by
  induction text using runs_induction with
  | nil => rw [mapRuns_nil, List.nil_append, List.nil_append]
  | other c text hc ih =>
    rw [List.cons_append, mapRuns_other hc, mapRuns_other hc, ih, List.cons_append]
  | run run text hrun htext ih =>
    rw [List.append_assoc, mapRuns_run hrun (startsInWord_append h htext), ih,
      mapRuns_run hrun htext, List.append_assoc]

/-- Only what `f` does to runs matters. -/
theorem mapRuns_congr (h : ∀ run, IsRun run → f run = g run) (text : List Char) :
    mapRuns f text = mapRuns g text := by
  induction text using runs_induction with
  | nil => rw [mapRuns_nil, mapRuns_nil]
  | other c rest hc ih => rw [mapRuns_other hc, mapRuns_other hc, ih]
  | run run rest hrun hrest ih =>
    rw [mapRuns_run hrun hrest, mapRuns_run hrun hrest, h run hrun, ih]

/-- To map the runs twice is to map each run by both maps. What the first map makes of a run cannot
join with what is around it. -/
theorem mapRuns_mapRuns (f g : List Char → List Char) (text : List Char) :
    mapRuns f (mapRuns g text) = mapRuns (fun run => mapRuns f (g run)) text := by
  induction text using runs_induction with
  | nil => rw [mapRuns_nil, mapRuns_nil, mapRuns_nil]
  | other c rest hc ih => rw [mapRuns_other hc, mapRuns_other hc, mapRuns_other hc, ih]
  | run run rest hrun hrest ih =>
    rw [mapRuns_run hrun hrest, mapRuns_run hrun hrest,
      mapRuns_append (startsInWord_mapRuns hrest), ih]

/-! ## Replacing a word -/

section

variable {first : Char} {others replacement : List Char}
  (hfirst : isWordChar first = true) (hothers : ∀ c ∈ others, isWordChar c = true)

/-- At an occurrence of the word. -/
theorem replaceFrom_word (before : Option Char) (after : List Char) :
    replaceFrom first others replacement before (first :: (others ++ after)) =
      (if !(before.any isWordChar) && !startsInWord after then replacement else first :: others) ++
        replaceFrom first others replacement (some (others.getLastD first)) after := by
  have hoccurs : others.isPrefixOf (others ++ after) = true :=
    List.isPrefixOf_iff_prefix.2 (List.prefix_append _ _)
  rw [replaceFrom, if_pos ⟨rfl, hoccurs⟩]
  simp only [List.drop_left]

/-- Of the character before a text, it only matters whether it is a word character. -/
theorem replaceFrom_before {before before' : Option Char}
    (h : before.any isWordChar = before'.any isWordChar) (text : List Char) :
    replaceFrom first others replacement before text =
      replaceFrom first others replacement before' text := by
  cases text with
  | nil => rw [replaceFrom, replaceFrom]
  | cons c rest => rw [replaceFrom, replaceFrom, h]

include hfirst

theorem replaceFrom_other {c : Char} (hc : isWordChar c = false) (before : Option Char)
    (rest : List Char) :
    replaceFrom first others replacement before (c :: rest) =
      c :: replaceFrom first others replacement none rest := by
  have hne : c ≠ first := by
    rintro rfl
    rw [hfirst] at hc
    cases hc
  rw [replaceFrom, if_neg fun h => hne h.1]
  refine congrArg (List.cons c) (replaceFrom_before ?_ rest)
  rw [Option.any_some, hc, Option.any_none]

/-- What stands before a text that starts with no word does not matter. -/
theorem replaceFrom_outside (h : startsInWord rest = false) (before : Option Char) :
    replaceFrom first others replacement before rest =
      replaceFrom first others replacement none rest := by
  cases rest with
  | nil => rw [replaceFrom, replaceFrom]
  | cons c rest => rw [replaceFrom_other hfirst h, replaceFrom_other hfirst h]

include hothers

omit hfirst in
/-- An occurrence of a word lies inside a run. -/
theorem exists_of_isPrefixOf (hrun : ∀ c ∈ run, isWordChar c = true)
    (hrest : startsInWord rest = false) (h : others.isPrefixOf (run ++ rest) = true) :
    ∃ more, run = others ++ more := by
  obtain ⟨after, hafter⟩ := List.isPrefixOf_iff_prefix.1 h
  have htake := (takeWhile_run hrun hrest).1
  rw [← hafter, List.takeWhile_append_of_pos hothers] at htake
  exact ⟨_, htake.symm⟩

/-- After an occurrence of the word one is in a word. -/
theorem any_getLastD : (some (others.getLastD first)).any isWordChar = true := by
  rw [Option.any_some]
  cases hlast : others.getLast? with
  | none =>
    rw [List.getLastD_eq_getLast?, hlast]
    exact hfirst
  | some c =>
    rw [List.getLastD_eq_getLast?, hlast]
    exact hothers c (List.mem_of_getLast? hlast)

/-- Inside a run nothing is replaced. -/
theorem replaceFrom_inside {before : Option Char} (hbefore : before.any isWordChar = true)
    (hrun : ∀ c ∈ run, isWordChar c = true) (hrest : startsInWord rest = false) :
    replaceFrom first others replacement before (run ++ rest) =
      run ++ replaceFrom first others replacement none rest := by
  -- by the length of the run, since an occurrence is skipped as a whole
  induction hlength : run.length using Nat.strong_induction_on generalizing run before with
  | _ n ih =>
    cases run with
    | nil => exact replaceFrom_outside hfirst hrest before
    | cons c run =>
      have hparts := List.forall_mem_cons.1 hrun
      rw [List.length_cons] at hlength
      rw [List.cons_append]
      by_cases hoccurs : c = first ∧ others.isPrefixOf (run ++ rest) = true
      · obtain ⟨more, rfl⟩ := exists_of_isPrefixOf hothers hparts.2 hrest hoccurs.2
        have hmore : ∀ d ∈ more, isWordChar d = true := by
          intro d hd
          exact hparts.2 d (List.mem_append_right _ hd)
        rw [List.length_append] at hlength
        have hskip := ih more.length (by omega) (any_getLastD hfirst hothers) hmore rfl
        obtain rfl := hoccurs.1
        rw [List.append_assoc, replaceFrom_word, hbefore, hskip]
        simp
      · have hinside : (some c).any isWordChar = true := hparts.1
        have hgo := ih run.length (by omega) hinside hparts.2 rfl
        rw [replaceFrom, if_neg hoccurs, hgo, List.cons_append]

/-- A maximal run is replaced if it is the word. -/
theorem replaceFrom_run (hrun : IsRun run) (hrest : startsInWord rest = false) :
    replaceFrom first others replacement none (run ++ rest) =
      (if run = first :: others then replacement else run) ++
        replaceFrom first others replacement none rest := by
  obtain ⟨hne, hword⟩ := hrun
  obtain ⟨c, run, rfl⟩ := List.exists_cons_of_ne_nil hne
  have hparts := List.forall_mem_cons.1 hword
  rw [List.cons_append]
  by_cases hoccurs : c = first ∧ others.isPrefixOf (run ++ rest) = true
  · obtain ⟨more, rfl⟩ := exists_of_isPrefixOf hothers hparts.2 hrest hoccurs.2
    obtain rfl := hoccurs.1
    have hlast := any_getLastD hfirst hothers
    rw [List.append_assoc, replaceFrom_word]
    cases more with
    | nil =>
      -- the run ends where the word does
      rw [List.append_nil, if_pos rfl, List.nil_append, hrest,
        replaceFrom_outside hfirst hrest]
      rfl
    | cons d more =>
      have hmore : ∀ e ∈ d :: more, isWordChar e = true := by
        intro e he
        exact hparts.2 e (List.mem_append_right _ he)
      have hlonger : c :: (others ++ d :: more) ≠ c :: others := by
        intro heq
        have := congrArg List.length heq
        simp at this
      have hstarts : startsInWord (d :: more ++ rest) = true := (List.forall_mem_cons.1 hmore).1
      rw [if_neg hlonger, hstarts, replaceFrom_inside hfirst hothers hlast hmore hrest]
      simp
  · have hdiffers : c :: run ≠ first :: others := by
      intro heq
      obtain ⟨rfl, rfl⟩ := List.cons.inj heq
      exact hoccurs ⟨rfl, List.isPrefixOf_iff_prefix.2 (List.prefix_append _ _)⟩
    have hinside : (some c).any isWordChar = true := hparts.1
    rw [replaceFrom, if_neg hoccurs, if_neg hdiffers,
      replaceFrom_inside hfirst hothers hinside hparts.2 hrest, List.cons_append]

end

/-- To replace a word is to replace the runs that are the word. -/
theorem replaceWord_eq {word : List Char} (hword : IsRun word) (replacement text : List Char) :
    replaceWord word replacement text =
      mapRuns (fun run => if run = word then replacement else run) text := by
  obtain ⟨hne, hchars⟩ := hword
  obtain ⟨first, others, rfl⟩ := List.exists_cons_of_ne_nil hne
  obtain ⟨hfirst, hothers⟩ := List.forall_mem_cons.1 hchars
  rw [replaceWord]
  induction text using runs_induction with
  | nil => rw [replaceFrom, mapRuns_nil]
  | other c rest hc ih => rw [replaceFrom_other hfirst hc, mapRuns_other hc, ih]
  | run run rest hrun hrest ih =>
    rw [replaceFrom_run hfirst hothers hrun hrest, mapRuns_run hrun hrest, ih]

/-! ## Replacing variables -/

/-- All names are identifiers, and all values integers or finite reals. -/
def Scope.Plain (scope : Scope) : Prop :=
  scope.All fun name value => isIdentifier name.toList = true ∧ value.isFinite = true

/-- What is put in the place of a run: the value of the variable of that name, or the run itself. -/
def Scope.runText (scope : Scope) (run : List Char) : List Char :=
  ((scope.get? (String.ofList run)).map fun value => value.expressionText.toList).getD run

theorem Scope.runText_of_get? {scope : Scope} {name : String} {value : Value}
    (h : scope.get? name = some value) :
    scope.runText name.toList = value.expressionText.toList := by
  rw [Scope.runText, String.ofList_toList, h, Option.map_some, Option.getD_some]

/-- The text with every maximal run of word characters that is the name of a variable replaced, in a
single pass. -/
def substituteOnce (scope : Scope) (text : List Char) : List Char :=
  mapRuns scope.runText text

/-- The text with variables replaced one after the other. -/
def replaceEach (entries : List (String × Value)) (text : List Char) : List Char :=
  entries.foldl (fun text (name, value) => replaceWord name.toList value.expressionText.toList text)
    text

/-- A text of whose runs none is changed. -/
theorem mapRuns_eq_self (h : ∀ run, IsRun run → run ⊆ text → f run = run) :
    mapRuns f text = text := by
  induction text using runs_induction with
  | nil => exact mapRuns_nil f
  | other c rest hc ih =>
    have hkept : mapRuns f rest = rest := by
      apply ih
      intro run hrun hsub
      exact h run hrun (List.subset_cons_of_subset c hsub)
    rw [mapRuns_other hc, hkept]
  | run run rest hrun hrest ih =>
    have hkept : mapRuns f rest = rest := by
      apply ih
      intro run' hrun' hsub
      exact h run' hrun' (List.subset_append_of_subset_right _ hsub)
    rw [mapRuns_run hrun hrest, h run hrun (List.subset_append_left _ _), hkept]

/-- The runs of a numeral are numbers. -/
theorem isDigit_of_mem_run (htext : Number.IsNumeral text) (hrun : IsRun run) (h : run ⊆ text)
    {c : Char} (hc : c ∈ run) : c.isDigit = true := by
  have hword := hrun.2 c hc
  rcases htext.mem (h hc) with rfl | rfl | hdigit
  · cases hword
  · cases hword
  · exact hdigit

namespace Scope.Plain

variable {scope : Scope}

/-- A variable is not named by a number, so a number stands for itself. -/
theorem runText_of_isDigit (h : scope.Plain) (hrun : IsRun run)
    (hdigits : ∀ c ∈ run, c.isDigit = true) : scope.runText run = run := by
  cases hget : scope.get? (String.ofList run) with
  | none => rw [Scope.runText, hget, Option.map_none, Option.getD_none]
  | some value =>
    have hname := (h.get? hget).1
    rw [String.toList_ofList, isIdentifier_iff] at hname
    obtain ⟨c, run, rfl⟩ := List.exists_cons_of_ne_nil hrun.1
    have hc := hname.2.2 c rfl
    rw [hdigits c List.mem_cons_self] at hc
    cases hc

/-- A value that has been put into the text is not changed any more. -/
theorem mapRuns_expressionText (h : scope.Plain) {value : Value} (hvalue : value.isFinite = true) :
    mapRuns scope.runText value.expressionText.toList = value.expressionText.toList := by
  apply mapRuns_eq_self
  intro run hrun hsub
  apply h.runText_of_isDigit hrun
  intro c hc
  exact isDigit_of_mem_run (Value.isNumeral_expressionText hvalue) hrun hsub hc

end Scope.Plain

theorem isRun_of_isIdentifier {name : List Char} (h : isIdentifier name = true) : IsRun name :=
  wordChars_of_isIdentifier h

/-- To replace variables one after the other is to replace them all in a single pass. -/
theorem replaceEach_eq {entries : List (String × Value)} (h : Scope.Plain ⟨entries⟩)
    (text : List Char) : replaceEach entries text = substituteOnce ⟨entries⟩ text := by
  induction entries generalizing text with
  | nil => exact (mapRuns_eq_self fun _ _ _ => rfl).symm
  | cons entry entries ih =>
    obtain ⟨name, value⟩ := entry
    obtain ⟨⟨hname, hvalue⟩, hrest⟩ := List.forall_mem_cons.1 h
    have hrest : Scope.Plain ⟨entries⟩ := hrest
    show replaceEach entries (replaceWord name.toList value.expressionText.toList text) = _
    rw [ih hrest, replaceWord_eq (isRun_of_isIdentifier hname), substituteOnce, substituteOnce,
      mapRuns_mapRuns]
    -- both sides map runs now; a run that is the name becomes a numeral, which stays as it is
    apply mapRuns_congr
    intro run hrun
    by_cases hrun_name : run = name.toList
    · subst hrun_name
      rw [if_pos rfl, hrest.mapRuns_expressionText hvalue, Scope.runText, Table.get?,
        Table.lookup_cons, String.ofList_toList, if_pos rfl]
      rfl
    · have hne : String.ofList run ≠ name := by
        rintro rfl
        exact hrun_name String.toList_ofList.symm
      rw [if_neg hrun_name, mapRuns_single hrun, Scope.runText, Scope.runText, Table.get?,
        Table.get?, Table.lookup_cons, if_neg hne]

/-! ## The order of the variables -/

/-- What is found under a name is the first of the entries of that name. -/
theorem lookup_eq_head? (entries : List (String × Value)) (key : String) :
    entries.lookup key = (entries.filter fun entry => entry.1 == key).head?.map Prod.snd := by
  induction entries with
  | nil => rfl
  | cons entry entries ih =>
    rw [Table.lookup_cons, List.filter_cons]
    by_cases hkey : key = entry.1
    · rw [if_pos hkey, if_pos (beq_iff_eq.2 hkey.symm)]
      rfl
    · rw [if_neg hkey, if_neg fun h => hkey (beq_iff_eq.1 h).symm, ih]

theorem replacedBefore_iff {a b : String × Value} :
    replacedBefore a b = true ↔
      b.1.utf8ByteSize < a.1.utf8ByteSize ∨ (a.1.utf8ByteSize = b.1.utf8ByteSize ∧ a.1 ≤ b.1) := by
  rw [replacedBefore, Bool.or_eq_true, Bool.and_eq_true, decide_eq_true_iff, beq_iff_eq,
    Bool.not_eq_true', decide_eq_false_iff_not, String.not_lt]

theorem replacedBefore_trans (a b c : String × Value) (hab : replacedBefore a b = true)
    (hbc : replacedBefore b c = true) : replacedBefore a c = true := by
  rw [replacedBefore_iff] at *
  rcases hab with hab | ⟨hab, hab'⟩ <;> rcases hbc with hbc | ⟨hbc, hbc'⟩
  · exact Or.inl (by omega)
  · exact Or.inl (by omega)
  · exact Or.inl (by omega)
  · exact Or.inr ⟨by omega, hab'.trans hbc'⟩

theorem replacedBefore_total (a b : String × Value) :
    (replacedBefore a b || replacedBefore b a) = true := by
  rw [Bool.or_eq_true, replacedBefore_iff, replacedBefore_iff]
  rcases Nat.lt_trichotomy a.1.utf8ByteSize b.1.utf8ByteSize with h | h | h
  · exact Or.inr (Or.inl h)
  · rcases le_total a.1 b.1 with hle | hle
    · exact Or.inl (Or.inr ⟨h, hle⟩)
    · exact Or.inr (Or.inr ⟨h.symm, hle⟩)
  · exact Or.inl (Or.inl h)

/-- Sorting keeps the order of entries of one name. -/
theorem lookup_mergeSort (entries : List (String × Value)) (key : String) :
    (entries.mergeSort replacedBefore).lookup key = entries.lookup key := by
  have hpairwise : (entries.filter fun entry => entry.1 == key).Pairwise
      fun a b => replacedBefore a b = true := by
    rw [List.pairwise_iff_forall_sublist]
    intro a b hsub
    have ha := beq_iff_eq.1 (List.mem_filter.1 (hsub.subset List.mem_cons_self)).2
    have hb := beq_iff_eq.1
      (List.mem_filter.1 (hsub.subset (List.mem_cons_of_mem _ List.mem_cons_self))).2
    rw [replacedBefore_iff, ha, hb]
    exact Or.inr ⟨rfl, le_rfl⟩
  -- sorting is stable, so that the entries of the name are a sublist of the sorted ones
  have hsub := List.sublist_mergeSort replacedBefore_trans replacedBefore_total hpairwise
    List.filter_sublist
  have hfilter := hsub.filter fun entry => entry.1 == key
  rw [List.filter_filter, List.filter_congr fun _ _ => Bool.and_self _] at hfilter
  have hlength := ((List.mergeSort_perm entries replacedBefore).filter
    fun entry => entry.1 == key).length_eq
  rw [lookup_eq_head?, lookup_eq_head?, hfilter.eq_of_length hlength.symm]

/-- If names are distinct, the order of the entries does not matter. -/
theorem lookup_of_perm {entries order : List (String × Value)} (hperm : order.Perm entries)
    (hnames : (entries.map Prod.fst).Nodup) (key : String) :
    order.lookup key = entries.lookup key := by
  have hone : (entries.filter fun entry => entry.1 == key).length ≤ 1 := by
    have hcount := List.nodup_iff_count_le_one.1 hnames key
    rwa [List.count, List.countP_map, List.countP_eq_length_filter] at hcount
  have hfilter := hperm.filter fun entry => entry.1 == key
  rw [lookup_eq_head?, lookup_eq_head?]
  generalize order.filter (fun entry => entry.1 == key) = found at hfilter
  generalize entries.filter (fun entry => entry.1 == key) = found' at hfilter hone
  cases found' with
  | nil => rw [hfilter.eq_nil]
  | cons entry found' =>
    obtain rfl : found' = [] := List.length_eq_zero_iff.1 (by rw [List.length_cons] at hone; omega)
    rw [List.perm_singleton.1 hfilter]

namespace Scope.Plain

variable {scope : Scope}

/-- The variables replaced in an order that keeps what is found under each name. -/
theorem replaceEach_of_perm (h : scope.Plain) {order : List (String × Value)}
    (hperm : order.Perm scope.entries) (hlookup : ∀ key, order.lookup key = scope.get? key)
    (text : List Char) : replaceEach order text = substituteOnce scope text := by
  have hplain : Scope.Plain ⟨order⟩ := fun entry hentry => h entry (hperm.subset hentry)
  rw [replaceEach_eq hplain]
  apply mapRuns_congr
  intro run _
  rw [Scope.runText, Scope.runText, Table.get?, hlookup]

/-- Longer names first, as `substitute` replaces them. -/
theorem substitute_eq (h : scope.Plain) (text : List Char) :
    substitute scope text = substituteOnce scope text :=
  h.replaceEach_of_perm (List.mergeSort_perm _ _) (lookup_mergeSort scope.entries) text

end Scope.Plain

/-- If all names are identifiers and all values integers or finite reals, substitution replaces each
maximal run of word characters that is the name of a variable and changes nothing else. The
variables can be replaced in any order. -/
theorem substitute_eq_substituteOnce {scope : Scope} (h : scope.Plain) (text : List Char) :
    substitute scope text = substituteOnce scope text ∧
      ∀ order : List (String × Value), order.Perm scope.entries →
        (scope.entries.map Prod.fst).Nodup → replaceEach order text = substitute scope text := by
  refine ⟨h.substitute_eq text, fun order hperm hnames => ?_⟩
  rw [h.substitute_eq text]
  exact h.replaceEach_of_perm hperm (lookup_of_perm hperm hnames) text

/-- A scope in which one name is a part of the other, one value starts with a sign and one has a
point. -/
def nestedNames : Scope :=
  ⟨[("x", .int (-5)), ("xx", .real 0.5)]⟩

theorem plain_nestedNames : nestedNames.Plain := by
  simp only [Scope.Plain, Table.All, nestedNames, List.forall_mem_cons]
  exact ⟨⟨rfl, rfl⟩, ⟨rfl, by decide +kernel⟩, nofun⟩

theorem substituteOnce_nestedNames :
    substituteOnce nestedNames "xx-x*éx/xxx".toList = "0.5--5*é-5/xxx".toList := by
  have hx : nestedNames.runText ['x'] = ['-', '5'] := by decide +kernel
  have hxx : nestedNames.runText ['x', 'x'] = ['0', '.', '5'] := by decide +kernel
  have hxxx : nestedNames.runText ['x', 'x', 'x'] = ['x', 'x', 'x'] := by decide +kernel
  simp [substituteOnce, mapRuns, isWordChar, Char.isAlphanum, Char.isAlpha, Char.isDigit, hx, hxx,
    hxxx]

/-- Occurrences that overlap, lie in a longer word or stand next to a letter that is no word
character. -/
theorem substitute_eq_substituteOnce_nested :
    nestedNames.Plain ∧
      substitute nestedNames "xx-x*éx/xxx".toList = "0.5--5*é-5/xxx".toList ∧
      (nestedNames.entries.map Prod.fst).Nodup ∧
      replaceEach nestedNames.entries.reverse "xx-x*éx/xxx".toList = "0.5--5*é-5/xxx".toList := by
  have hall := substitute_eq_substituteOnce plain_nestedNames "xx-x*éx/xxx".toList
  have hnames : (nestedNames.entries.map Prod.fst).Nodup := by decide
  have hsubstitute := hall.1.trans substituteOnce_nestedNames
  exact ⟨plain_nestedNames, hsubstitute, hnames,
    (hall.2 _ (List.reverse_perm _) hnames).trans hsubstitute⟩

end Drawscript
