import Drawscript.Expr.Condition
import Drawscript.Proofs.Expr.Agreement

/-!
# Where conditions are divided

A condition is divided at the comparison that is written in it: if two operands hold no character of
a comparison, then the condition made of them with any of the six comparisons between them compares
their two values, and the problems of the left operand are reported before those of the right one
(`test_divides`). Blanks at the ends of the condition and of the operands do not matter.

Comparisons are looked for one after the other, and some occur inside others. Of the characters of
such a condition only those of the comparison can be part of one, so a comparison that occurs in it
occurs in the symbol of the written one (`infix_symbol`), and the search order settles the rest. If
the first comparison that occurs does so twice, the whole condition is taken for one value.
-/

set_option autoImplicit false

namespace Drawscript

open Text

/-- The characters that comparisons are made of. -/
def isComparisonChar (c : Char) : Bool :=
  c == '<' || c == '>' || c == '=' || c == '!'

namespace Comparison

/-- The comparisons that are looked for before this one. -/
def before (op : Comparison) : List Comparison :=
  all.takeWhile fun other => other != op

/-- No comparison that is looked for before this one occurs in the text. -/
def ComesFirst (op : Comparison) (text : List Char) : Prop :=
  ∀ other ∈ op.before, ¬ other.symbol <:+: text

/-- The comparison occurs in the text twice, the second time after the end of the first. -/
def OccursTwice (op : Comparison) (text : List Char) : Prop :=
  ∃ first between last, text = first ++ (op.symbol ++ (between ++ (op.symbol ++ last)))

/-! ## Symbols -/

theorem isWord_symbol (op : Comparison) : IsWord op.symbol := by
  cases op <;> decide

theorem symbol_ne_nil (op : Comparison) : op.symbol ≠ [] :=
  op.isWord_symbol.ne_nil

/-- Symbols are made of comparison characters only. -/
theorem filter_symbol (op : Comparison) : op.symbol.filter isComparisonChar = op.symbol := by
  cases op <;> rfl

theorem exists_symbol_eq_cons (op : Comparison) :
    ∃ c tail, op.symbol = c :: tail ∧ isComparisonChar c = true := by
  cases op <;> exact ⟨_, _, rfl, rfl⟩

/-- The order of the search is right: no symbol contains one that is looked for before it. -/
theorem not_infix_of_mem_before {op other : Comparison} (h : other ∈ op.before) :
    ¬ other.symbol <:+: op.symbol := by
  revert h
  cases op <;> cases other <;> decide

/-- The comparisons in the order of the search, around a given one. -/
theorem exists_all_eq (op : Comparison) : ∃ later, all = op.before ++ op :: later := by
  cases op <;> exact ⟨_, rfl⟩

/-- A comparison that occurs in a text is found among the comparison characters of the text. -/
theorem infix_filter {op : Comparison} {text : List Char} (h : op.symbol <:+: text) :
    op.symbol <:+: text.filter isComparisonChar := by
  rw [← op.filter_symbol]
  exact h.filter isComparisonChar

end Comparison

/-! ## Plain operands -/

/-- A text without characters of comparisons. -/
def IsPlainOperand (text : List Char) : Prop :=
  ∀ c ∈ text, isComparisonChar c = false

theorem isPlainOperand_iff {text : List Char} :
    (text.all fun c => !isComparisonChar c) = true ↔ IsPlainOperand text := by
  simp only [IsPlainOperand, List.all_eq_true, Bool.not_eq_true']

instance (text : List Char) : Decidable (IsPlainOperand text) :=
  decidable_of_iff _ isPlainOperand_iff

namespace IsPlainOperand

variable {text left right : List Char}

theorem filter_eq (h : IsPlainOperand text) : text.filter isComparisonChar = [] := by
  rw [List.filter_eq_nil_iff]
  intro c hc
  rw [h c hc]
  exact Bool.false_ne_true

theorem trimStart (h : IsPlainOperand text) : IsPlainOperand (trimStart text) :=
  fun c hc => h c (List.dropWhile_subset _ hc)

theorem trimEnd (h : IsPlainOperand text) : IsPlainOperand (trimEnd text) := by
  obtain ⟨after, -, htext⟩ := exists_eq_trimEnd text
  intro c hc
  apply h c
  rw [htext]
  exact List.mem_append_left after hc

/-- A plain operand has no symbol in it. -/
theorem cut?_eq_none (h : IsPlainOperand text) (op : Comparison) : cut? op.symbol text = none := by
  rw [cut?_eq_none_iff_absent op.symbol_ne_nil]
  intro hinfix
  have hnil := Comparison.infix_filter hinfix
  rw [h.filter_eq, List.infix_nil] at hnil
  exact op.symbol_ne_nil hnil

/-- A comparison that occurs between plain operands occurs in the symbol written there. -/
theorem infix_symbol (hleft : IsPlainOperand left) (hright : IsPlainOperand right)
    {op other : Comparison} (h : other.symbol <:+: left ++ (op.symbol ++ right)) :
    other.symbol <:+: op.symbol := by
  have hfiltered := Comparison.infix_filter h
  rwa [List.filter_append, List.filter_append, hleft.filter_eq, hright.filter_eq,
    op.filter_symbol, List.nil_append, List.append_nil] at hfiltered

/-- Between plain operands no symbol hides another one. -/
theorem comesFirst (hleft : IsPlainOperand left) (hright : IsPlainOperand right)
    (op : Comparison) : op.ComesFirst (left ++ (op.symbol ++ right)) := by
  intro other hother hinfix
  exact Comparison.not_infix_of_mem_before hother (hleft.infix_symbol hright hinfix)

theorem cut?_symbol (h : IsPlainOperand left) (op : Comparison) (right : List Char) :
    cut? op.symbol (left ++ (op.symbol ++ right)) = some (left, right) := by
  obtain ⟨c, tail, hsymbol, hc⟩ := op.exists_symbol_eq_cons
  have hnot : c ∉ left := by
    intro hmem
    rw [h c hmem] at hc
    cases hc
  rw [hsymbol]
  exact cut?_append_of_not_mem hnot tail right

end IsPlainOperand

/-! ## Dividing a text -/

namespace Condition

theorem comparison?_eq_filter (text : List Char) :
    comparison? text =
      (Comparison.all.findSome? fun op => (cut? op.symbol text).map (Prod.mk op)).filter
        fun found => (cut? found.1.symbol found.2.2).isNone :=
  rfl

/-- The first comparison that occurs divides the text if it does not occur again. -/
theorem comparison?_eq {op : Comparison} {text left right : List Char}
    (hfirst : op.ComesFirst text) (hcut : cut? op.symbol text = some (left, right)) :
    comparison? text =
      if (cut? op.symbol right).isNone then some (op, left, right) else none := by
  have hfound : (Comparison.all.findSome? fun op => (cut? op.symbol text).map (Prod.mk op)) =
      some (op, left, right) := by
    obtain ⟨later, hall⟩ := op.exists_all_eq
    rw [List.findSome?_eq_some_iff]
    refine ⟨op.before, op, later, hall, ?_, ?_⟩
    · rw [hcut]
      rfl
    · intro other hother
      rw [(cut?_eq_none_iff_absent other.symbol_ne_nil).2 (hfirst other hother)]
      rfl
  rw [comparison?_eq_filter, hfound]
  rfl

/-- A symbol between plain operands divides the text there. -/
theorem comparison?_plain {left right : List Char} (hleft : IsPlainOperand left)
    (hright : IsPlainOperand right) (op : Comparison) :
    comparison? (left ++ (op.symbol ++ right)) = some (op, left, right) := by
  rw [comparison?_eq (hleft.comesFirst hright op) (hleft.cut?_symbol op right),
    hright.cut?_eq_none op]
  rfl

/-- A symbol that occurs twice divides nothing, even if a later one in the search would. -/
theorem comparison?_eq_none {op : Comparison} {text : List Char} (hfirst : op.ComesFirst text)
    (htwice : op.OccursTwice text) : comparison? text = none := by
  obtain ⟨first, between, last, rfl⟩ := htwice
  obtain ⟨start, rest, hcut, hrest⟩ :=
    exists_cut?_append op.symbol_ne_nil first (between ++ (op.symbol ++ last))
  have hagain : op.symbol <:+: rest :=
    List.IsInfix.trans ⟨between, last, List.append_assoc _ _ _⟩ hrest.isInfix
  have hsome : cut? op.symbol rest ≠ none := fun hnone =>
    (cut?_eq_none_iff_absent op.symbol_ne_nil).1 hnone hagain
  rw [comparison?_eq hfirst hcut, if_neg]
  rwa [Option.isNone_iff_eq_none]

/-! ## Blanks -/

theorem finite?_trim (text : List Char) : Number.finite? (trim text) = Number.finite? text := by
  rw [Number.finite?, Number.finite?, trim_trim]

/-- Blanks around an operand do not matter to its value. -/
theorem operand_trim (mode : EvalMode) (scope : Scope) (text : List Char) :
    operand mode scope (trim text) = operand mode scope text := by
  rw [operand, operand, finite?_trim, valueOf, valueOf, evaluate_trim]

theorem operand_trimStart (mode : EvalMode) (scope : Scope) (text : List Char) :
    operand mode scope (trimStart text) = operand mode scope text := by
  rw [← operand_trim, trim_trimStart, operand_trim]

theorem operand_trimEnd (mode : EvalMode) (scope : Scope) (text : List Char) :
    operand mode scope (trimEnd text) = operand mode scope text := by
  rw [← operand_trim, trim_trimEnd, operand_trim]

end Condition

namespace Comparison

/-- Trimming brings in no symbol. -/
theorem ComesFirst.trim {op : Comparison} {text : List Char} (h : op.ComesFirst text) :
    op.ComesFirst (trim text) := by
  obtain ⟨before, after, -, -, htext⟩ := exists_eq_trim text
  intro other hother hinfix
  apply h other hother
  refine hinfix.trans ⟨before, after, ?_⟩
  rw [List.append_assoc, ← htext]

/-- Trimming takes nothing away from the two occurrences or from between them. -/
theorem OccursTwice.trim {op : Comparison} {text : List Char} (h : op.OccursTwice text) :
    op.OccursTwice (trim text) := by
  obtain ⟨first, between, last, rfl⟩ := h
  have hsymbol := op.isWord_symbol.isTrimmed
  have htrim := (hsymbol.between hsymbol between).trim_around first last
  simp only [List.append_assoc] at htrim
  exact ⟨Text.trimStart first, between, Text.trimEnd last, htrim⟩

end Comparison

/-! ## Testing a condition -/

namespace Condition

variable (mode : EvalMode) (scope : Scope)

/-- A comparison holds as it does of the values of its operands; the problems of the left one come
first. -/
theorem test_of_comparison {text left right : List Char} {op : Comparison}
    (h : comparison? (trim text) = some (op, left, right)) :
    test mode scope text =
      (op.holds (operand mode scope left).1 (operand mode scope right).1,
        (operand mode scope left).2 ++ (operand mode scope right).2) := by
  rw [test]
  simp only [h]

/-- A text that is no comparison holds if its value is true. -/
theorem test_of_value {text : List Char} (h : comparison? (trim text) = none) :
    test mode scope text =
      ((valueOf mode scope text).1.isTrue, (valueOf mode scope text).2) := by
  rw [test]
  simp only [h, valueOf, evaluate_trim]

/-- **Conditions are divided at the written comparison.** Between two operands without characters of
comparisons every comparison compares the values of the operands, and the problems are those of the
left operand followed by those of the right one. If the first comparison that occurs in a condition
does so twice, the value of the whole condition, or what stands in for it, is asked for being true. -/
theorem test_divides :
    (∀ (op : Comparison) (left right : List Char), IsPlainOperand left → IsPlainOperand right →
      test mode scope (left ++ op.symbol ++ right) =
        (op.holds (operand mode scope left).1 (operand mode scope right).1,
          (operand mode scope left).2 ++ (operand mode scope right).2)) ∧
    ∀ (op : Comparison) (text : List Char), op.ComesFirst text → op.OccursTwice text →
      (∀ value, evaluate mode scope text = .ok value →
        test mode scope text = (value.isTrue, [])) ∧
      ∀ e, evaluate mode scope text = .error e →
        test mode scope text = (e.fallback.isTrue, [e]) := by
  constructor
  · intro op left right hleft hright
    have htrim := op.isWord_symbol.isTrimmed.trim_around left right
    have hdivided := comparison?_plain hleft.trimStart hright.trimEnd op
    rw [← htrim, ← List.append_assoc] at hdivided
    rw [test_of_comparison mode scope hdivided, operand_trimStart, operand_trimEnd]
  · intro op text hfirst htwice
    have hvalue := test_of_value mode scope (comparison?_eq_none hfirst.trim htwice.trim)
    constructor
    · intro value hok
      rw [hvalue, valueOf, hok]
    · intro e herror
      rw [hvalue, valueOf, herror]

/-- Both operands have a problem, and zero stands in for both; a quoted text with two comparisons in
it is one value. -/
theorem test_divides_failing :
    IsPlainOperand " 1 / 0 ".toList ∧ IsPlainOperand "\t\"a\"".toList ∧
      (test .legacy {} " 1 / 0 <=\t\"a\"".toList).1 = true ∧
      (test .legacy {} " 1 / 0 <=\t\"a\"".toList).2.map EvalError.message =
        ["division by zero in '1 / 0'", "'a' is not a number"] ∧
      Comparison.less.ComesFirst "\"a<b<c\"".toList ∧
      Comparison.less.OccursTwice "\"a<b<c\"".toList ∧
      test .legacy {} "\"a<b<c\"".toList = (true, []) := by
  obtain ⟨hdivided, hwhole⟩ := test_divides .legacy {}
  have hleft : IsPlainOperand " 1 / 0 ".toList := by decide
  have hright : IsPlainOperand "\t\"a\"".toList := by decide
  have htest : test .legacy {} " 1 / 0 <=\t\"a\"".toList = _ :=
    hdivided .atMost " 1 / 0 ".toList "\t\"a\"".toList hleft hright
  have hfirst : Comparison.less.ComesFirst "\"a<b<c\"".toList := by
    rw [Comparison.ComesFirst]
    decide
  have htwice : Comparison.less.OccursTwice "\"a<b<c\"".toList :=
    ⟨['"', 'a'], ['b'], ['c', '"'], rfl⟩
  rw [htest]
  exact ⟨hleft, hright, by decide +kernel, by decide +kernel, hfirst, htwice,
    (hwhole .less _ hfirst htwice).1 (.text "a<b<c") rfl⟩

end Condition

end Drawscript
