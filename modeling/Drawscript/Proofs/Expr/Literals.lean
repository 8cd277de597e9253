import Drawscript.Proofs.Expr.Agreement
import Drawscript.Proofs.Number.Whole

/-!
# Integers written in expressions

The decimal text of a 64-bit integer is an expression of its own. No identifier occurs in it, so
the legacy mode replaces nothing (`substitute_numeral`) and reads a number. The precedence mode
reads a minus sign and digits (`spells_toString`), which stand for the same number even where the
digits alone do not fit 64 bits. So both modes have one result, the narrowed double nearest to the
integer (`evaluate_toString`). For an integer that is a double this is the integer again, unless it
is the least one, which stays a real (`Value.ofFloat_ofInt64`).
-/

set_option autoImplicit false

namespace Drawscript

open Number Single Text

/-! ## Substitution -/

/-- All names of variables are identifiers. -/
def Scope.Named (scope : Scope) : Prop :=
  scope.All fun name _ => isIdentifier name.toList = true

/-- A numeral has no identifier in it to be replaced. -/
theorem replaceWord_numeral {word text : List Char} (hword : isIdentifier word = true)
    (htext : IsNumeral text) (replacement : List Char) :
    replaceWord word replacement text = text := by
  rw [replaceWord_eq (isRun_of_isIdentifier hword)]
  apply mapRuns_eq_self
  intro run hrun hsub
  apply if_neg
  rintro rfl
  obtain ⟨-, -, hhead⟩ := isIdentifier_iff.1 hword
  obtain ⟨c, word, rfl⟩ := List.exists_cons_of_ne_nil hrun.1
  have hdigit := isDigit_of_mem_run htext hrun hsub List.mem_cons_self
  rw [hhead c rfl] at hdigit
  cases hdigit

theorem replaceEach_numeral {text : List Char} (htext : IsNumeral text)
    {entries : List (String × Value)} (h : ∀ entry ∈ entries, isIdentifier entry.1.toList = true) :
    replaceEach entries text = text := by
  induction entries with
  | nil => rfl
  | cons entry entries ih =>
    obtain ⟨hname, hrest⟩ := List.forall_mem_cons.1 h
    show replaceEach entries (replaceWord entry.1.toList _ text) = text
    rw [replaceWord_numeral hname htext, ih hrest]

/-- Substitution leaves numerals alone where all names are identifiers, since no identifier is part
of a numeral. -/
theorem substitute_numeral {scope : Scope} (h : scope.Named) {text : List Char}
    (htext : IsNumeral text) : substitute scope text = text := by
  refine replaceEach_numeral htext fun entry hentry => ?_
  exact h entry (List.mem_mergeSort.1 hentry)

/-! ## Tokens -/

theorem next?_digitsOf (n : Nat) :
    Token.next? (digitsOf n) = some (Token.ofDigits (digitsOf n), digitsOf n) := by
  have hdigits : ∀ c ∈ digitsOf n, c.isDigit = true := fun c hc => isDigit_of_mem_digitsOf hc
  obtain ⟨c, rest, hcons⟩ := List.exists_cons_of_ne_nil (digitsOf_ne_nil n)
  rw [hcons] at hdigits ⊢
  obtain ⟨hc, hrest⟩ := List.forall_mem_cons.1 hdigits
  have htake : rest.takeWhile Char.isDigit = rest := List.takeWhile_eq_self_iff.2 hrest
  have hdrop : rest.dropWhile Char.isDigit = [] := List.dropWhile_eq_nil_iff.2 hrest
  rw [Token.next?_digits hc (by rw [hdrop]; exact nofun), htake]

theorem spells_digitsOf (n : Nat) :
    Token.Spells (digitsOf n) [Token.ofDigits (digitsOf n)] := by
  have hnext : Token.next? (digitsOf n ++ []) = some (Token.ofDigits (digitsOf n), digitsOf n) := by
    rw [List.append_nil, next?_digitsOf]
  have hspells := Token.Spells.token hnext .nil
  rwa [List.append_nil] at hspells

/-- An integer is spelled by its digits, with a minus sign in front if it is negative. -/
theorem spells_toString (n : Int) :
    Token.Spells (toString n).toList
      (if n < 0 then [.symbol .minus, Token.ofDigits (digitsOf n.natAbs)]
        else [Token.ofDigits (digitsOf n.natAbs)]) := by
  have hdigits := spells_digitsOf n.natAbs
  rw [toList_toString]
  split_ifs with hneg
  · rw [decide_eq_true hneg]
    exact Token.Spells.token (Token.next?_other rfl (by decide) (by decide) rfl _) hdigits
  · rw [decide_eq_false hneg]
    exact hdigits

/-- Digits of a number below `10 ^ 20` stand for the nearest double, whether or not they fit 64
bits. -/
theorem exists_derives_digitsOf {n : Nat} (h : n < 10 ^ 20) (text : String) (scope : Scope) :
    ∃ e : Expr, Precedence.Derives .operand [Token.ofDigits (digitsOf n)] e ∧
      e.value text scope = .ok (Float.ofNat n) := by
  rw [Token.ofDigits, digitsValue_digitsOf]
  split_ifs with hfits
  · have htoInt : (Int64.ofNat n).toInt = n := Int64.toInt_ofNat_of_lt hfits
    refine ⟨_, .int _, ?_⟩
    rw [Expr.value, ofInt64, htoInt]
    rfl
  · refine ⟨_, .real _, ?_⟩
    rw [Expr.value, toFloat_whole h]

/-! ## Values -/

/-- In both modes the decimal text of an integer stands for the nearest double. -/
theorem evaluate_toString (mode : EvalMode) {scope : Scope} (h : scope.Named) (n : Int64) :
    evaluate mode scope (toString n.toInt).toList = .ok (Value.ofFloat (ofInt64 n)) := by
  have hnumeral := isNumeral_int n.toInt
  have htrim := hnumeral.isTrimmed.trim_eq
  cases mode with
  | legacy =>
    rw [evaluate_legacy htrim hnumeral.unquote?_eq, Single.evaluate, substitute_numeral h hnumeral,
      filter_numeral hnumeral]
    exact compactValue_numeral hnumeral (finite?_toString n) _
  | precedence =>
    obtain ⟨e, hderives, hvalue⟩ :=
      exists_derives_digitsOf (natAbs_toInt_lt n) (String.ofList (toString n.toInt).toList) scope
    have hspells := spells_toString n.toInt
    rw [← htrim] at hspells
    rw [Precedence.evaluate_of_spells hspells (htrim.symm ▸ hnumeral.unquote?_eq), htrim, ofInt64,
      ofInt_eq]
    split_ifs with hneg
    · rw [(Precedence.Derives.product (.signed (.negative (.operand hderives)))).sumValue_eq,
        Expr.value, hvalue]
      rfl
    · rw [(Precedence.Derives.product (.signed (.operand hderives))).sumValue_eq, hvalue]
      rfl

end Drawscript
