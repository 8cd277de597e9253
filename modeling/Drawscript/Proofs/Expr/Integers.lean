import Drawscript.Proofs.Expr.Agreement
import Drawscript.Proofs.Number.Whole

/-!
# Exact arithmetic on integers

Every finite value is read back from the text that stands in for it (`Value.exists_readsBack`), so
both modes apply an operator to the numbers of two variables. On integers up to `2 ^ 53` these are
the integers themselves, and a sum, a difference or a product up to `2 ^ 53` and a quotient without
remainder are doubles. So both modes give the exact integer (`evaluate_integers`).
-/

set_option autoImplicit false

namespace Drawscript

open Number Single Text

theorem Value.readsBack_int (n : Int64) : (Value.int n).ReadsBack (ofInt64 n) :=
  ⟨rfl, finite?_toString n⟩

theorem Value.exists_readsBack {value : Value} (h : value.isFinite = true) :
    ∃ x, value.ReadsBack x ∧ x.isFinite = true := by
  have htext := Value.finite?_expressionText h
  cases value with
  | int n =>
    obtain ⟨mantissa, exponent, hexact⟩ := exists_exact_ofInt64 n
    exact ⟨ofInt64 n, ⟨rfl, htext⟩, isFinite_of_exact hexact⟩
  | real x => exact ⟨x, ⟨rfl, htext⟩, h⟩
  | text s => cases h

/-- A result up to `2 ^ 53` that is a whole number is an integer. -/
theorem Value.ofFloat_of_natAbs_le {x : Float} {k : Int} (hx : rational? x = some (k : ℚ))
    (hk : k.natAbs ≤ 2 ^ 53) : Value.ofFloat x = .int (Int64.ofInt k) := by
  have hrange : k.natAbs < int64Bound := by
    simp only [int64Bound]
    omega
  rw [Value.ofFloat_of_rational? hx, if_pos hrange]

/-- No integer but zero counts as zero in a division. -/
theorem not_abs_lt_tolerance {x : Float} {k : Int} (hx : rational? x = some (k : ℚ)) (hk : k ≠ 0) :
    ¬ x.abs < tolerance := by
  have hone : (1 : ℚ) ≤ |(k : ℚ)| := by exact_mod_cast Int.one_le_abs hk
  rw [abs_lt_tolerance_iff hx, not_lt]
  exact le_trans (by norm_num) hone

section

variable {scope : Scope} (h : scope.Plain) {a b : String} {m n : Int64}
  (ha : scope.get? a = some (.int m)) (hb : scope.get? b = some (.int n))
  {before after : List Char} (hbefore : ∀ c ∈ before, Token.isGap c = true)
  (hafter : ∀ c ∈ after, Token.isGap c = true)

include h ha hb hbefore hafter

/-- If the operator gives a whole number up to `2 ^ 53`, so do both modes. -/
theorem evaluate_of_apply (mode : EvalMode) {op : Operator} {z : Float} {k : Int}
    (hz : ∀ text, apply text op (ofInt64 m) (ofInt64 n) = .ok z) (hk : rational? z = some (k : ℚ))
    (hsize : k.natAbs ≤ 2 ^ 53) :
    evaluate mode scope (binaryText a before op after b) = .ok (.int (Int64.ofInt k)) := by
  rw [evaluate_binary h ha (Value.readsBack_int m) hb (Value.readsBack_int n) op hbefore hafter,
    hz, ← Value.ofFloat_of_natAbs_le hk hsize]
  rfl

/-- **Both modes are exact on integers up to `2 ^ 53`.** The other variables do not matter, but all
names have to be identifiers and all values integers or finite reals. -/
theorem evaluate_integers (mode : EvalMode) (hm : m.toInt.natAbs ≤ 2 ^ 53)
    (hn : n.toInt.natAbs ≤ 2 ^ 53) :
    ((m.toInt + n.toInt).natAbs ≤ 2 ^ 53 →
      evaluate mode scope (binaryText a before .plus after b) =
        .ok (.int (Int64.ofInt (m.toInt + n.toInt)))) ∧
    ((m.toInt - n.toInt).natAbs ≤ 2 ^ 53 →
      evaluate mode scope (binaryText a before .minus after b) =
        .ok (.int (Int64.ofInt (m.toInt - n.toInt)))) ∧
    ((m.toInt * n.toInt).natAbs ≤ 2 ^ 53 →
      evaluate mode scope (binaryText a before .times after b) =
        .ok (.int (Int64.ofInt (m.toInt * n.toInt)))) ∧
    (n.toInt ≠ 0 → n.toInt ∣ m.toInt →
      evaluate mode scope (binaryText a before .divide after b) =
        .ok (.int (Int64.ofInt (m.toInt / n.toInt)))) := by
  have hx : rational? (ofInt64 m) = some (m.toInt : ℚ) := rational?_ofInt (isDouble_of_natAbs_le hm)
  have hy : rational? (ofInt64 n) = some (n.toInt : ℚ) := rational?_ofInt (isDouble_of_natAbs_le hn)
  refine ⟨fun hsize => ?_, fun hsize => ?_, fun hsize => ?_, fun hne hdvd => ?_⟩
  · have hdouble := isDouble_of_natAbs_le hsize
    rw [Int.cast_add] at hdouble
    have hsum := rational?_add hx hy hdouble
    rw [← Int.cast_add] at hsum
    exact evaluate_of_apply h ha hb hbefore hafter mode (fun _ => rfl) hsum hsize
  · have hdouble := isDouble_of_natAbs_le hsize
    rw [Int.cast_sub] at hdouble
    have hdifference := rational?_sub hx hy hdouble
    rw [← Int.cast_sub] at hdifference
    exact evaluate_of_apply h ha hb hbefore hafter mode (fun _ => rfl) hdifference hsize
  · have hdouble := isDouble_of_natAbs_le hsize
    rw [Int.cast_mul] at hdouble
    have hproduct := rational?_mul hx hy hdouble
    rw [← Int.cast_mul] at hproduct
    exact evaluate_of_apply h ha hb hbefore hafter mode (fun _ => rfl) hproduct hsize
  · -- the quotient is not larger than the dividend
    have hsize : (m.toInt / n.toInt).natAbs ≤ 2 ^ 53 := (Int.natAbs_ediv_le_natAbs _ _).trans hm
    have hne' : (n.toInt : ℚ) ≠ 0 := Int.cast_ne_zero.2 hne
    have hdouble := isDouble_of_natAbs_le hsize
    rw [Int.cast_div hdvd hne'] at hdouble
    have hquotient := rational?_div hx hy hne' hdouble
    rw [← Int.cast_div hdvd hne'] at hquotient
    exact evaluate_of_apply h ha hb hbefore hafter mode
      (fun _ => if_neg (not_abs_lt_tolerance hy hne)) hquotient hsize

end

/-- A scope with the largest exact integer and a negative one. -/
def wideIntegers : Scope :=
  ⟨[("a", .int 9007199254740992), ("b", .int (-2)), ("c", .real 0.5)]⟩

theorem plain_wideIntegers : wideIntegers.Plain := by
  simp only [Scope.Plain, Table.All, wideIntegers, List.forall_mem_cons]
  exact ⟨⟨rfl, rfl⟩, ⟨rfl, rfl⟩, ⟨rfl, by decide +kernel⟩, List.forall_mem_nil _⟩

/-- At the end of the range, with a negative operand whose sign follows the operator. -/
theorem evaluate_integers_wide :
    wideIntegers.Plain ∧ wideIntegers.get? "a" = some (.int 9007199254740992) ∧
      wideIntegers.get? "b" = some (.int (-2)) ∧
      (9007199254740992 : Int64).toInt.natAbs ≤ 2 ^ 53 ∧ (-2 : Int64).toInt.natAbs ≤ 2 ^ 53 ∧
      ∀ mode, evaluate mode wideIntegers "a +b".toList = .ok (.int 9007199254740990) ∧
        evaluate mode wideIntegers "a /b".toList = .ok (.int (-4503599627370496)) := by
  have ha : wideIntegers.get? "a" = some (.int 9007199254740992) := rfl
  have hb : wideIntegers.get? "b" = some (.int (-2)) := rfl
  have hbefore : ∀ c ∈ [' '], Token.isGap c = true := List.forall_mem_singleton.2 rfl
  refine ⟨plain_wideIntegers, ha, hb, by decide, by decide, fun mode => ?_⟩
  obtain ⟨hsum, -, -, hquotient⟩ := evaluate_integers plain_wideIntegers ha hb hbefore
    (List.forall_mem_nil _) mode (by decide) (by decide)
  exact ⟨hsum (by decide), hquotient (by decide) (by decide)⟩

end Drawscript
