import Drawscript.Proofs.Number.RoundTrip

/-!
# Whole numbers

What the conversions from doubles to integers give for a double that is a whole number: the number
itself (`nearest?_of_rational?`), clamped to the 64-bit range (`clampedEven_of_rational?`), and the
value of an arithmetic result (`Value.ofFloat_of_rational?`). So a 64-bit integer comes back from
its nearest double if it is a double itself, or the largest one (`clampedEven_ofInt64_iff`), and a
double is narrowed to it unless it is the least one (`Value.ofFloat_ofInt64`).
-/

set_option autoImplicit false

namespace Drawscript

namespace Number

/-! ## The conversions on whole numbers -/

theorem fraction_den_pos (mantissa : Nat) (exponent : Int) :
    0 < (fraction mantissa exponent).2 := by
  rw [fraction]
  split_ifs
  · exact Nat.one_pos
  · exact Nat.pow_pos (by decide)

/-- The fraction of a mantissa and an exponent has their value. -/
theorem fraction_div (mantissa : Nat) (exponent : Int) :
    ((fraction mantissa exponent).1 : ℚ) / (fraction mantissa exponent).2 =
      mantissa * 2 ^ exponent := by
  rw [fraction]
  split_ifs with hsign
  · obtain ⟨power, rfl⟩ := Int.eq_ofNat_of_zero_le hsign
    simp [pow2]
  · obtain ⟨power, rfl⟩ : ∃ power : Nat, exponent = -power := ⟨exponent.natAbs, by omega⟩
    simp [pow2, div_eq_mul_inv]

theorem roundHalfUp_mul (n : Nat) {den : Nat} (h : 0 < den) : roundHalfUp (n * den) den = n := by
  have hsum : 2 * (n * den) + den = den + 2 * den * n := by ring
  rw [roundHalfUp, hsum, Nat.add_mul_div_left _ _ (by omega), Nat.div_eq_of_lt (by omega),
    Nat.zero_add]

theorem roundHalfEven_mul (n : Nat) {den : Nat} (h : 0 < den) :
    roundHalfEven (n * den) den = n := by
  simp only [roundHalfEven, Nat.mul_mod_left, Nat.mul_div_cancel n h]
  exact if_pos h

/-- The numerator of a whole number is a multiple of the denominator. -/
theorem exists_fraction_of_rational? {x : Float} {n : Int} (h : rational? x = some (n : ℚ)) :
    ∃ negative mantissa exponent, exact x = .finite negative mantissa exponent ∧
      (fraction mantissa exponent).1 = n.natAbs * (fraction mantissa exponent).2 ∧
      signed negative n.natAbs = n := by
  obtain ⟨negative, mantissa, exponent, hexact, hn⟩ := exists_exact_of_rational? h
  have hden : ((fraction mantissa exponent).2 : ℚ) ≠ 0 :=
    Nat.cast_ne_zero.2 (fraction_den_pos mantissa exponent).ne'
  have hmagnitude : ((n.natAbs : Nat) : ℚ) = mantissa * 2 ^ exponent := by
    rw [Nat.cast_natAbs, Int.cast_abs, hn, abs_signed_mul]
  refine ⟨negative, mantissa, exponent, hexact, ?_, ?_⟩
  · rw [← fraction_div, eq_div_iff hden] at hmagnitude
    exact_mod_cast hmagnitude.symm
  · have hsigned : (signed negative n.natAbs : ℚ) = n := by
      rw [signed_eq_mul, hmagnitude, hn, signed_eq_mul negative mantissa, mul_assoc]
    exact_mod_cast hsigned

section

variable {x : Float} {n : Int} (h : rational? x = some (n : ℚ))

include h

/-- The nearest integer to a whole number is the number itself. -/
theorem nearest?_of_rational? : nearest? x = some n := by
  obtain ⟨negative, mantissa, exponent, hexact, hfraction, hsigned⟩ :=
    exists_fraction_of_rational? h
  rw [nearest?, hexact]
  simp only [hfraction, roundHalfUp_mul _ (fraction_den_pos mantissa exponent), hsigned]

theorem clampedEven_of_rational? : clampedEven x = clamp n := by
  obtain ⟨negative, mantissa, exponent, hexact, hfraction, hsigned⟩ :=
    exists_fraction_of_rational? h
  rw [clampedEven, hexact]
  simp only [hfraction, roundHalfEven_mul _ (fraction_den_pos mantissa exponent), hsigned]

end

/-- Clamping leaves the integers of the language alone. -/
theorem clamp_toInt (n : Int64) : clamp n.toInt = n := by
  have hlt := n.toInt_lt
  have hge := n.le_toInt
  rw [clamp, if_neg, if_neg, Int64.ofInt_toInt]
  · simp only [int64Bound]
    omega
  · simp only [int64Bound]
    omega

theorem toInt_clamp {n : Int} (hlow : -(int64Bound : Int) ≤ n) (hhigh : n < int64Bound) :
    (clamp n).toInt = n := by
  rw [clamp, if_neg (by omega), if_neg (by omega)]
  exact Int64.toInt_ofInt_of_le hlow hhigh

/-! ## Integers as doubles and back -/

theorem natAbs_signed (negative : Bool) (n : Nat) : (signed negative n).natAbs = n := by
  cases negative with
  | false => exact Int.natAbs_natCast n
  | true => exact (Int.natAbs_neg _).trans (Int.natAbs_natCast n)

/-- A rounded quotient is the quotient or one more. -/
theorem roundHalfEven_le (num den : Nat) : roundHalfEven num den ≤ num / den + 1 := by
  simp only [roundHalfEven]
  split_ifs
  · omega
  · omega
  · omega

/-- A double that is not whole is small, and so is the integer nearest to it. -/
theorem whole_or_small {x : Float} {negative : Bool} {mantissa : Nat} {exponent : Int}
    (h : exact x = .finite negative mantissa exponent) :
    (∃ n : Int, rational? x = some (n : ℚ)) ∨
      roundHalfEven (fraction mantissa exponent).1 (fraction mantissa exponent).2 ≤ 2 ^ 53 := by
  by_cases hsign : 0 ≤ exponent
  · obtain ⟨power, rfl⟩ := Int.eq_ofNat_of_zero_le hsign
    refine Or.inl ⟨signed negative mantissa * 2 ^ power, ?_⟩
    rw [rational?_of_exact h, zpow_natCast]
    push_cast
    rfl
  · have hmantissa : mantissa < 2 ^ 53 := by
      rcases (of_exact_eq_finite h).2 with ⟨rfl, -⟩ | hcanonical
      · norm_num
      · exact hcanonical.lt
    have hhalf : mantissa / pow2 (-exponent).toNat ≤ mantissa / 2 :=
      Nat.div_le_div_left (Nat.le_self_pow (by omega) 2) (by norm_num)
    have hrounded := roundHalfEven_le mantissa (pow2 (-exponent).toNat)
    right
    rw [fraction, if_neg hsign]
    show roundHalfEven mantissa (pow2 (-exponent).toNat) ≤ 2 ^ 53
    omega

/-- **A 64-bit integer comes back from the double nearest to it exactly if it is a double itself, or
the largest integer.** The largest one becomes a double that is too large by one, and is clamped. -/
theorem clampedEven_ofInt64_iff (n : Int64) :
    clampedEven (ofInt64 n) = n ↔ IsDouble n.toInt ∨ n = Int64.maxValue := by
  constructor
  · intro hback
    obtain ⟨mantissa, exponent, hexact⟩ := exists_exact_ofInt64 n
    rcases whole_or_small hexact with ⟨k, hk⟩ | hsmall
    · rw [clampedEven_of_rational? hk] at hback
      by_cases hlow : k < -(int64Bound : Int)
      · -- below the range is the least integer, a power of two
        left
        rw [clamp, if_pos hlow] at hback
        rw [← hback]
        exact ⟨ofInt64 Int64.minValue, by decide +kernel⟩
      · by_cases hhigh : (int64Bound : Int) ≤ k
        · right
          rw [← hback, clamp, if_neg hlow, if_pos hhigh]
        · left
          rw [← hback, toInt_clamp (by omega) (by omega)]
          exact ⟨ofInt64 n, hk⟩
    · left
      apply isDouble_of_natAbs_le
      simp only [clampedEven, hexact] at hback
      have habs := natAbs_signed (decide (n.toInt < 0))
        (roundHalfEven (fraction mantissa exponent).1 (fraction mantissa exponent).2)
      rw [← hback, toInt_clamp]
      · omega
      · simp only [int64Bound]
        omega
      · simp only [int64Bound]
        omega
  · rintro (hdouble | rfl)
    · have hexact : rational? (ofInt64 n) = some (n.toInt : ℚ) := rational?_ofInt hdouble
      rw [clampedEven_of_rational? hexact, clamp_toInt]
    · decide +kernel

theorem isDouble_zero : IsDouble 0 :=
  ⟨0, by decide +kernel⟩

end Number

/-! ## Whole results of arithmetic -/

/-- The exact value of the tolerance, a double near the decimal it is written as. -/
theorem exact_tolerance : Number.exact tolerance = .finite false 4722366482869645 (-72) := by
  decide +kernel

/-- To be smaller than the tolerance, in terms of rational numbers. -/
theorem abs_lt_tolerance_iff {x : Float} {q : ℚ} (h : Number.rational? x = some q) :
    x.abs < tolerance ↔ |q| < 4722366482869645 * 2 ^ (-72 : Int) := by
  obtain ⟨negative, mantissa, exponent, hexact, rfl⟩ := Number.exists_exact_of_rational? h
  rw [Number.lt_iff_of_exact (Number.exact_abs hexact) exact_tolerance, Number.abs_signed_mul]
  norm_num

/-- A whole result is an integer if it is in range. -/
theorem Value.ofFloat_of_rational? {x : Float} {n : Int} (h : Number.rational? x = some (n : ℚ)) :
    Value.ofFloat x = if n.natAbs < Number.int64Bound then .int (Int64.ofInt n) else .real x := by
  have hdifference : Number.rational? (x - Float.ofInt n) = some 0 := by
    have hsub := Number.rational?_sub h (Number.rational?_ofInt ⟨x, h⟩)
    rw [sub_self] at hsub
    exact hsub Number.isDouble_zero
  have hnear : (x - Float.ofInt n).abs < tolerance := by
    rw [abs_lt_tolerance_iff hdifference]
    norm_num
  simp only [Value.ofFloat, Number.nearest?_of_rational? h, hnear, and_true]

/-- An integer that is a double is narrowed to itself, if it is not the least one. -/
theorem Value.ofFloat_ofInt64 {n : Int64} (h : Number.IsDouble n.toInt) :
    Value.ofFloat (Number.ofInt64 n) =
      if n = Int64.minValue then .real (Number.ofInt64 n) else .int n := by
  have hrational : Number.rational? (Number.ofInt64 n) = some (n.toInt : ℚ) :=
    Number.rational?_ofInt h
  have hlt := n.toInt_lt
  have hge := n.le_toInt
  rw [ofFloat_of_rational? hrational, Int64.ofInt_toInt]
  by_cases hleast : n = Int64.minValue
  · subst hleast
    rfl
  · have hne : n.toInt ≠ -2 ^ 63 := fun heq => hleast (Int64.toInt_inj.1 (heq.trans rfl))
    have hrange : n.toInt.natAbs < Number.int64Bound := by
      simp only [Number.int64Bound]
      omega
    rw [if_pos hrange, if_neg hleast]

end Drawscript
