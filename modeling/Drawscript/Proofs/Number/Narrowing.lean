import Drawscript.Proofs.Number.Whole

/-!
# Narrowing and how values are shown

A result within the tolerance of an integer in range becomes that integer, and any other stays a
real (`Value.ofFloat_cases`). The difference to the nearest integer is computed without an error
(`rational?_sub_nearest`), so that the tolerance is one of exact numbers.

A real is shown with a fraction even if it is whole (`isPointed_pointed`), an integer never is.
So a value that is narrowed is shown as before exactly if it stays an integer or stays a real
(`Value.display_ofFloat_iff`).
-/

set_option autoImplicit false

namespace Drawscript

namespace Number

/-! ## Multiples of a power of two -/

theorem isDouble_mul {n unit : Int} (hlt : n.natAbs < 2 ^ 53) (hleast : -1074 ≤ unit)
    (hlargest : unit ≤ 971) : IsDouble (n * 2 ^ unit) := by
  by_cases hzero : n = 0
  · rw [hzero, Int.cast_zero, zero_mul]
    exact isDouble_zero
  · obtain ⟨mantissa, exponent, hcanonical, hvalue⟩ :=
      exists_canonical_of_lt_mul unit (Int.natAbs_ne_zero.2 hzero) hlt hleast hlargest
    rw [cast_eq_signed_mul, mul_assoc, hvalue]
    exact hcanonical.isDouble _

/-! ## The nearest integer -/

theorem exists_rational?_of_isFinite {x : Float} (h : x.isFinite = true) :
    ∃ q, rational? x = some q := by
  obtain ⟨negative, mantissa, exponent, hexact⟩ := exists_exact_of_isFinite h
  exact ⟨_, rational?_of_exact hexact⟩

theorem abs_sub_roundHalfUp_le (num : Nat) {den : Nat} (h : 0 < den) :
    |(num : ℚ) / den - roundHalfUp num den| ≤ 1 / 2 := by
  have hden : (0 : ℚ) < den := Nat.cast_pos.2 h
  -- the division with remainder gives both bounds, multiplied by twice the denominator
  have hdivision := Nat.div_add_mod (2 * num + den) (2 * den)
  have hrest := Nat.mod_lt (2 * num + den) (Nat.mul_pos Nat.two_pos h)
  have hlow : 2 * den * roundHalfUp num den ≤ 2 * num + den := by
    rw [roundHalfUp]
    omega
  have hhigh : 2 * num + den ≤ 2 * den * roundHalfUp num den + 2 * den := by
    rw [roundHalfUp]
    omega
  have hlow' : (2 : ℚ) * den * roundHalfUp num den ≤ 2 * num + den := by exact_mod_cast hlow
  have hhigh' : (2 : ℚ) * num + den ≤ 2 * den * roundHalfUp num den + 2 * den := by
    exact_mod_cast hhigh
  have hquotient : (num : ℚ) / den * den = num := div_mul_cancel₀ _ hden.ne'
  rw [abs_le]
  constructor
  · nlinarith
  · nlinarith

section

variable {x : Float} {q : ℚ} (h : rational? x = some q)

include h

theorem exists_nearest? : ∃ n : Int, nearest? x = some n ∧ |q - n| ≤ 1 / 2 := by
  obtain ⟨negative, mantissa, exponent, hexact, rfl⟩ := exists_exact_of_rational? h
  refine ⟨_, by rw [nearest?, hexact], ?_⟩
  rw [signed_eq_mul, signed_eq_mul negative (roundHalfUp _ _), mul_assoc, ← mul_sub, abs_mul,
    abs_signed_one, one_mul, ← fraction_div]
  exact abs_sub_roundHalfUp_le _ (fraction_den_pos mantissa exponent)

/-- A double that is not whole is small, and a multiple of a small power of two. -/
theorem whole_or_multiple : (∃ n : Int, q = n) ∨ ∃ (n unit : Int), q = n * 2 ^ unit ∧
    n.natAbs < 2 ^ 53 ∧ -1074 ≤ unit ∧ unit < 0 := by
  obtain ⟨negative, mantissa, exponent, hexact, rfl⟩ := exists_exact_of_rational? h
  by_cases hsign : 0 ≤ exponent
  · obtain ⟨power, rfl⟩ := Int.eq_ofNat_of_zero_le hsign
    left
    exact ⟨signed negative mantissa * 2 ^ power, by push_cast; rfl⟩
  · right
    refine ⟨signed negative mantissa, exponent, rfl, ?_, ?_, by omega⟩
    · rw [natAbs_signed]
      rcases (of_exact_eq_finite hexact).2 with ⟨rfl, -⟩ | hcanonical
      · norm_num
      · exact hcanonical.lt
    · rcases (of_exact_eq_finite hexact).2 with ⟨-, rfl⟩ | hcanonical
      · norm_num
      · exact hcanonical.least

end

theorem eq_of_abs_sub_lt_one {m n : Int} (h : |(m : ℚ) - n| < 1) : m = n := by
  have habs : |m - n| < 1 := by exact_mod_cast h
  rw [Int.abs_lt_one_iff] at habs
  omega

/-- An integer within one half is at least as near as zero. -/
theorem abs_sub_le_abs {q : ℚ} {n : Int} (h : |q - n| ≤ 1 / 2) : |q - n| ≤ |q| := by
  by_cases hzero : n = 0
  · rw [hzero, Int.cast_zero, sub_zero]
  · have hone : (1 : ℚ) ≤ |(n : ℚ)| := by exact_mod_cast Int.one_le_abs hzero
    have htriangle : |(n : ℚ)| - |q| ≤ |(n : ℚ) - q| := abs_sub_abs_le_abs_sub _ _
    rw [abs_sub_comm] at htriangle
    linarith

/-- A multiple of a power of two below one, with 53 bits. -/
theorem abs_mul_two_zpow_lt {n unit : Int} (hlt : n.natAbs < 2 ^ 53) (hneg : unit < 0) :
    |(n : ℚ) * 2 ^ unit| < 2 ^ 53 := by
  have hunit : (2 : ℚ) ^ unit ≤ 1 := zpow_le_one_of_nonpos₀ (by norm_num) hneg.le
  have hbits : |(n : ℚ)| < 2 ^ 53 := by
    rw [← Int.cast_abs, Int.abs_eq_natAbs]
    exact_mod_cast hlt
  rw [abs_mul, abs_of_pos (two_zpow_pos unit)]
  exact (mul_le_of_le_one_right (abs_nonneg _) hunit).trans_lt hbits

theorem natAbs_le_of_abs_sub_le {q : ℚ} {n : Int} (h : |q - n| ≤ 1 / 2) (hq : |q| < 2 ^ 53) :
    n.natAbs ≤ 2 ^ 53 := by
  have htriangle : |(n : ℚ)| - |q| ≤ |(n : ℚ) - q| := abs_sub_abs_le_abs_sub _ _
  rw [abs_sub_comm] at htriangle
  have hlt : |(n : ℚ)| < 2 ^ 53 + 1 := by linarith
  rw [← Int.cast_abs, Int.abs_eq_natAbs] at hlt
  have hlt' : n.natAbs < 2 ^ 53 + 1 := by exact_mod_cast hlt
  omega

/-- The difference is a multiple of the same power of two as the number, and not larger. -/
theorem isDouble_sub_of_multiple {k n unit : Int} (hk : k.natAbs < 2 ^ 53) (hleast : -1074 ≤ unit)
    (hneg : unit < 0) (hn : |(k : ℚ) * 2 ^ unit - n| ≤ 1 / 2) :
    IsDouble ((k : ℚ) * 2 ^ unit - n) := by
  obtain ⟨power, rfl⟩ : ∃ power : Nat, unit = -power := ⟨unit.natAbs, by omega⟩
  have hunit := two_zpow_pos (-(power : Int))
  have hmultiple : (k : ℚ) * 2 ^ (-(power : Int)) - n =
      ((k - n * 2 ^ power : Int) : ℚ) * 2 ^ (-(power : Int)) := by
    rw [zpow_neg, zpow_natCast]
    push_cast
    field_simp
  have hle := abs_sub_le_abs hn
  rw [hmultiple, abs_mul, abs_mul, mul_le_mul_iff_left₀ (abs_pos.2 hunit.ne')] at hle
  have hnat : |k - n * 2 ^ power| ≤ |k| := by exact_mod_cast hle
  rw [hmultiple]
  apply isDouble_mul
  · rw [Int.abs_eq_natAbs, Int.abs_eq_natAbs] at hnat
    omega
  · exact hleast
  · omega

/-- **The difference of a double and its nearest integer is computed without an error.** -/
theorem rational?_sub_nearest {x : Float} {q : ℚ} {n : Int} (h : rational? x = some q)
    (hn : |q - n| ≤ 1 / 2) : rational? (x - Float.ofInt n) = some (q - n) := by
  rcases whole_or_multiple h with ⟨k, rfl⟩ | ⟨k, unit, rfl, hk, hleast, hneg⟩
  · obtain rfl : k = n := eq_of_abs_sub_lt_one (by linarith)
    apply rational?_sub h (rational?_ofInt ⟨x, h⟩)
    rw [sub_self]
    exact isDouble_zero
  · have hsmall := natAbs_le_of_abs_sub_le hn (abs_mul_two_zpow_lt hk hneg)
    exact rational?_sub h (rational?_ofInt (isDouble_of_natAbs_le hsmall))
      (isDouble_sub_of_multiple hk hleast hneg hn)

end Number

open Number

/-! ## Narrowing -/

/-- The real is within the tolerance of the integer. -/
def NearWhole (x : Float) (k : Int) : Prop :=
  ∃ q t, rational? x = some q ∧ rational? tolerance = some t ∧ |q - k| < t

theorem rational?_tolerance :
    rational? tolerance = some (4722366482869645 * 2 ^ (-72 : Int)) := by
  rw [rational?_of_exact exact_tolerance]
  rfl

theorem nearWhole_iff {x : Float} {q : ℚ} (h : rational? x = some q) (k : Int) :
    NearWhole x k ↔ |q - k| < 4722366482869645 * 2 ^ (-72 : Int) := by
  rw [NearWhole, h, rational?_tolerance]
  simp

/-- Only the nearest integer can be within the tolerance. -/
theorem NearWhole.eq {x : Float} {q : ℚ} (h : rational? x = some q) {n k : Int}
    (hn : |q - n| ≤ 1 / 2) (hk : NearWhole x k) : k = n := by
  rw [nearWhole_iff h] at hk
  have hsum : |(k : ℚ) - n| ≤ |(k : ℚ) - q| + |q - n| := abs_sub_le _ _ _
  rw [abs_sub_comm (k : ℚ) q] at hsum
  apply eq_of_abs_sub_lt_one
  norm_num at hk
  linarith

theorem NearWhole.isFinite {x : Float} {k : Int} (h : NearWhole x k) : x.isFinite = true := by
  obtain ⟨q, -, hq, -⟩ := h
  obtain ⟨negative, mantissa, exponent, hexact, -⟩ := exists_exact_of_rational? hq
  exact isFinite_of_exact hexact

theorem NearWhole.unique {x : Float} {j k : Int} (hj : NearWhole x j) (hk : NearWhole x k) :
    j = k := by
  obtain ⟨q, -, hq, -⟩ := id hk
  rw [nearWhole_iff hq] at hk
  norm_num at hk
  exact hj.eq hq (by linarith)

/-- An integer within the tolerance of a double is a double. -/
theorem NearWhole.isDouble {x : Float} {k : Int} (h : NearWhole x k) : IsDouble k := by
  obtain ⟨q, -, hq, -⟩ := id h
  rw [nearWhole_iff hq] at h
  norm_num at h
  rcases whole_or_multiple hq with ⟨n, rfl⟩ | ⟨n, unit, rfl, hn, -, hneg⟩
  · obtain rfl : n = k := eq_of_abs_sub_lt_one (by linarith)
    exact ⟨x, hq⟩
  · apply isDouble_of_natAbs_le
    exact natAbs_le_of_abs_sub_le (by linarith) (abs_mul_two_zpow_lt hn hneg)

/-- **A finite result becomes the integer in range that it is within the tolerance of, and stays a
real if there is none.** -/
theorem Value.ofFloat_cases {x : Float} (h : x.isFinite = true) :
    (∃ k : Int, k.natAbs < int64Bound ∧ NearWhole x k ∧ ofFloat x = .int (Int64.ofInt k)) ∨
      (∀ k : Int, k.natAbs < int64Bound → ¬ NearWhole x k) ∧ ofFloat x = .real x := by
  obtain ⟨q, hq⟩ := exists_rational?_of_isFinite h
  obtain ⟨n, hnearest, hn⟩ := exists_nearest? hq
  have hnear : (x - Float.ofInt n).abs < tolerance ↔ NearWhole x n := by
    rw [abs_lt_tolerance_iff (rational?_sub_nearest hq hn), nearWhole_iff hq]
  simp only [ofFloat, hnearest]
  by_cases hint : n.natAbs < int64Bound ∧ (x - Float.ofInt n).abs < tolerance
  · left
    exact ⟨n, hint.1, hnear.1 hint.2, if_pos hint⟩
  · right
    refine ⟨?_, if_neg hint⟩
    intro k hk hwhole
    obtain rfl := hwhole.eq hq hn
    exact hint ⟨hk, hnear.2 hwhole⟩

/-! ## Fractions -/

namespace Number

/-- Digits, a point and digits, with a sign before them. -/
def IsPointed (text : List Char) : Prop :=
  ∃ negative whole places, text = signText negative ++ (whole ++ '.' :: places) ∧
    whole ≠ [] ∧ places ≠ [] ∧ (∀ c ∈ whole, c.isDigit = true) ∧ ∀ c ∈ places, c.isDigit = true

/-- Only whole doubles are nearest to whole numbers. -/
theorem RoundsTo.exists_whole {n mantissa : Nat} {exponent : Int}
    (h : RoundsTo n mantissa exponent) : ∃ k : Nat, (mantissa : ℚ) * 2 ^ exponent = k := by
  by_cases hsign : 0 ≤ exponent
  · obtain ⟨power, rfl⟩ := Int.eq_ofNat_of_zero_le hsign
    exact ⟨mantissa * 2 ^ power, by push_cast; rfl⟩
  · have hne : n ≠ 0 := by
      rintro rfl
      exact lt_irrefl _ (h.pos.trans_eq Nat.cast_zero)
    have hlt : n < 2 ^ 53 := by
      have hmantissa : (mantissa : ℚ) + 1 / 2 ≤ 2 ^ 53 := by
        have hle : (mantissa : ℚ) + 1 ≤ 2 ^ 53 := by exact_mod_cast h.canonical.lt
        linarith
      have hunit : (2 : ℚ) ^ exponent ≤ 1 / 2 := by
        calc (2 : ℚ) ^ exponent ≤ 2 ^ (-1 : Int) := zpow_le_zpow_right₀ (by norm_num) (by omega)
          _ = 1 / 2 := by norm_num
      have hhalf : (n : ℚ) ≤ 2 ^ 53 * (1 / 2) :=
        h.high.trans (mul_le_mul hmantissa hunit (two_zpow_pos exponent).le (by norm_num))
      have hhalf' : (n : ℚ) < 2 ^ 53 := by linarith
      exact_mod_cast hhalf'
    -- such a number is a double itself, and the only one that it rounds to
    obtain ⟨mantissa', exponent', hcanonical, hvalue⟩ := exists_canonical_of_lt hne hlt
    have hself : RoundsTo n mantissa' exponent' := by
      rw [hvalue]
      exact hcanonical.roundsTo
    have hexact := exact_ofNat hne h
    rw [exact_ofNat hne hself] at hexact
    cases hexact
    exact ⟨n, hvalue.symm⟩

/-- A decimal that rounds to a double between two whole numbers has decimal places. -/
theorem exponent_neg_of_roundsTo {d : Decimal} {mantissa : Nat} {exponent : Int}
    (h : RoundsTo d.value mantissa exponent)
    (hne : (fraction mantissa exponent).1 % (fraction mantissa exponent).2 ≠ 0) :
    d.exponent < 0 := by
  by_contra hsign
  obtain ⟨power, hpower⟩ := Int.eq_ofNat_of_zero_le (not_lt.1 hsign)
  have hwhole : d.value = ((d.digits * 10 ^ power : Nat) : ℚ) := by
    rw [Decimal.value, hpower]
    push_cast
    rfl
  rw [hwhole] at h
  obtain ⟨k, hk⟩ := h.exists_whole
  have hden : ((fraction mantissa exponent).2 : ℚ) ≠ 0 :=
    Nat.cast_ne_zero.2 (fraction_den_pos mantissa exponent).ne'
  rw [← fraction_div, div_eq_iff hden] at hk
  have hmultiple : (fraction mantissa exponent).1 = k * (fraction mantissa exponent).2 := by
    exact_mod_cast hk
  rw [hmultiple] at hne
  exact hne (Nat.mul_mod_left _ _)

/-- A decimal with decimal places is written with a point. -/
theorem isPointed_positional {d : Decimal} (h : d.exponent < 0) (negative : Bool) :
    IsPointed (signText negative ++ d.positional) := by
  have hdigits : ∀ c ∈ digitsOf d.digits, c.isDigit = true := fun _ => isDigit_of_mem_digitsOf
  simp only [Decimal.positional, if_neg (not_le.2 h)]
  split_ifs with hplaces
  · refine ⟨negative, _, _, rfl, ?_, ?_, ?_, ?_⟩
    · rw [← List.length_pos_iff, List.length_take]
      omega
    · rw [← List.length_pos_iff, List.length_drop]
      omega
    · intro c hc
      exact hdigits c (List.mem_of_mem_take hc)
    · intro c hc
      exact hdigits c (List.mem_of_mem_drop hc)
  · refine ⟨negative, ['0'], List.replicate ((-d.exponent).toNat - (digitsOf d.digits).length) '0' ++
      digitsOf d.digits, rfl, List.cons_ne_nil _ _, ?_, ?_, ?_⟩
    · exact List.append_ne_nil_of_right_ne_nil _ (digitsOf_ne_nil _)
    · exact List.forall_mem_singleton.2 rfl
    · rw [List.forall_mem_append]
      refine ⟨?_, hdigits⟩
      intro c hc
      rw [List.eq_of_mem_replicate hc]
      rfl

theorem fraction_zero (exponent : Int) : (fraction 0 exponent).1 = 0 := by
  rw [fraction]
  split_ifs
  · exact Nat.zero_mul _
  · rfl

/-- **A finite real is shown with a fraction, even if it is whole.** -/
theorem isPointed_pointed {x : Float} (h : x.isFinite = true) : IsPointed (pointed x).toList := by
  obtain ⟨negative, mantissa, exponent, hexact⟩ := exists_exact_of_isFinite h
  rw [pointed, whole?, hexact]
  by_cases hwhole : (fraction mantissa exponent).1 % (fraction mantissa exponent).2 = 0
  · simp only [hwhole, if_true, String.toList_ofList]
    refine ⟨negative, _, ['0'], List.append_assoc _ _ _, digitsOf_ne_nil _, List.cons_ne_nil _ _,
      ?_, ?_⟩
    · intro c hc
      exact isDigit_of_mem_digitsOf hc
    · exact List.forall_mem_singleton.2 rfl
  · simp only [hwhole, if_false]
    have hcanonical : Canonical mantissa exponent := by
      refine (of_exact_eq_finite hexact).2.resolve_left ?_
      rintro ⟨rfl, -⟩
      apply hwhole
      rw [fraction_zero, Nat.zero_mod]
    have hrounds := roundsTo_shortest hcanonical .up
    rw [toList_plain hexact hcanonical.pos.ne']
    exact isPointed_positional (exponent_neg_of_roundsTo hrounds hwhole) negative

theorem IsPointed.ne_toString {text : List Char} (h : IsPointed text) (n : Int) :
    text ≠ (toString n).toList := by
  obtain ⟨negative, whole, places, rfl, -⟩ := h
  intro heq
  have hpoint : '.' ∈ (toString n).toList := by
    rw [← heq]
    simp
  rw [toList_toString, List.mem_append] at hpoint
  rcases hpoint with hsign | hdigit
  · cases hneg : decide (n < 0) with
    | false =>
      rw [hneg] at hsign
      cases hsign
    | true =>
      rw [hneg] at hsign
      simp [signText] at hsign
  · cases isDigit_of_mem_digitsOf hdigit

end Number

/-! ## Values as they are shown -/

namespace Value

/-- The values that narrowing leaves as they are: the integers that are doubles, apart from the least
one, and the reals that are within the tolerance of no integer in range. -/
inductive Kept : Value → Prop
  | int {n : Int64} (h : IsDouble n.toInt) (hne : n ≠ Int64.minValue) : Kept (.int n)
  | real {x : Float} (h : ∀ k : Int, k.natAbs < int64Bound → ¬ NearWhole x k) : Kept (.real x)

/-- How a value is shown: an integer by its digits, a real with digits on both sides of a point. -/
inductive ShownAs : Value → List Char → Prop
  | int (n : Int64) :
    ShownAs (.int n) (signText (decide (n.toInt < 0)) ++ digitsOf n.toInt.natAbs)
  | real (x : Float) {text : List Char} (h : IsPointed text) : ShownAs (.real x) text

theorem shownAs_display {value : Value} (h : value.isFinite = true) :
    value.ShownAs value.display.toList := by
  cases value with
  | int n =>
    rw [display, toList_toString]
    exact .int n
  | real x => exact .real x (isPointed_pointed h)
  | text s => cases h

/-- A real is not shown as an integer is. -/
theorem display_real_ne {x : Float} (h : x.isFinite = true) (n : Int64) :
    (real x).display ≠ (int n).display := by
  intro heq
  exact (isPointed_pointed h).ne_toString n.toInt (congrArg String.toList heq)

theorem toInt_ofInt {k : Int} (h : k.natAbs < int64Bound) : (Int64.ofInt k).toInt = k := by
  simp only [int64Bound] at h
  apply Int64.toInt_ofInt_of_le
  · omega
  · omega

theorem display_ofFloat_of_nearWhole {x : Float} {k : Int} (hk : k.natAbs < int64Bound)
    (h : NearWhole x k) : (ofFloat x).display = toString k := by
  rcases ofFloat_cases h.isFinite with ⟨j, hj, hnear, hofFloat⟩ | ⟨hfar, -⟩
  · obtain rfl := hnear.unique h
    rw [hofFloat, display, toInt_ofInt hj]
  · exact absurd h (hfar k hk)

/-- **A value that is narrowed is shown as before exactly if it is left as it is.** -/
theorem display_ofFloat_iff {value : Value} (h : value.isFinite = true) {x : Float}
    (hx : value.number? = some x) : (ofFloat x).display = value.display ↔ value.Kept := by
  cases value with
  | int n =>
    cases hx
    obtain ⟨mantissa, exponent, hexact⟩ := exists_exact_ofInt64 n
    have hfinite := isFinite_of_exact hexact
    constructor
    · intro hdisplay
      rcases ofFloat_cases hfinite with ⟨k, hk, hnear, hofFloat⟩ | ⟨-, hofFloat⟩
      · rw [hofFloat] at hdisplay
        have hinteger : (Int64.ofInt k).toInt = n.toInt := Int.repr_inj.1 hdisplay
        rw [toInt_ofInt hk] at hinteger
        refine .int (hinteger ▸ hnear.isDouble) ?_
        -- the least integer has a magnitude that is out of range
        rintro rfl
        subst hinteger
        exact absurd hk (by decide)
      · rw [hofFloat] at hdisplay
        exact absurd hdisplay (display_real_ne hfinite n)
    · rintro (⟨hdouble, hne⟩ | -)
      rw [ofFloat_ofInt64 hdouble, if_neg hne]
  | real y =>
    cases hx
    rcases ofFloat_cases h with ⟨k, hk, hnear, hofFloat⟩ | ⟨hfar, hofFloat⟩
    · rw [hofFloat]
      constructor
      · intro hdisplay
        exact absurd hdisplay.symm (display_real_ne h _)
      · rintro (- | hfar)
        exact absurd hnear (hfar k hk)
    · rw [hofFloat]
      exact iff_of_true rfl (.real hfar)
  | text s => cases h

end Value

end Drawscript
