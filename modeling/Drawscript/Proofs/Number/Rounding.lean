import Drawscript.Proofs.Number.Double

/-!
# Rounding to a double

`RoundsTo` says to which double a positive rational number rounds: it lies between the middles of
the double and its two neighbours, and is such a middle only if the mantissa is even. Every number
in the range of the doubles rounds to one of them (`exists_roundsTo`).

The arithmetic of doubles works on mantissas with two further bits, which tell where a number lies
(`Locates`). Bringing a mantissa to a larger exponent keeps this true (`Locates.shiftRight`), and
rounding it gives the nearest whole number (`Locates.roundedMantissa_eq`). So the result of rounding
is the double to which the number rounds (`roundWithAccuracy_eq`, `normalize_eq`).
-/

set_option autoImplicit false

namespace Drawscript.Number

open Float.Model Float.Model.UnpackedFloat

/-! ## Nearest doubles -/

/-- The number is nearest to a whole number, which is even if there are two of them. -/
structure IsNearest (q : ℚ) (n : Nat) : Prop where
  low : (n : ℚ) - 1 / 2 ≤ q
  high : q ≤ n + 1 / 2
  even_of_low : (n : ℚ) - 1 / 2 = q → n % 2 = 0
  even_of_high : q = n + 1 / 2 → n % 2 = 0

/-- How far the numbers that round to a double lie below it at most, in units of its last place.
The double before a power of two is half a unit away. -/
def reachBelow (mantissa : Nat) (exponent : Int) : ℚ :=
  if mantissa = 2 ^ 52 ∧ -1074 < exponent then 1 / 4 else 1 / 2

/-- The positive number rounds to a double: no double is nearer, and if another one is as near, the
mantissa is even. -/
structure RoundsTo (q : ℚ) (mantissa : Nat) (exponent : Int) : Prop where
  canonical : Canonical mantissa exponent
  low : (mantissa - reachBelow mantissa exponent) * 2 ^ exponent ≤ q
  high : q ≤ (mantissa + 1 / 2) * 2 ^ exponent
  even_of_low : (mantissa - reachBelow mantissa exponent) * 2 ^ exponent = q → mantissa % 2 = 0
  even_of_high : q = (mantissa + 1 / 2) * 2 ^ exponent → mantissa % 2 = 0

theorem reachBelow_pos (mantissa : Nat) (exponent : Int) : 0 < reachBelow mantissa exponent := by
  rw [reachBelow]
  split_ifs <;> norm_num

theorem reachBelow_le (mantissa : Nat) (exponent : Int) : reachBelow mantissa exponent ≤ 1 / 2 := by
  rw [reachBelow]
  split_ifs <;> norm_num

/-- A double rounds to itself. -/
theorem Canonical.roundsTo {mantissa : Nat} {exponent : Int} (h : Canonical mantissa exponent) :
    RoundsTo (mantissa * 2 ^ exponent) mantissa exponent := by
  have hbelow := reachBelow_pos mantissa exponent
  have hlow : (mantissa - reachBelow mantissa exponent) * 2 ^ exponent < mantissa * 2 ^ exponent :=
    mul_lt_mul_of_pos_right (by linarith) (two_zpow_pos exponent)
  have hhigh : (mantissa : ℚ) * 2 ^ exponent < (mantissa + 1 / 2) * 2 ^ exponent :=
    mul_lt_mul_of_pos_right (by linarith) (two_zpow_pos exponent)
  exact ⟨h, hlow.le, hhigh.le, fun heq => absurd heq hlow.ne, fun heq => absurd heq hhigh.ne⟩

/-- Every number has a size in units. -/
theorem exists_eq_mul_two_zpow (q : ℚ) (unit : Int) : ∃ w : ℚ, q = w * 2 ^ unit :=
  ⟨q / 2 ^ unit, (div_mul_cancel₀ q (two_zpow_pos unit).ne').symm⟩

theorem lt_of_mul_two_zpow_lt {w : ℚ} {unit top : Int} {bits : Nat} (h : w * 2 ^ unit < 2 ^ top)
    (hbits : top ≤ bits + unit) : w < 2 ^ bits := by
  refine lt_of_mul_lt_mul_right (h.trans_le ?_) (two_zpow_pos unit).le
  rw [← zpow_natCast, ← two_zpow_add]
  exact zpow_le_zpow_right₀ (by norm_num) hbits

theorem le_of_le_mul_two_zpow {w : ℚ} {unit top : Int} {bits : Nat} (h : 2 ^ top ≤ w * 2 ^ unit)
    (hbits : bits + unit ≤ top) : 2 ^ bits ≤ w := by
  refine le_of_mul_le_mul_right (le_trans ?_ h) (two_zpow_pos unit)
  rw [← zpow_natCast, ← two_zpow_add]
  exact zpow_le_zpow_right₀ (by norm_num) hbits

/-- A number below `2 ^ 53` units that are smaller than those of the double rounds up to a power of
two. -/
theorem RoundsTo.power_of_lt {w : ℚ} {mantissa : Nat} {exponent unit : Int}
    (h : RoundsTo (w * 2 ^ exponent) mantissa exponent) (hunit : -1074 ≤ unit)
    (hless : unit < exponent) (hupper : w * 2 ^ exponent < 2 ^ (unit + 53)) :
    unit = exponent - 1 ∧ mantissa = 2 ^ 52 ∧ 2 ^ 52 - 1 / 4 ≤ w ∧ w < 2 ^ 52 := by
  have hlow := (mul_le_mul_iff_left₀ (two_zpow_pos exponent)).1 h.low
  have hbelow := reachBelow_le mantissa exponent
  have hw : w < 2 ^ 52 := lt_of_mul_two_zpow_lt hupper (by omega)
  have hmantissa : mantissa = 2 ^ 52 := by
    have hge := h.canonical.full.resolve_right (by omega)
    by_contra hne
    have hmore : (2 ^ 52 + 1 : ℚ) ≤ mantissa := by
      exact_mod_cast Nat.lt_of_le_of_ne hge (Ne.symm hne)
    linarith
  have hreach : reachBelow mantissa exponent = 1 / 4 := if_pos ⟨hmantissa, by omega⟩
  rw [hreach, hmantissa] at hlow
  push_cast at hlow
  refine ⟨?_, hmantissa, hlow, hw⟩
  by_contra hne
  have hhalf : w < 2 ^ 51 := lt_of_mul_two_zpow_lt hupper (by omega)
  linarith

/-- If a number has 53 bits before the unit `2 ^ unit`, or fewer with the least unit, then it rounds
to the nearest multiple of the unit. Only if this has one bit too many, the unit of the double is
another one. -/
theorem RoundsTo.cases {q : ℚ} {mantissa : Nat} {exponent unit : Int}
    (h : RoundsTo q mantissa exponent) (hunit : -1074 ≤ unit) (hupper : q < 2 ^ (unit + 53))
    (hlower : unit = -1074 ∨ 2 ^ (unit + 52) ≤ q) :
    (unit = exponent ∧ IsNearest (q / 2 ^ unit) mantissa) ∨
      (unit = exponent - 1 ∧ mantissa = 2 ^ 52 ∧ IsNearest (q / 2 ^ unit) (2 ^ 53)) := by
  -- everything is measured in units of the double
  obtain ⟨w, rfl⟩ := exists_eq_mul_two_zpow q exponent
  have hunits := two_zpow_pos exponent
  rcases lt_trichotomy unit exponent with hless | rfl | hmore
  · obtain ⟨hunit_eq, hmantissa, hlow, hhigh⟩ := h.power_of_lt hunit hless hupper
    refine Or.inr ⟨hunit_eq, hmantissa, ?_⟩
    have hdouble : w * 2 ^ exponent / 2 ^ unit = 2 * w := by
      rw [div_eq_iff (two_zpow_pos unit).ne', hunit_eq, zpow_sub_one₀ (by norm_num)]
      ring
    rw [hdouble]
    refine ⟨?_, ?_, fun _ => by decide, fun _ => by decide⟩
    · push_cast
      linarith
    · push_cast
      linarith
  · obtain ⟨-, hlow, hhigh, heven_low, heven_high⟩ := h
    rw [mul_le_mul_iff_left₀ hunits] at hlow hhigh
    rw [mul_left_inj' hunits.ne'] at heven_low heven_high
    have hbelow := reachBelow_le mantissa unit
    refine Or.inl ⟨rfl, ?_⟩
    rw [mul_div_cancel_right₀ w hunits.ne']
    refine ⟨by linarith, hhigh, fun heq => heven_low ?_, heven_high⟩
    linarith
  · -- a larger unit would need at least `2 ^ 53` units of the double
    have hleast := h.canonical.least
    have hw : (2 : ℚ) ^ 53 ≤ w :=
      le_of_le_mul_two_zpow (hlower.resolve_left (by omega)) (by omega)
    have hhigh := (mul_le_mul_iff_left₀ hunits).1 h.high
    have hmantissa : (mantissa + 1 : ℚ) ≤ 2 ^ 53 := by exact_mod_cast h.canonical.lt
    linarith

/-- The nearest whole number is next to the number. -/
theorem IsNearest.eq_or_eq_succ {q : ℚ} {n below : Nat} (h : IsNearest q n) (hle : below ≤ q)
    (hlt : q < below + 1) : n = below ∨ n = below + 1 := by
  have hlow := h.low
  have hhigh := h.high
  have hlt_n : (below : ℚ) < n + 1 := by linarith
  have hn_lt : (n : ℚ) < below + 2 := by linarith
  have hlt_n : below < n + 1 := by exact_mod_cast hlt_n
  have hn_lt : n < below + 2 := by exact_mod_cast hn_lt
  omega

theorem exists_isNearest {q : ℚ} (h : 0 ≤ q) : ∃ n, IsNearest q n := by
  have hle := Nat.floor_le h
  have hlt := Nat.lt_floor_add_one q
  generalize ⌊q⌋₊ = n at *
  rcases lt_trichotomy q (n + 1 / 2) with hless | heq | hmore
  · refine ⟨n, by linarith, hless.le, fun hlow => ?_, fun hhigh => absurd hhigh hless.ne⟩
    linarith
  · -- the number is in the middle, and one of its neighbours is even
    rcases Nat.mod_two_eq_zero_or_one n with heven | hodd
    · exact ⟨n, by linarith, heq.le, fun _ => heven, fun _ => heven⟩
    · have hnext : (n + 1) % 2 = 0 := by omega
      refine ⟨n + 1, ?_, ?_, fun _ => hnext, fun _ => hnext⟩ <;> push_cast <;> linarith
  · refine ⟨n + 1, ?_, ?_, fun hlow => ?_, fun hhigh => ?_⟩ <;> push_cast at * <;> linarith

/-- A number with at most 53 bits before its unit, and exactly so many if the unit is not the least
one, rounds to the nearest multiple of the unit. -/
theorem IsNearest.exists_roundsTo {w : ℚ} {n : Nat} {unit : Int} (h : IsNearest w n) (hone : 1 ≤ w)
    (hlt : w < 2 ^ 53) (hfull : 2 ^ 52 ≤ w ∨ unit = -1074) (hleast : -1074 ≤ unit)
    (hlargest : unit ≤ 970) : ∃ mantissa exponent, RoundsTo (w * 2 ^ unit) mantissa exponent := by
  obtain ⟨hlow, hhigh, heven_low, heven_high⟩ := h
  have hscale := two_zpow_pos unit
  by_cases hcarry : n = 2 ^ 53
  · -- the mantissa gets one bit too many, so the double is a power of two
    have hunit : (2 : ℚ) ^ (unit + 1) = 2 * 2 ^ unit := by
      rw [zpow_add_one₀ (by norm_num), mul_comm]
    have hreach : reachBelow (2 ^ 52) (unit + 1) = 1 / 4 := if_pos ⟨rfl, by omega⟩
    rw [hcarry] at hlow
    push_cast at hlow
    refine ⟨2 ^ 52, unit + 1, ⟨by norm_num, by norm_num, by omega, by omega, Or.inl le_rfl⟩, ?_, ?_,
      fun _ => by norm_num, fun _ => by norm_num⟩
    · rw [hreach, hunit, ← mul_assoc]
      refine mul_le_mul_of_nonneg_right ?_ hscale.le
      push_cast
      linarith
    · rw [hunit, ← mul_assoc]
      refine mul_le_mul_of_nonneg_right ?_ hscale.le
      push_cast
      linarith
  · have hpos : 0 < n := by
      have hpos : (0 : ℚ) < n := by linarith
      exact_mod_cast hpos
    have hbits : n < 2 ^ 53 := by
      have hbits : (n : ℚ) < 2 ^ 53 + 1 := by linarith
      have hbits : n < 2 ^ 53 + 1 := by exact_mod_cast hbits
      omega
    have hge : 2 ^ 52 ≤ n ∨ unit = -1074 := by
      refine hfull.imp_left fun hge => ?_
      have hge : (2 ^ 52 : ℚ) < n + 1 := by linarith
      have hge : 2 ^ 52 < n + 1 := by exact_mod_cast hge
      omega
    -- below a power of two the number is nearer to it than half a unit
    have hreach : n - reachBelow n unit ≤ w ∧ (n - reachBelow n unit = w → n % 2 = 0) := by
      rw [reachBelow]
      split_ifs with hpower
      · rw [hpower.1]
        have hge := hfull.resolve_right (by omega)
        push_cast
        exact ⟨by linarith, fun _ => by norm_num⟩
      · exact ⟨hlow, heven_low⟩
    refine ⟨n, unit, ⟨hpos, hbits, hleast, by omega, hge⟩, ?_, ?_, ?_, ?_⟩
    · exact mul_le_mul_of_nonneg_right hreach.1 hscale.le
    · exact mul_le_mul_of_nonneg_right hhigh hscale.le
    · exact fun heq => hreach.2 (mul_right_cancel₀ hscale.ne' heq)
    · exact fun heq => heven_high (mul_right_cancel₀ hscale.ne' heq)

/-- Every positive number in the range of the doubles rounds to one of them. -/
theorem exists_roundsTo {q : ℚ} (hlow : 2 ^ (-1074 : Int) ≤ q) (hhigh : q < 2 ^ (1023 : Int)) :
    ∃ mantissa exponent, RoundsTo q mantissa exponent := by
  have hpos : 0 < q := (two_zpow_pos _).trans_le hlow
  obtain ⟨top, hge, hlt⟩ := exists_mem_Ico_zpow hpos (by norm_num : (1 : ℚ) < 2)
  have htop : top < 1023 := (zpow_lt_zpow_iff_right₀ (by norm_num)).1 (hge.trans_lt hhigh)
  obtain ⟨unit, hunit⟩ : ∃ unit, unit = max (top - 52) (-1074) := ⟨_, rfl⟩
  obtain ⟨w, rfl⟩ := exists_eq_mul_two_zpow q unit
  have hbits : w < 2 ^ 53 := lt_of_mul_two_zpow_lt hlt (by omega)
  have hfull : (2 : ℚ) ^ 52 ≤ w ∨ unit = -1074 :=
    or_iff_not_imp_right.2 fun hne => le_of_le_mul_two_zpow hge (by omega)
  have hone : 1 ≤ w := by
    rcases hfull with hge | hleast
    · linarith
    · rw [hleast] at hlow
      exact le_of_mul_le_mul_right (by rwa [one_mul]) (two_zpow_pos _)
  obtain ⟨n, hnearest⟩ := exists_isNearest (zero_le_one.trans hone)
  exact hnearest.exists_roundsTo hone hbits hfull (by omega) (by omega)

/-! ## Rounding a mantissa -/

/-- A mantissa and its two further bits tell where a number lies: the first of these bits counts for
a half, and the second says whether anything comes after it. -/
structure Locates (em : ExtendedMantissa) (q : ℚ) : Prop where
  eq : em.stickyBit = false → q = em.mantissa + em.roundBit.toNat / 2
  between : em.stickyBit = true →
    em.mantissa + em.roundBit.toNat / 2 < q ∧ q < em.mantissa + em.roundBit.toNat / 2 + 1 / 2

theorem locates_of_eq {mantissa : Nat} {roundBit : Bool} {q : ℚ}
    (h : q = mantissa + roundBit.toNat / 2) : Locates ⟨mantissa, roundBit, false⟩ q :=
  ⟨fun _ => h, fun hsticky => absurd hsticky Bool.false_ne_true⟩

theorem locates_of_between {mantissa : Nat} {roundBit : Bool} {q : ℚ}
    (hlow : mantissa + roundBit.toNat / 2 < q) (hhigh : q < mantissa + roundBit.toNat / 2 + 1 / 2) :
    Locates ⟨mantissa, roundBit, true⟩ q :=
  ⟨fun hsticky => absurd hsticky.symm Bool.false_ne_true, fun _ => ⟨hlow, hhigh⟩⟩

theorem locates_exact (mantissa : Nat) :
    Locates (.ofMantissaAndAccuracy mantissa .exact) mantissa := by
  apply locates_of_eq
  simp

theorem mantissa_ofMantissaAndAccuracy (mantissa : Nat) (accuracy : Accuracy) :
    (ExtendedMantissa.ofMantissaAndAccuracy mantissa accuracy).mantissa = mantissa := by
  cases accuracy with
  | exact => rfl
  | inexact order => cases order <;> rfl

namespace Locates

variable {em : ExtendedMantissa} {q : ℚ} (h : Locates em q)

include h

theorem bounds : (em.mantissa : ℚ) ≤ q ∧ q < em.mantissa + 1 := by
  have hbit : (0 : ℚ) ≤ em.roundBit.toNat ∧ (em.roundBit.toNat : ℚ) ≤ 1 := by
    cases em.roundBit <;> norm_num
  cases hsticky : em.stickyBit with
  | false =>
    have hq := h.eq hsticky
    constructor <;> linarith
  | true =>
    have hq := h.between hsticky
    constructor <;> linarith

theorem lt_of_bits (hbits : (em.roundBit || em.stickyBit) = true) : (em.mantissa : ℚ) < q := by
  cases hsticky : em.stickyBit with
  | false =>
    have hround : em.roundBit = true := by rwa [hsticky, Bool.or_false] at hbits
    rw [h.eq hsticky, hround]
    norm_num
  | true =>
    have hbit : (0 : ℚ) ≤ em.roundBit.toNat := Nat.cast_nonneg _
    have hlow := (h.between hsticky).1
    linarith

theorem shiftRightOne : Locates em.shiftRightOne (q / 2) := by
  have hparts : (em.mantissa : ℚ) =
      2 * ((em.mantissa / 2 : Nat) + ((em.mantissa % 2 != 0).toNat : ℚ) / 2) := by
    have hbit : (em.mantissa % 2 != 0).toNat = em.mantissa % 2 := by
      rcases Nat.mod_two_eq_zero_or_one em.mantissa with hmod | hmod <;> rw [hmod] <;> rfl
    have hdiv : (em.mantissa : ℚ) = 2 * (em.mantissa / 2 : Nat) + (em.mantissa % 2 : Nat) := by
      exact_mod_cast (Nat.div_add_mod em.mantissa 2).symm
    rw [hbit]
    linarith
  constructor
  · intro hbits
    obtain ⟨hround, hsticky⟩ := Bool.or_eq_false_iff.1 hbits
    have hq : q = em.mantissa := by
      rw [h.eq hsticky, hround]
      norm_num
    simp only [ExtendedMantissa.shiftRightOne]
    linarith
  · intro hbits
    have hlow := h.lt_of_bits hbits
    have hhigh := h.bounds.2
    simp only [ExtendedMantissa.shiftRightOne]
    constructor <;> linarith

theorem shiftRight (n : Nat) : Locates (em >>> n) (q / 2 ^ n) := by
  induction n with
  | zero => simpa [HShiftRight.hShiftRight, Nat.repeat] using h
  | succ n ih =>
    rw [pow_succ, ← div_div]
    exact ih.shiftRightOne

/-- Rounding gives the nearest whole number. -/
theorem roundedMantissa_eq {n : Nat} (hn : IsNearest q n) : em.roundedMantissa = n := by
  obtain ⟨hle, hlt⟩ := h.bounds
  obtain ⟨heq, hbetween⟩ := h
  obtain ⟨mantissa, roundBit, stickyBit⟩ := em
  have hn_eq : n = mantissa ∨ n = mantissa + 1 := hn.eq_or_eq_succ hle hlt
  obtain ⟨hlow, hhigh, heven_low, heven_high⟩ := hn
  cases roundBit with
  | false =>
    -- below the half, rounding goes down
    have hq : q < mantissa + 1 / 2 := by
      cases stickyBit with
      | false =>
        have hq := heq rfl
        norm_num at hq
        linarith
      | true =>
        have hq := (hbetween rfl).2
        norm_num at hq
        linarith
    have hrounded : ExtendedMantissa.roundedMantissa ⟨mantissa, false, stickyBit⟩ = mantissa := by
      cases stickyBit <;> rfl
    rcases hn_eq with rfl | rfl
    · exact hrounded
    · push_cast at hlow
      linarith
  | true =>
    cases stickyBit with
    | false =>
      -- at the half, it goes to the even neighbour
      have hq := heq rfl
      norm_num at hq
      show mantissa + mantissa % 2 = n
      rcases hn_eq with rfl | rfl
      · have heven := heven_high (by linarith)
        omega
      · have heven := heven_low (by push_cast; linarith)
        omega
    | true =>
      -- above it, it goes up
      have hq := (hbetween rfl).1
      norm_num at hq
      show mantissa + 1 = n
      rcases hn_eq with rfl | rfl
      · linarith
      · rfl

end Locates

/-! ## Rounding to a double -/

/-- The exponent to which a mantissa is brought. -/
theorem targetExponent_eq (mantissa : Nat) (exponent : Int) :
    Format.binary64.targetExponent (totalExponent mantissa exponent) =
      max (mantissa.log2 + exponent - 52) (-1074) := by
  have htarget : Format.binary64.targetExponent (totalExponent mantissa exponent) =
      max ((mantissa.log2 : Int) + 1 + exponent - 53) (-1074) := rfl
  rw [htarget]
  congr 1
  omega

theorem Canonical.targetExponent_eq {mantissa : Nat} {exponent : Int}
    (h : Canonical mantissa exponent) :
    Format.binary64.targetExponent (totalExponent mantissa exponent) = exponent := by
  have hlog : mantissa.log2 < 53 := (Nat.log2_lt h.pos.ne').2 h.lt
  have hleast := h.least
  rw [Number.targetExponent_eq]
  rcases h.full with hfull | hfull
  · have hge := (Nat.le_log2 h.pos.ne').2 hfull
    omega
  · omega

/-- Where a number lies after its mantissa has been brought to the exponent of a double. -/
theorem locates_shiftToTargetExponent {mantissa : Nat} {exponent : Int} {accuracy : Accuracy}
    {q : ℚ} (h : Locates (.ofMantissaAndAccuracy mantissa accuracy) q)
    (hexponent : exponent ≤ Format.binary64.targetExponent (totalExponent mantissa exponent)) :
    (shiftToTargetExponent Format.binary64 mantissa exponent accuracy).2 =
        Format.binary64.targetExponent (totalExponent mantissa exponent) ∧
      Locates (shiftToTargetExponent Format.binary64 mantissa exponent accuracy).1
        (q * 2 ^ exponent /
          2 ^ Format.binary64.targetExponent (totalExponent mantissa exponent)) := by
  generalize htarget :
    Format.binary64.targetExponent (totalExponent mantissa exponent) = target at *
  obtain ⟨steps, rfl⟩ : ∃ steps : Nat, target = exponent + steps :=
    ⟨(target - exponent).toNat, by omega⟩
  have hsteps : (exponent + steps - exponent).toNat = steps := by omega
  simp only [shiftToTargetExponent, shiftToExponent, htarget, hsteps]
  refine ⟨trivial, ?_⟩
  rw [two_zpow_add, zpow_natCast, mul_comm q, mul_div_mul_left _ _ (two_zpow_pos exponent).ne']
  exact h.shiftRight steps

/-- A mantissa of a double stays as it is. -/
theorem Canonical.shiftToTargetExponent_eq {mantissa : Nat} {exponent : Int}
    (h : Canonical mantissa exponent) :
    shiftToTargetExponent Format.binary64 mantissa exponent .exact =
      (.ofMantissaAndAccuracy mantissa .exact, exponent) := by
  simp [shiftToTargetExponent, shiftToExponent, h.targetExponent_eq, HShiftRight.hShiftRight,
    Nat.repeat]

/-- A mantissa that has got one bit too many loses it. -/
theorem shiftToTargetExponent_carry {exponent : Int} (h : -1074 ≤ exponent) :
    shiftToTargetExponent Format.binary64 (2 ^ 53) exponent .exact =
      (.ofMantissaAndAccuracy (2 ^ 52) .exact, exponent + 1) := by
  have htarget :
      Format.binary64.targetExponent (totalExponent (2 ^ 53) exponent) = exponent + 1 := by
    rw [targetExponent_eq, Nat.log2_two_pow]
    omega
  simp only [shiftToTargetExponent, shiftToExponent, htarget, add_sub_cancel_left]
  rfl

/-- Where the number lies before its unit. -/
theorem bounds_targetExponent {mantissa : Nat} {exponent : Int} {q : ℚ} (hlow : (mantissa : ℚ) ≤ q)
    (hhigh : q < mantissa + 1)
    (hexponent : exponent ≤ Format.binary64.targetExponent (totalExponent mantissa exponent)) :
    q * 2 ^ exponent <
        2 ^ (Format.binary64.targetExponent (totalExponent mantissa exponent) + 53) ∧
      (Format.binary64.targetExponent (totalExponent mantissa exponent) = -1074 ∨
        2 ^ (Format.binary64.targetExponent (totalExponent mantissa exponent) + 52) ≤
          q * 2 ^ exponent) := by
  rw [targetExponent_eq] at *
  have hunit := two_zpow_pos exponent
  constructor
  · have hlog : (mantissa + 1 : ℚ) ≤ 2 ^ (mantissa.log2 + 1) := by
      exact_mod_cast Nat.lt_log2_self
    calc q * 2 ^ exponent
        < 2 ^ (mantissa.log2 + 1) * 2 ^ exponent :=
          mul_lt_mul_of_pos_right (hhigh.trans_le hlog) hunit
      _ = 2 ^ ((mantissa.log2 + 1 : Nat) + exponent) := by rw [two_zpow_add, zpow_natCast]
      _ ≤ _ := zpow_le_zpow_right₀ (by norm_num) (by push_cast; omega)
  · by_cases hleast : max ((mantissa.log2 : Int) + exponent - 52) (-1074) = -1074
    · exact Or.inl hleast
    · right
      have hne : mantissa ≠ 0 := by
        rintro rfl
        rw [Nat.log2_zero] at *
        omega
      have hlog : (2 : ℚ) ^ mantissa.log2 ≤ q := by
        refine le_trans ?_ hlow
        exact_mod_cast Nat.log2_self_le hne
      calc (2 : ℚ) ^ (max ((mantissa.log2 : Int) + exponent - 52) (-1074) + 52)
          = 2 ^ ((mantissa.log2 : Int) + exponent) := by
            congr 1
            omega
        _ = 2 ^ mantissa.log2 * 2 ^ exponent := by rw [two_zpow_add, zpow_natCast]
        _ ≤ q * 2 ^ exponent := by gcongr

/-- The result of rounding is the double to which the number rounds. -/
theorem roundWithAccuracy_eq {mantissa : Nat} {exponent : Int} {accuracy : Accuracy} {q : ℚ}
    (h : Locates (.ofMantissaAndAccuracy mantissa accuracy) q)
    (hexponent : exponent ≤ Format.binary64.targetExponent (totalExponent mantissa exponent))
    {rounded : Nat} {unit : Int} (hrounds : RoundsTo (q * 2 ^ exponent) rounded unit)
    (sign : Sign) :
    roundWithAccuracy Format.binary64 sign mantissa exponent accuracy =
      .finite sign rounded unit hrounds.canonical.pos := by
  obtain ⟨hlow, hhigh⟩ := h.bounds
  rw [mantissa_ofMantissaAndAccuracy] at hlow hhigh
  obtain ⟨hupper, hlower⟩ := bounds_targetExponent hlow hhigh hexponent
  obtain ⟨hunit, hlocates⟩ := locates_shiftToTargetExponent h hexponent
  have hleast : -1074 ≤ Format.binary64.targetExponent (totalExponent mantissa exponent) := by
    rw [targetExponent_eq]
    exact le_max_right _ _
  generalize Format.binary64.targetExponent (totalExponent mantissa exponent) = target at *
  have hagain : shiftToTargetExponent Format.binary64
      (shiftToTargetExponent Format.binary64 mantissa exponent accuracy).1.roundedMantissa target
        .exact = (.ofMantissaAndAccuracy rounded .exact, unit) := by
    rcases hrounds.cases hleast hupper hlower with ⟨rfl, hnearest⟩ | ⟨rfl, rfl, hnearest⟩
    · rw [hlocates.roundedMantissa_eq hnearest]
      exact hrounds.canonical.shiftToTargetExponent_eq
    · rw [hlocates.roundedMantissa_eq hnearest, shiftToTargetExponent_carry hleast, sub_add_cancel]
  simp only [roundWithAccuracy, hunit, hagain]
  exact dif_neg hrounds.canonical.pos.ne'

theorem log2_shiftLeft {n : Nat} (hne : n ≠ 0) (steps : Nat) :
    (n <<< steps).log2 = n.log2 + steps := by
  induction steps with
  | zero => rfl
  | succ steps ih =>
    have hshift : n <<< (steps + 1) = 2 * n <<< steps := by
      rw [Nat.shiftLeft_succ]
    have hne' : n <<< steps ≠ 0 := by
      rw [Nat.shiftLeft_eq]
      positivity
    rw [hshift, Nat.log2_two_mul hne', ih, Nat.add_assoc]

/-- A number in units that need not be fine enough is rounded in the same way. -/
theorem round_eq {mantissa : Nat} {exponent : Int} (hne : mantissa ≠ 0) {rounded : Nat} {unit : Int}
    (hrounds : RoundsTo (mantissa * 2 ^ exponent) rounded unit) (sign : Sign) :
    UnpackedFloat.round Format.binary64 sign mantissa exponent =
      .finite sign rounded unit hrounds.canonical.pos := by
  generalize htarget : Format.binary64.targetExponent (totalExponent mantissa exponent) = target
  obtain ⟨steps, hsteps⟩ : ∃ steps, (exponent - target).toNat = steps := ⟨_, rfl⟩
  have hexponent : exponent - steps ≤
      Format.binary64.targetExponent (totalExponent (mantissa <<< steps) (exponent - steps)) := by
    rw [targetExponent_eq, log2_shiftLeft hne]
    rw [targetExponent_eq] at htarget
    push_cast
    omega
  have hvalue : ((mantissa <<< steps : Nat) : ℚ) * 2 ^ (exponent - steps) =
      mantissa * 2 ^ exponent := by
    rw [Nat.shiftLeft_eq, zpow_sub₀ (by norm_num), zpow_natCast]
    push_cast
    field_simp
  rw [← hvalue] at hrounds
  simp only [UnpackedFloat.round, decreaseExponent, htarget, hsteps]
  exact roundWithAccuracy_eq (locates_exact _) hexponent hrounds sign

theorem normalize_eq {mantissa : Int} {exponent : Int} (hne : mantissa ≠ 0) {rounded : Nat}
    {unit : Int} (hrounds : RoundsTo (mantissa.natAbs * 2 ^ exponent) rounded unit)
    (zeroSign : Sign) :
    UnpackedFloat.normalize Format.binary64 mantissa exponent zeroSign =
      .finite (signOf (decide (mantissa < 0))) rounded unit hrounds.canonical.pos := by
  have hne' : mantissa.natAbs ≠ 0 := Int.natAbs_ne_zero.2 hne
  rcases lt_or_gt_of_ne hne with hneg | hpos
  · have hcompare : compare mantissa 0 = .lt := compare_lt_iff_lt.2 hneg
    have habs : (-mantissa).toNat = mantissa.natAbs := by omega
    rw [UnpackedFloat.normalize, hcompare, habs, decide_eq_true hneg]
    exact round_eq hne' hrounds _
  · have hcompare : compare mantissa 0 = .gt := compare_gt_iff_gt.2 hpos
    have habs : mantissa.toNat = mantissa.natAbs := by omega
    rw [UnpackedFloat.normalize, hcompare, habs, decide_eq_false hpos.not_gt]
    exact round_eq hne' hrounds _

end Drawscript.Number
