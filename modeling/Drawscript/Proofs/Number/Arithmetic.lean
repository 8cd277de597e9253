import Drawscript.Proofs.Number.Rounding

/-!
# Exact arithmetic of doubles

The product and the quotient of two doubles are the doubles to which the product and the quotient of
the numbers round (`exact_mul`, `exact_div`). So a sum, a difference, a product or a quotient that
is itself a double is exact (`rational?_add`, `rational?_sub`, `rational?_mul`, `rational?_div`).
-/

set_option autoImplicit false

namespace Drawscript.Number

open Float.Model Float.Model.UnpackedFloat

/-! ## The numbers that are doubles -/

/-- Some double stands for the number. -/
def IsDouble (q : ℚ) : Prop :=
  ∃ x, rational? x = some q

theorem signed_zero (negative : Bool) : signed negative 0 = 0 := by
  cases negative <;> rfl

theorem signed_eq_mul (negative : Bool) (n : Nat) :
    (signed negative n : ℚ) = signed negative 1 * n := by
  cases negative <;> simp [signed]

theorem abs_signed_one (negative : Bool) : |(signed negative 1 : ℚ)| = 1 := by
  cases negative <;> norm_num [signed]

theorem abs_signed_mul (negative : Bool) (mantissa : Nat) (exponent : Int) :
    |(signed negative mantissa : ℚ) * 2 ^ exponent| = mantissa * 2 ^ exponent := by
  rw [signed_eq_mul, mul_assoc, abs_mul, abs_signed_one, one_mul]
  exact abs_of_nonneg (mul_nonneg (Nat.cast_nonneg _) (two_zpow_pos exponent).le)

/-- A double other than zero has a canonical mantissa and exponent. -/
theorem IsDouble.exists_canonical {q : ℚ} (h : IsDouble q) (hq : q ≠ 0) :
    ∃ mantissa exponent, Canonical mantissa exponent ∧ |q| = mantissa * 2 ^ exponent := by
  obtain ⟨x, hx⟩ := h
  obtain ⟨negative, mantissa, exponent, hexact, rfl⟩ := exists_exact_of_rational? hx
  refine ⟨mantissa, exponent, (of_exact_eq_finite hexact).2.resolve_left ?_, abs_signed_mul _ _ _⟩
  rintro ⟨rfl, -⟩
  apply hq
  rw [signed_zero, Int.cast_zero, zero_mul]

theorem cast_eq_signed_mul (n : Int) :
    (n : ℚ) = signed (decide (n < 0)) 1 * n.natAbs := by
  rw [← signed_eq_mul, Int.cast_inj, signed]
  split_ifs with hneg
  · have := of_decide_eq_true hneg
    omega
  · have := of_decide_eq_false (Bool.not_eq_true _ ▸ hneg)
    omega

theorem Canonical.isDouble {mantissa : Nat} {exponent : Int} (h : Canonical mantissa exponent)
    (negative : Bool) : IsDouble (signed negative 1 * (mantissa * 2 ^ exponent)) := by
  refine ⟨.ofModel (.pack (.finite (signOf negative) mantissa exponent h.pos)), ?_⟩
  rw [rational?_of_exact (exact_pack h negative h.pos), signed_eq_mul, mul_assoc]

/-- A positive double. -/
theorem exists_canonical_of_rational? {x : Float} {q : ℚ} (h : rational? x = some q) (hq : 0 < q) :
    ∃ mantissa exponent, Canonical mantissa exponent ∧ exact x = .finite false mantissa exponent ∧
      q = mantissa * 2 ^ exponent := by
  obtain ⟨negative, mantissa, exponent, hexact, rfl⟩ := exists_exact_of_rational? h
  have hunit := two_zpow_pos exponent
  cases negative with
  | true =>
    have hneg : -((mantissa : ℚ) * 2 ^ exponent) ≤ 0 := by
      rw [neg_nonpos]
      positivity
    simp only [signed, if_true, Int.cast_neg, Int.cast_natCast, neg_mul] at hq
    exact absurd hq hneg.not_gt
  | false =>
    refine ⟨mantissa, exponent, (of_exact_eq_finite hexact).2.resolve_left ?_, hexact, rfl⟩
    rintro ⟨rfl, -⟩
    rw [signed_zero, Int.cast_zero, zero_mul] at hq
    exact lt_irrefl _ hq

/-- A multiple of a power of two that has 53 bits is a double. -/
theorem exists_canonical_of_lt_mul {n : Nat} (unit : Int) (hne : n ≠ 0) (hlt : n < 2 ^ 53)
    (hleast : -1074 ≤ unit) (hlargest : unit ≤ 971) :
    ∃ mantissa exponent, Canonical mantissa exponent ∧
      (n : ℚ) * 2 ^ unit = mantissa * 2 ^ exponent := by
  have hlog : n.log2 < 53 := (Nat.log2_lt hne).2 hlt
  -- shift the first bit to its place, or as far as the least exponent allows
  obtain ⟨steps, hsteps, hexponent, hfull⟩ : ∃ steps : Nat, n.log2 + steps ≤ 52 ∧
      -1074 ≤ unit - steps ∧ (n.log2 + steps = 52 ∨ unit - steps = -1074) :=
    ⟨min (52 - n.log2) (unit + 1074).toNat, by omega, by omega, by omega⟩
  refine ⟨n * 2 ^ steps, unit - steps, ⟨by positivity, ?_, hexponent, by omega, ?_⟩, ?_⟩
  · calc n * 2 ^ steps < 2 ^ (n.log2 + 1) * 2 ^ steps :=
          Nat.mul_lt_mul_of_pos_right Nat.lt_log2_self (by positivity)
      _ = 2 ^ (n.log2 + 1 + steps) := (pow_add _ _ _).symm
      _ ≤ 2 ^ 53 := Nat.pow_le_pow_right (by norm_num) (by omega)
  · refine hfull.imp_left fun hbits => ?_
    calc 2 ^ 52 = 2 ^ n.log2 * 2 ^ steps := by rw [← pow_add, hbits]
      _ ≤ n * 2 ^ steps := Nat.mul_le_mul_right _ (Nat.log2_self_le hne)
  · rw [sub_eq_add_neg, two_zpow_add, zpow_neg, zpow_natCast]
    push_cast
    field_simp

/-- A whole number below `2 ^ 53` is a double. -/
theorem exists_canonical_of_lt {n : Nat} (hne : n ≠ 0) (hlt : n < 2 ^ 53) :
    ∃ mantissa exponent, Canonical mantissa exponent ∧ (n : ℚ) = mantissa * 2 ^ exponent := by
  have hmultiple := exists_canonical_of_lt_mul 0 hne hlt (by norm_num) (by norm_num)
  rwa [zpow_zero, mul_one] at hmultiple

/-- A result that is rounded correctly is exact if it can be. -/
theorem rational?_of_roundsTo {x : Float} {negative : Bool} {q magnitude : ℚ}
    (hq : q = signed negative 1 * magnitude) (hpos : 0 < magnitude) (hdouble : IsDouble q)
    (hx : ∀ {mantissa exponent}, RoundsTo magnitude mantissa exponent →
      exact x = .finite negative mantissa exponent) : rational? x = some q := by
  have habs : |q| = magnitude := by
    rw [hq, abs_mul, abs_signed_one, one_mul, abs_of_pos hpos]
  have hne : q ≠ 0 := by
    rw [← abs_pos, habs]
    exact hpos
  obtain ⟨mantissa, exponent, hcanonical, hvalue⟩ := hdouble.exists_canonical hne
  have hmagnitude : magnitude = mantissa * 2 ^ exponent := habs.symm.trans hvalue
  have hrounds : RoundsTo magnitude mantissa exponent := hmagnitude ▸ hcanonical.roundsTo
  rw [rational?_of_exact (hx hrounds), hq, signed_eq_mul, mul_assoc, ← hmagnitude]

theorem rational?_packZero (sign : Sign) :
    rational? (.ofModel (.pack (.zero sign))) = some 0 := by
  obtain ⟨negative, rfl⟩ := exists_signOf sign
  rw [rational?_of_exact (exact_packZero negative), signed_zero, Int.cast_zero, zero_mul]

theorem Canonical.rational_pos {mantissa : Nat} {exponent : Int} (h : Canonical mantissa exponent) :
    (0 : ℚ) < mantissa * 2 ^ exponent :=
  mul_pos (Nat.cast_pos.2 h.pos) (two_zpow_pos exponent)

/-! ## Sums and differences -/

/-- Normalizing loses nothing of a number that is a double. -/
theorem rational?_normalize {mantissa exponent : Int} {q : ℚ} (hq : mantissa * 2 ^ exponent = q)
    (hdouble : IsDouble q) (zeroSign : Sign) :
    rational? (.ofModel (.pack (UnpackedFloat.normalize Format.binary64 mantissa exponent
      zeroSign))) = some q := by
  by_cases hzero : mantissa = 0
  · have hnormalize :
        UnpackedFloat.normalize Format.binary64 0 exponent zeroSign = .zero zeroSign := rfl
    rw [hzero, hnormalize, rational?_packZero, ← hq, hzero, Int.cast_zero, zero_mul]
  · have hpos : (0 : ℚ) < mantissa.natAbs * 2 ^ exponent :=
      mul_pos (Nat.cast_pos.2 (Int.natAbs_pos.2 hzero)) (two_zpow_pos exponent)
    have hvalue : q = signed (decide (mantissa < 0)) 1 * (mantissa.natAbs * 2 ^ exponent) := by
      rw [← hq, ← mul_assoc, ← cast_eq_signed_mul]
    refine rational?_of_roundsTo hvalue hpos hdouble fun hrounds => ?_
    rw [normalize_eq hzero hrounds]
    exact exact_pack hrounds.canonical _ _

theorem cast_apply_signOf (negative : Bool) (n : Nat) :
    (signOf negative).apply (n : Int) = signed negative n := by
  cases negative <;> rfl

/-- The mantissa for a smaller exponent. -/
theorem decreaseExponent_mul {mantissa : Nat} {exponent least : Int} (h : least ≤ exponent) :
    ((decreaseExponent mantissa exponent least).1 : ℚ) * 2 ^ least = mantissa * 2 ^ exponent := by
  obtain ⟨steps, rfl⟩ : ∃ steps : Nat, exponent = least + steps :=
    ⟨(exponent - least).toNat, by omega⟩
  have hsteps : (least + steps - least).toNat = steps := by omega
  simp only [decreaseExponent, hsteps, Nat.shiftLeft_eq]
  rw [two_zpow_add, zpow_natCast]
  push_cast
  ring

theorem signed_mul_eq {n n' : Nat} {unit unit' : ℚ} (h : (n : ℚ) * unit = n' * unit')
    (negative : Bool) : (signed negative n : ℚ) * unit = signed negative n' * unit' := by
  cases negative with
  | false => exact h
  | true =>
    simp only [signed, if_true, Int.cast_neg, Int.cast_natCast, neg_mul]
    rw [h]

section

variable {x y : Float} {p q : ℚ} (hx : rational? x = some p) (hy : rational? y = some q)

include hx hy

/-- Addition is exact where the sum is a double, and so are the other operations below. -/
theorem rational?_add (h : IsDouble (p + q)) : rational? (x + y) = some (p + q) := by
  obtain ⟨negative, mantissa, exponent, hexact, rfl⟩ := exists_exact_of_rational? hx
  obtain ⟨negative', mantissa', exponent', hexact', rfl⟩ := exists_exact_of_rational? hy
  show rational? (.ofModel (.pack (UnpackedFloat.add Format.binary64 x.toModel.unpack
    y.toModel.unpack))) = _
  rcases unpack_of_exact hexact with ⟨rfl, -, hunpack⟩ | ⟨hcanonical, hunpack⟩ <;>
    rcases unpack_of_exact hexact' with ⟨rfl, -, hunpack'⟩ | ⟨hcanonical', hunpack'⟩ <;>
    rw [hunpack, hunpack']
  · rw [signed_zero, signed_zero, Int.cast_zero, zero_mul, zero_mul, add_zero, UnpackedFloat.add]
    split_ifs <;> exact rational?_packZero _
  · rw [signed_zero, Int.cast_zero, zero_mul, zero_add]
    exact rational?_of_exact (exact_pack hcanonical' negative' hcanonical'.pos)
  · rw [signed_zero, Int.cast_zero, zero_mul, add_zero]
    exact rational?_of_exact (exact_pack hcanonical negative hcanonical.pos)
  · refine rational?_normalize ?_ h _
    rw [cast_apply_signOf, cast_apply_signOf, Int.cast_add, add_mul]
    congr 1
    · exact signed_mul_eq (decreaseExponent_mul (min_le_left _ _)) negative
    · exact signed_mul_eq (decreaseExponent_mul (min_le_right _ _)) negative'

end

theorem signed_not (negative : Bool) (n : Nat) : signed (!negative) n = -signed negative n := by
  cases negative <;> simp [signed]

theorem rational?_neg {x : Float} {q : ℚ} (h : rational? x = some q) :
    rational? (-x) = some (-q) := by
  obtain ⟨negative, mantissa, exponent, hexact, rfl⟩ := exists_exact_of_rational? h
  rw [rational?_of_exact (exact_neg hexact), signed_not, Int.cast_neg, neg_mul]

/-- To subtract is to add the negation. -/
theorem sub_eq_add_neg_of_exact (x : Float) {y : Float} {negative : Bool} {mantissa : Nat}
    {exponent : Int} (hy : exact y = .finite negative mantissa exponent) : x - y = x + -y := by
  show Float.ofModel (.pack (UnpackedFloat.sub Format.binary64 x.toModel.unpack y.toModel.unpack)) =
    .ofModel (.pack (UnpackedFloat.add Format.binary64 x.toModel.unpack (-y).toModel.unpack))
  congr 2
  rcases unpack_of_exact hy with ⟨rfl, -, hunpack⟩ | ⟨hcanonical, hunpack⟩
  · rw [hunpack, unpack_eq_zero (exact_neg hy), ← neg_signOf]
    cases x.toModel.unpack <;> rfl
  · rw [hunpack, hcanonical.unpack_eq (exact_neg hy)]
    cases x.toModel.unpack with
    | notANumber => rfl
    | infinity sign => rfl
    | zero sign => simp only [UnpackedFloat.sub, UnpackedFloat.add, neg_signOf]
    | finite sign mantissa' exponent' hpos =>
      simp only [UnpackedFloat.sub, UnpackedFloat.add, cast_apply_signOf, signed_not,
        sub_eq_add_neg]

/-- To subtract from zero negates, zero apart. -/
theorem zero_sub_of_exact {y : Float} {negative : Bool} {mantissa : Nat} {exponent : Int}
    (hcanonical : Canonical mantissa exponent) (hy : exact y = .finite negative mantissa exponent) :
    0 - y = -y := by
  have hzero : exact (0 : Float) = .finite false 0 (-1074) := by decide +kernel
  rw [sub_eq_add_neg_of_exact 0 hy]
  apply eq_of_exact_eq _ (exact_neg hy)
  show exact (.ofModel (.pack (UnpackedFloat.add Format.binary64 (0 : Float).toModel.unpack
    (-y).toModel.unpack))) = _
  rw [unpack_eq_zero hzero, hcanonical.unpack_eq (exact_neg hy)]
  exact exact_pack hcanonical _ hcanonical.pos

section

variable {x y : Float} {p q : ℚ} (hx : rational? x = some p) (hy : rational? y = some q)

include hx hy

theorem rational?_sub (h : IsDouble (p - q)) : rational? (x - y) = some (p - q) := by
  obtain ⟨negative, mantissa, exponent, hexact, -⟩ := exists_exact_of_rational? hy
  rw [sub_eq_add_neg] at h
  rw [sub_eq_add_neg_of_exact x hexact, sub_eq_add_neg]
  exact rational?_add hx (rational?_neg hy) h

end

/-! ## Products and quotients -/

theorem mul_signOf (negative negative' : Bool) :
    signOf negative * signOf negative' = signOf (negative != negative') := by
  cases negative <;> cases negative' <;> rfl

theorem div_signOf (negative negative' : Bool) :
    signOf negative / signOf negative' = signOf (negative != negative') := by
  cases negative <;> cases negative' <;> rfl

section

variable {mantissa mantissa' : Nat} {exponent exponent' : Int} {rounded : Nat} {unit : Int}

/-- A product is rounded once, if the unit is fine enough. -/
theorem mul_eq (hpos : 0 < mantissa) (hpos' : 0 < mantissa')
    (hexponent : exponent + exponent' ≤ Format.binary64.targetExponent
      (totalExponent (mantissa * mantissa') (exponent + exponent')))
    (h : RoundsTo (mantissa * 2 ^ exponent * (mantissa' * 2 ^ exponent')) rounded unit)
    (sign sign' : Sign) :
    UnpackedFloat.mul Format.binary64 (.finite sign mantissa exponent hpos)
      (.finite sign' mantissa' exponent' hpos') =
        .finite (sign * sign') rounded unit h.canonical.pos := by
  have hvalue : (mantissa : ℚ) * 2 ^ exponent * (mantissa' * 2 ^ exponent') =
      (mantissa * mantissa' : Nat) * 2 ^ (exponent + exponent') := by
    rw [two_zpow_add]
    push_cast
    ring
  rw [hvalue] at h
  exact roundWithAccuracy_eq (locates_exact _) hexponent h _

/-- Two mantissas of doubles together have enough bits, or their unit is fine enough. -/
theorem le_targetExponent_mul (h : Canonical mantissa exponent)
    (h' : Canonical mantissa' exponent') :
    exponent + exponent' ≤ Format.binary64.targetExponent
      (totalExponent (mantissa * mantissa') (exponent + exponent')) := by
  rw [targetExponent_eq]
  have hleast := h.least
  by_cases hfull : 2 ^ 52 ≤ mantissa * mantissa'
  · have hlog := (Nat.le_log2 (Nat.mul_pos h.pos h'.pos).ne').2 hfull
    omega
  · have hpartial : ¬2 ^ 52 ≤ mantissa := fun hge =>
      hfull (hge.trans (Nat.le_mul_of_pos_right mantissa h'.pos))
    have hpartial' : ¬2 ^ 52 ≤ mantissa' := fun hge =>
      hfull (hge.trans (Nat.le_mul_of_pos_left mantissa' h.pos))
    have hexponent := h.full.resolve_left hpartial
    have hexponent' := h'.full.resolve_left hpartial'
    omega

end

/-- A remainder tells where a quotient lies. -/
theorem locates_accuracyOfFraction (mantissa : Nat) {num den : Nat} (h : num < den) :
    Locates (.ofMantissaAndAccuracy mantissa (accuracyOfFraction num den))
      (mantissa + num / den) := by
  have hden : (0 : ℚ) < den := Nat.cast_pos.2 (by omega)
  have hlt : (num : ℚ) / den < 1 := (div_lt_one hden).2 (Nat.cast_lt.2 h)
  rw [accuracyOfFraction]
  split_ifs with hzero
  · rw [hzero, Nat.cast_zero, zero_div, add_zero]
    exact locates_exact mantissa
  · have hpos : (0 : ℚ) < num / den := div_pos (Nat.cast_pos.2 (by omega)) hden
    rcases lt_trichotomy (2 * num) den with hless | heq | hmore
    · rw [compare_lt_iff_lt.2 hless]
      have hless : (2 * num : ℚ) < den := by exact_mod_cast hless
      have hhalf : (num : ℚ) / den < 1 / 2 := (div_lt_iff₀ hden).2 (by linarith)
      apply locates_of_between
      · simpa using hpos
      · simpa using hhalf
    · rw [compare_eq_iff_eq.2 heq]
      have heq : (2 * num : ℚ) = den := by exact_mod_cast heq
      have hhalf : (num : ℚ) / den = 1 / 2 := (div_eq_iff hden.ne').2 (by linarith)
      apply locates_of_eq
      rw [hhalf]
      simp
    · rw [compare_gt_iff_gt.2 hmore]
      have hmore : (den : ℚ) < 2 * num := by exact_mod_cast hmore
      have hhalf : 1 / 2 < (num : ℚ) / den := (lt_div_iff₀ hden).2 (by linarith)
      apply locates_of_between
      · simpa using hhalf
      · rw [Bool.toNat_true, Nat.cast_one]
        linarith

section

variable {mantissa mantissa' : Nat} {exponent exponent' : Int} {rounded : Nat} {unit : Int}

/-- The bits of a quotient. -/
theorem sub_le_log2_div {n m : Nat} (hn : n ≠ 0) (hm : m ≠ 0) (h : m.log2 < n.log2) :
    n.log2 - m.log2 - 1 ≤ (n / m).log2 := by
  have hle : 2 ^ (n.log2 - m.log2 - 1) ≤ n / m := by
    rw [Nat.le_div_iff_mul_le (Nat.pos_of_ne_zero hm)]
    calc 2 ^ (n.log2 - m.log2 - 1) * m
        ≤ 2 ^ (n.log2 - m.log2 - 1) * 2 ^ (m.log2 + 1) :=
          Nat.mul_le_mul_left _ Nat.lt_log2_self.le
      _ = 2 ^ n.log2 := by
          rw [← pow_add]
          congr 1
          omega
      _ ≤ n := Nat.log2_self_le hn
  exact (Nat.le_log2 (Nat.pos_iff_ne_zero.1 (Nat.one_le_two_pow.trans hle))).2 hle

/-- A quotient of doubles in units of `2 ^ target`, with whole part and remainder. -/
theorem div_eq_quotient (mantissa : Nat) (hpos' : 0 < mantissa') {steps : Nat} {target : Int}
    (hsteps : exponent = exponent' + target + steps) :
    (mantissa : ℚ) * 2 ^ exponent / (mantissa' * 2 ^ exponent') =
      ((mantissa <<< steps / mantissa' : Nat) +
        (mantissa <<< steps % mantissa' : Nat) / mantissa') * 2 ^ target := by
  have hdivided : ((mantissa * 2 ^ steps : Nat) : ℚ) =
      mantissa' * (mantissa * 2 ^ steps / mantissa' : Nat) +
        (mantissa * 2 ^ steps % mantissa' : Nat) := by
    exact_mod_cast (Nat.div_add_mod (mantissa * 2 ^ steps) mantissa').symm
  have hne : (mantissa' : ℚ) ≠ 0 := Nat.cast_ne_zero.2 hpos'.ne'
  have hunit := (two_zpow_pos exponent').ne'
  rw [Nat.shiftLeft_eq, hsteps, two_zpow_add, two_zpow_add, zpow_natCast]
  push_cast at hdivided ⊢
  field_simp
  rw [← hdivided]

/-- The whole part of the quotient has enough bits, so that rounding only drops some. -/
theorem le_targetExponent_quotient (hpos : 0 < mantissa) (hpos' : 0 < mantissa') {steps : Nat}
    {target : Int} (hsteps : exponent = exponent' + target + steps)
    (htarget : target ≤
      max (mantissa.log2 + 1 + exponent - (mantissa'.log2 + 1 + exponent') - 53) (-1074)) :
    target ≤ Format.binary64.targetExponent
      (totalExponent (mantissa <<< steps / mantissa') target) := by
  rw [targetExponent_eq]
  by_cases hleast : target ≤ -1074
  · exact hleast.trans (le_max_right _ _)
  · have hlog := log2_shiftLeft hpos.ne' steps
    have hne : mantissa <<< steps ≠ 0 := by
      rw [Nat.shiftLeft_eq]
      positivity
    have hquotient := sub_le_log2_div hne hpos'.ne' (by omega)
    omega

/-- A quotient is rounded once. -/
theorem div_eq (hpos : 0 < mantissa) (hpos' : 0 < mantissa')
    (h : RoundsTo (mantissa * 2 ^ exponent / (mantissa' * 2 ^ exponent')) rounded unit)
    (sign sign' : Sign) :
    UnpackedFloat.div Format.binary64 (.finite sign mantissa exponent hpos)
      (.finite sign' mantissa' exponent' hpos') =
        .finite (sign / sign') rounded unit h.canonical.pos := by
  have hbits : Format.binary64.targetExponent
      (totalExponent mantissa exponent - totalExponent mantissa' exponent') =
        max (mantissa.log2 + 1 + exponent - (mantissa'.log2 + 1 + exponent') - 53) (-1074) := rfl
  generalize htarget : min (exponent - exponent') (Format.binary64.targetExponent
    (totalExponent mantissa exponent - totalExponent mantissa' exponent')) = target
  rw [hbits] at htarget
  obtain ⟨steps, hsteps⟩ : ∃ steps : Nat, exponent = exponent' + target + steps :=
    ⟨(exponent - exponent' - target).toNat, by omega⟩
  have hshift : (exponent - exponent' - target).toNat = steps := by omega
  have hlocates := locates_accuracyOfFraction (mantissa <<< steps / mantissa')
    (Nat.mod_lt (mantissa <<< steps) hpos')
  have hexponent := le_targetExponent_quotient hpos hpos' hsteps (by omega)
  rw [div_eq_quotient mantissa hpos' hsteps] at h
  simp only [UnpackedFloat.div, divCore, hbits, htarget, hshift]
  exact roundWithAccuracy_eq hlocates hexponent h _

end

section

variable {x y : Float} {negative negative' : Bool} {mantissa mantissa' : Nat}
  {exponent exponent' : Int} (hcanonical : Canonical mantissa exponent)
  (hcanonical' : Canonical mantissa' exponent')
  (hx : exact x = .finite negative mantissa exponent)
  (hy : exact y = .finite negative' mantissa' exponent') {rounded : Nat} {unit : Int}

include hcanonical hcanonical' hx hy

/-- The product of two doubles is the double to which the product of the numbers rounds. -/
theorem exact_mul
    (h : RoundsTo (mantissa * 2 ^ exponent * (mantissa' * 2 ^ exponent')) rounded unit) :
    exact (x * y) = .finite (negative != negative') rounded unit := by
  show exact (.ofModel (.pack (UnpackedFloat.mul Format.binary64 x.toModel.unpack
    y.toModel.unpack))) = _
  rw [hcanonical.unpack_eq hx, hcanonical'.unpack_eq hy,
    mul_eq _ _ (le_targetExponent_mul hcanonical hcanonical') h, mul_signOf]
  exact exact_pack h.canonical _ _

/-- The quotient of two doubles is the double to which the quotient of the numbers rounds. -/
theorem exact_div
    (h : RoundsTo (mantissa * 2 ^ exponent / (mantissa' * 2 ^ exponent')) rounded unit) :
    exact (x / y) = .finite (negative != negative') rounded unit := by
  show exact (.ofModel (.pack (UnpackedFloat.div Format.binary64 x.toModel.unpack
    y.toModel.unpack))) = _
  rw [hcanonical.unpack_eq hx, hcanonical'.unpack_eq hy, div_eq _ _ h, div_signOf]
  exact exact_pack h.canonical _ _

end

theorem signed_mul_signed (negative negative' : Bool) :
    (signed negative 1 : ℚ) * signed negative' 1 = signed (negative != negative') 1 := by
  cases negative <;> cases negative' <;> norm_num [signed]

theorem signed_div_signed (negative negative' : Bool) :
    (signed negative 1 : ℚ) / signed negative' 1 = signed (negative != negative') 1 := by
  cases negative <;> cases negative' <;> norm_num [signed]

section

variable {x y : Float} {p q : ℚ} (hx : rational? x = some p) (hy : rational? y = some q)

include hx hy

theorem rational?_mul (h : IsDouble (p * q)) : rational? (x * y) = some (p * q) := by
  obtain ⟨negative, mantissa, exponent, hexact, rfl⟩ := exists_exact_of_rational? hx
  obtain ⟨negative', mantissa', exponent', hexact', rfl⟩ := exists_exact_of_rational? hy
  have hmul : x * y = .ofModel (.pack (UnpackedFloat.mul Format.binary64 x.toModel.unpack
    y.toModel.unpack)) := rfl
  rcases unpack_of_exact hexact with ⟨rfl, -, hunpack⟩ | ⟨hcanonical, hunpack⟩
  · rw [signed_zero, Int.cast_zero, zero_mul, zero_mul, hmul, hunpack]
    rcases unpack_of_exact hexact' with ⟨-, -, hunpack'⟩ | ⟨_, hunpack'⟩ <;>
      rw [hunpack'] <;> exact rational?_packZero _
  · rcases unpack_of_exact hexact' with ⟨rfl, -, hunpack'⟩ | ⟨hcanonical', hunpack'⟩
    · rw [signed_zero, Int.cast_zero, zero_mul, mul_zero, hmul, hunpack, hunpack']
      exact rational?_packZero _
    · refine rational?_of_roundsTo ?_ (mul_pos hcanonical.rational_pos hcanonical'.rational_pos) h
        fun hrounds => exact_mul hcanonical hcanonical' hexact hexact' hrounds
      rw [signed_eq_mul negative, signed_eq_mul negative', ← signed_mul_signed]
      ring

/-- Division is exact where the quotient is a double. -/
theorem rational?_div (hne : q ≠ 0) (h : IsDouble (p / q)) : rational? (x / y) = some (p / q) := by
  obtain ⟨negative, mantissa, exponent, hexact, rfl⟩ := exists_exact_of_rational? hx
  obtain ⟨negative', mantissa', exponent', hexact', rfl⟩ := exists_exact_of_rational? hy
  have hcanonical' : Canonical mantissa' exponent' := by
    apply (of_exact_eq_finite hexact').2.resolve_left
    rintro ⟨rfl, -⟩
    apply hne
    rw [signed_zero, Int.cast_zero, zero_mul]
  rcases unpack_of_exact hexact with ⟨rfl, -, hunpack⟩ | ⟨hcanonical, hunpack⟩
  · have hdiv : x / y = .ofModel (.pack (UnpackedFloat.div Format.binary64 x.toModel.unpack
      y.toModel.unpack)) := rfl
    rw [signed_zero, Int.cast_zero, zero_mul, zero_div, hdiv, hunpack,
      hcanonical'.unpack_eq hexact']
    exact rational?_packZero _
  · refine rational?_of_roundsTo ?_ (div_pos hcanonical.rational_pos hcanonical'.rational_pos) h
      fun hrounds => exact_div hcanonical hcanonical' hexact hexact' hrounds
    rw [signed_eq_mul negative, signed_eq_mul negative', mul_assoc, mul_assoc, mul_div_mul_comm,
      signed_div_signed]

end

end Drawscript.Number
