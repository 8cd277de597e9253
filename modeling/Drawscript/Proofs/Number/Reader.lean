import Drawscript.Number.Reader
import Drawscript.Proofs.Number.Arithmetic

/-!
# Reading a decimal

A decimal `digits * 10 ^ exponent` is read as the double to which it rounds
(`Decimal.exact_toFloat`), whether the power of ten is small enough for one operation on doubles or
the product is computed exactly. So an integer that is a double is converted exactly
(`rational?_ofInt`), and every 64-bit integer is converted to a finite double
(`exists_exact_ofInt64`).
-/

set_option autoImplicit false

namespace Drawscript.Number

open Float.Model Float.Model.UnpackedFloat

/-! ## Decimals as numbers -/

/-- The number that a decimal stands for. -/
def Decimal.value (d : Decimal) : ℚ :=
  d.digits * 10 ^ d.exponent

theorem ten_zpow_pos (e : Int) : (0 : ℚ) < 10 ^ e :=
  zpow_pos (by norm_num) e

theorem ten_zpow_add (a b : Int) : (10 : ℚ) ^ (a + b) = 10 ^ a * 10 ^ b :=
  zpow_add₀ (by norm_num) a b

/-- A number with a given count of digits is below the next power of ten. -/
theorem lt_pow_digitCount (n : Nat) : n < 10 ^ digitCount n :=
  (Nat.length_repr_le_iff Nat.length_repr_pos).1 le_rfl

theorem pow_digitCount_le {n : Nat} (h : n ≠ 0) : 10 ^ (digitCount n - 1) ≤ n := by
  by_contra hlt
  have hpos : 0 < digitCount n := Nat.length_repr_pos
  rcases Nat.eq_zero_or_pos (digitCount n - 1) with hzero | hcount
  · rw [hzero] at hlt
    omega
  · have hle : digitCount n ≤ digitCount n - 1 := (Nat.length_repr_le_iff hcount).2 (not_le.1 hlt)
    omega

theorem Decimal.value_lt (d : Decimal) : d.value < 10 ^ (d.exponent + digitCount d.digits) := by
  have hlt : (d.digits : ℚ) < 10 ^ digitCount d.digits := by
    exact_mod_cast lt_pow_digitCount d.digits
  rw [Decimal.value, ten_zpow_add, zpow_natCast, mul_comm]
  exact mul_lt_mul_of_pos_left hlt (ten_zpow_pos _)

/-- A decimal is at least the power of ten of its first digit. -/
theorem Decimal.le_value {d : Decimal} (h : d.digits ≠ 0) :
    10 ^ (d.exponent + digitCount d.digits - 1) ≤ d.value := by
  have hpos : 0 < digitCount d.digits := Nat.length_repr_pos
  have hle : ((10 ^ (digitCount d.digits - 1) : Nat) : ℚ) ≤ d.digits :=
    Nat.cast_le.2 (pow_digitCount_le h)
  have hexponent : d.exponent + digitCount d.digits - 1 =
      d.exponent + (digitCount d.digits - 1 : Nat) := by omega
  rw [Decimal.value, hexponent, ten_zpow_add, zpow_natCast, mul_comm]
  push_cast at hle
  exact mul_le_mul_of_nonneg_right hle (ten_zpow_pos _).le

/-! ## The range of doubles -/

/-- A power of ten is at least as far from one as the same power of eight. -/
theorem two_zpow_le_ten_zpow {e : Int} (h : 0 ≤ e) : (2 : ℚ) ^ (3 * e) ≤ 10 ^ e := by
  rw [zpow_mul]
  exact zpow_le_zpow_left₀ h (by norm_num) (by norm_num)

theorem ten_zpow_le_two_zpow {e : Int} (h : e ≤ 0) : (10 : ℚ) ^ e ≤ 2 ^ (3 * e) := by
  have hle := two_zpow_le_ten_zpow (Int.neg_nonneg.2 h)
  rw [mul_neg, zpow_neg, zpow_neg] at hle
  exact (inv_le_inv₀ (two_zpow_pos _) (ten_zpow_pos _)).1 hle

namespace RoundsTo

variable {q : ℚ} {mantissa : Nat} {exponent : Int} (h : RoundsTo q mantissa exponent)

include h

/-- What rounds to a finite double is below the limit of doubles. -/
theorem lt_limit : q < 2 ^ (1024 : Int) := by
  have hmantissa : (mantissa : ℚ) + 1 ≤ 2 ^ 53 := by exact_mod_cast h.canonical.lt
  calc q ≤ (mantissa + 1 / 2) * 2 ^ exponent := h.high
    _ < 2 ^ 53 * 2 ^ exponent := mul_lt_mul_of_pos_right (by linarith) (two_zpow_pos exponent)
    _ = 2 ^ (53 + exponent) := by rw [two_zpow_add]; norm_num
    _ ≤ 2 ^ (1024 : Int) := zpow_le_zpow_right₀ (by norm_num) (by linarith [h.canonical.largest])

theorem least_le : 2 ^ (-1075 : Int) ≤ q := by
  have hmantissa : (1 : ℚ) ≤ mantissa := by exact_mod_cast h.canonical.pos
  have hreach := reachBelow_le mantissa exponent
  calc (2 : ℚ) ^ (-1075 : Int) ≤ 2 ^ (exponent - 1) :=
        zpow_le_zpow_right₀ (by norm_num) (by linarith [h.canonical.least])
    _ = 1 / 2 * 2 ^ exponent := by rw [zpow_sub_one₀ (by norm_num)]; ring
    _ ≤ (mantissa - reachBelow mantissa exponent) * 2 ^ exponent :=
        mul_le_mul_of_nonneg_right (by linarith) (two_zpow_pos exponent).le
    _ ≤ q := h.low

theorem pos : 0 < q :=
  (two_zpow_pos _).trans_le h.least_le

end RoundsTo

/-! ## Reading a decimal -/

/-- A machine integer is converted to the nearest double. -/
theorem exact_toFloat_toUInt64 {n rounded : Nat} {unit : Int} (hlt : n < 2 ^ 64) (hne : n ≠ 0)
    (h : RoundsTo n rounded unit) : exact n.toUInt64.toFloat = .finite false rounded unit := by
  have htoNat : n.toUInt64.toNat = n := Nat.mod_eq_of_lt hlt
  have htoFloat : n.toUInt64.toFloat = .ofModel (.pack (UnpackedFloat.normalize Format.binary64
    n.toUInt64.toNat 0 .positive)) := rfl
  have hrounds : RoundsTo ((n : Int).natAbs * 2 ^ (0 : Int)) rounded unit := by
    rwa [Int.natAbs_natCast, zpow_zero, mul_one]
  rw [htoFloat, htoNat, normalize_eq (Int.natCast_ne_zero.2 hne) hrounds,
    exact_pack hrounds.canonical, decide_eq_false (by omega)]

/-- The table of powers of ten holds the powers exactly. -/
theorem rational?_powersOfTen : ∀ e : Fin Float.exactlyRepresentablePowersOfTen.size,
    rational? (Float.exactlyRepresentablePowersOfTen[e]) = some (10 ^ e.val) := by
  decide +kernel


section

variable {digits power rounded : Nat} {unit : Int}

/-- With few digits and a small power of ten both are doubles, and one operation rounds. -/
theorem exact_ofScientific_small (hlt : digits < 2 ^ 53) (hne : digits ≠ 0) (hpower : power ≤ 22)
    (negative : Bool)
    (h : RoundsTo (digits * 10 ^ (if negative then -(power : Int) else power)) rounded unit) :
    exact (Float.ofScientific digits negative power) = .finite false rounded unit := by
  obtain ⟨mantissa, exponent, hcanonical, hdigits⟩ := exists_canonical_of_lt hne hlt
  have hx : exact digits.toUInt64.toFloat = .finite false mantissa exponent :=
    exact_toFloat_toUInt64 (hlt.trans (by norm_num)) hne (hdigits ▸ hcanonical.roundsTo)
  obtain ⟨mantissa', exponent', hcanonical', hy, hten⟩ :=
    exists_canonical_of_rational? (rational?_powersOfTen ⟨power, Nat.lt_succ_of_le hpower⟩)
      (by positivity)
  have hscientific : Float.ofScientific digits negative power = if negative then _ else _ :=
    dif_pos ⟨hlt, hpower⟩
  rw [hscientific]
  cases negative with
  | false =>
    rw [if_neg Bool.false_ne_true, zpow_natCast, hten, hdigits] at h
    exact exact_mul hcanonical hcanonical' hx hy h
  | true =>
    rw [if_pos rfl, zpow_neg, zpow_natCast, ← div_eq_mul_inv, hten, hdigits] at h
    exact exact_div hcanonical hcanonical' hx hy h

theorem le_targetExponent_ofScientific (hne : digits ≠ 0) (power : Nat) :
    -53 + 0 ≤ Format.binary64.targetExponent
      (totalExponent (digits <<< 53 * 10 ^ power) (-53 + 0)) := by
  have hbits : 2 ^ 53 ≤ digits <<< 53 := by
    rw [Nat.shiftLeft_eq]
    exact Nat.le_mul_of_pos_left _ (Nat.pos_of_ne_zero hne)
  have hle : digits <<< 53 ≤ digits <<< 53 * 10 ^ power :=
    Nat.le_mul_of_pos_right _ (Nat.pow_pos (by decide))
  generalize digits <<< 53 * 10 ^ power = product at *
  have hlog := (Nat.le_log2 (by omega : product ≠ 0)).2 (hbits.trans hle)
  rw [targetExponent_eq]
  omega

/-- The exponents of decimals that are not read at once as infinity or zero. -/
theorem exponent_bounds (hne : digits ≠ 0) {exponent : Int}
    (h : RoundsTo (digits * 10 ^ exponent) rounded unit) :
    exponent < 342 ∧ -1075 < digits.log2 + 1 + 3 * exponent := by
  have hdigits : (1 : ℚ) ≤ digits := by exact_mod_cast Nat.pos_of_ne_zero hne
  have hlog : (digits : ℚ) < 2 ^ (digits.log2 + 1) := by exact_mod_cast Nat.lt_log2_self
  constructor
  · by_contra hlarge
    have hlimit : (2 : ℚ) ^ (1024 : Int) ≤ digits * 10 ^ exponent := by
      calc (2 : ℚ) ^ (1024 : Int) ≤ 2 ^ (3 * exponent) :=
            zpow_le_zpow_right₀ (by norm_num) (by omega)
        _ ≤ 1 * 10 ^ exponent := by
            rw [one_mul]
            exact two_zpow_le_ten_zpow (by omega)
        _ ≤ digits * 10 ^ exponent := mul_le_mul_of_nonneg_right hdigits (ten_zpow_pos exponent).le
    exact hlimit.not_gt h.lt_limit
  · by_contra hsmall
    have hleast : (digits : ℚ) * 10 ^ exponent < 2 ^ (-1075 : Int) := by
      calc (digits : ℚ) * 10 ^ exponent
          < 2 ^ (digits.log2 + 1) * 10 ^ exponent :=
            mul_lt_mul_of_pos_right hlog (ten_zpow_pos exponent)
        _ ≤ 2 ^ (digits.log2 + 1) * 2 ^ (3 * exponent) :=
            mul_le_mul_of_nonneg_left (ten_zpow_le_two_zpow (by omega)) (by positivity)
        _ = 2 ^ ((digits.log2 + 1 : Nat) + 3 * exponent) := by rw [two_zpow_add, zpow_natCast]
        _ ≤ 2 ^ (-1075 : Int) := zpow_le_zpow_right₀ (by norm_num) (by push_cast; omega)
    exact hleast.not_ge h.least_le

/-- Any digits and power of ten are multiplied or divided exactly, and the result is rounded. -/
theorem ofScientific_eq (hne : digits ≠ 0) {exponent : Int}
    (h : RoundsTo (digits * 10 ^ exponent) rounded unit) :
    UnpackedFloat.ofScientific Format.binary64 digits exponent =
      .finite .positive rounded unit h.canonical.pos := by
  have hbits : (2 ^ Format.binary64.exponentBits : Int) = 2048 := rfl
  obtain ⟨hlarge, hsmall⟩ := exponent_bounds hne h
  rw [UnpackedFloat.ofScientific, dif_neg hne, if_neg (by omega), if_neg (by omega)]
  split_ifs with hsign
  · obtain ⟨power, rfl⟩ := Int.eq_ofNat_of_zero_le hsign
    have hvalue : (digits : ℚ) * (10 : ℚ) ^ (power : Int) =
        (digits <<< 53 : Nat) * 2 ^ (-53 : Int) * ((10 ^ power : Nat) * 2 ^ (0 : Int)) := by
      rw [Nat.shiftLeft_eq, zpow_zero, mul_one, zpow_natCast, zpow_neg]
      push_cast
      field_simp
    rw [hvalue] at h
    exact mul_eq _ _ (le_targetExponent_ofScientific hne power) h _ _
  · obtain ⟨power, rfl⟩ : ∃ power : Nat, exponent = -power := ⟨exponent.natAbs, by omega⟩
    have hvalue : (digits : ℚ) * 10 ^ (-(power : Int)) =
        digits * 2 ^ (0 : Int) / ((10 ^ power : Nat) * 2 ^ (0 : Int)) := by
      rw [zpow_zero, mul_one, mul_one, zpow_neg, zpow_natCast, ← div_eq_mul_inv]
      push_cast
      rfl
    have hpower : (- -(power : Int)).toNat = power := by omega
    simp only [hpower]
    rw [hvalue] at h
    exact div_eq _ _ h _ _

/-- Digits and a power of ten are read as the nearest double, for both signs of the exponent. -/
theorem exact_ofScientific (hne : digits ≠ 0) (negative : Bool)
    (h : RoundsTo (digits * 10 ^ (if negative then -(power : Int) else power)) rounded unit) :
    exact (Float.ofScientific digits negative power) = .finite false rounded unit := by
  by_cases hsmall : digits < 2 ^ 53 ∧ power ≤ 22
  · exact exact_ofScientific_small hsmall.1 hne hsmall.2 negative h
  · have hscientific : Float.ofScientific digits negative power = .ofModel (.pack
        (UnpackedFloat.ofScientific Format.binary64 digits
          (if negative then Int.negOfNat power else Int.ofNat power))) := dif_neg hsmall
    have hexponent : (if negative then Int.negOfNat power else Int.ofNat power) =
        if negative then -(power : Int) else power := by
      cases negative with
      | false => rfl
      | true => exact Int.negOfNat_eq
    rw [hscientific, hexponent, ofScientific_eq hne h]
    exact exact_pack h.canonical false _

end

/-- A decimal is read as the double to which it rounds. -/
theorem Decimal.exact_toFloat {d : Decimal} {mantissa : Nat} {exponent : Int}
    (h : RoundsTo d.value mantissa exponent) :
    exact d.toFloat = .finite false mantissa exponent := by
  have hne : d.digits ≠ 0 := by
    intro hzero
    have hpos := h.pos
    rw [Decimal.value, hzero, Nat.cast_zero, zero_mul] at hpos
    exact lt_irrefl _ hpos
  have hsmall : ¬d.exponent + digitCount d.digits < -400 := by
    intro hsmall
    have hlt : d.value < 2 ^ (-1075 : Int) := by
      calc d.value < 10 ^ (d.exponent + digitCount d.digits) := d.value_lt
        _ ≤ 2 ^ (3 * (d.exponent + digitCount d.digits)) := ten_zpow_le_two_zpow (by omega)
        _ ≤ 2 ^ (-1075 : Int) := zpow_le_zpow_right₀ (by norm_num) (by omega)
    exact hlt.not_ge h.least_le
  have hlarge : ¬400 < d.exponent + digitCount d.digits := by
    intro hlarge
    have hle : 2 ^ (1024 : Int) ≤ d.value := by
      calc (2 : ℚ) ^ (1024 : Int) ≤ 2 ^ (3 * (d.exponent + digitCount d.digits - 1)) :=
            zpow_le_zpow_right₀ (by norm_num) (by omega)
        _ ≤ 10 ^ (d.exponent + digitCount d.digits - 1) := two_zpow_le_ten_zpow (by omega)
        _ ≤ d.value := d.le_value hne
    exact hle.not_gt h.lt_limit
  have hexponent : (if decide (d.exponent < 0) = true then -(d.exponent.natAbs : Int)
      else d.exponent.natAbs) = d.exponent := by
    by_cases hneg : d.exponent < 0
    · rw [if_pos (decide_eq_true hneg)]
      omega
    · rw [if_neg (by simpa using hneg)]
      omega
  rw [Decimal.toFloat]
  simp only [hne, hsmall, hlarge, or_self, if_false]
  apply exact_ofScientific hne
  rwa [hexponent]

/-! ## Integers -/

theorem exact_ofNat {n rounded : Nat} {unit : Int} (hne : n ≠ 0) (h : RoundsTo n rounded unit) :
    exact (Float.ofNat n) = .finite false rounded unit := by
  apply exact_ofScientific hne
  rwa [if_neg Bool.false_ne_true, Nat.cast_zero, zpow_zero, mul_one]

/-- An integer is the magnitude of a double with its sign. -/
theorem ofInt_eq (n : Int) :
    Float.ofInt n = if n < 0 then -Float.ofNat n.natAbs else Float.ofNat n.natAbs := by
  cases n with
  | ofNat n => exact (if_neg (Int.not_lt.2 (Int.natCast_nonneg n))).symm
  | negSucc n => exact (if_pos (Int.negSucc_lt_zero n)).symm

/-- An integer is converted to the nearest double, with its sign. -/
theorem exact_ofInt {n : Int} {rounded : Nat} {unit : Int} (hne : n ≠ 0)
    (h : RoundsTo n.natAbs rounded unit) :
    exact (Float.ofInt n) = .finite (decide (n < 0)) rounded unit := by
  have hmagnitude := exact_ofNat (Int.natAbs_ne_zero.2 hne) h
  rw [ofInt_eq]
  split_ifs with hneg
  · rw [exact_neg hmagnitude, decide_eq_true hneg, Bool.not_false]
  · rw [hmagnitude, decide_eq_false hneg]

theorem exact_ofInt_zero : exact (Float.ofInt 0) = .finite false 0 (-1074) := by
  decide +kernel

/-- An integer that is a double is converted exactly. -/
theorem rational?_ofInt {n : Int} (h : IsDouble n) : rational? (Float.ofInt n) = some (n : ℚ) := by
  by_cases hzero : n = 0
  · rw [hzero, rational?_of_exact exact_ofInt_zero, signed_zero, Int.cast_zero, zero_mul]
  · exact rational?_of_roundsTo (cast_eq_signed_mul n)
      (Nat.cast_pos.2 (Int.natAbs_pos.2 hzero)) h (exact_ofInt hzero)

/-- Every 64-bit integer is converted to a finite double of its sign. -/
theorem exists_exact_ofInt64 (n : Int64) : ∃ mantissa exponent,
    exact (ofInt64 n) = .finite (decide (n.toInt < 0)) mantissa exponent := by
  rw [ofInt64]
  by_cases hzero : n.toInt = 0
  · rw [hzero]
    exact ⟨0, -1074, exact_ofInt_zero⟩
  · have hpos : 1 ≤ n.toInt.natAbs := Int.natAbs_pos.2 hzero
    have hlt : n.toInt.natAbs < 2 ^ 64 := by
      have hle := n.toInt_lt
      have hge := n.le_toInt
      omega
    have hlow : (2 : ℚ) ^ (-1074 : Int) ≤ n.toInt.natAbs :=
      (zpow_le_one_of_nonpos₀ (by norm_num) (by norm_num)).trans (by exact_mod_cast hpos)
    have hhigh : (n.toInt.natAbs : ℚ) < 2 ^ (1023 : Int) := by
      calc (n.toInt.natAbs : ℚ) < 2 ^ (64 : Int) := by exact_mod_cast hlt
        _ ≤ 2 ^ (1023 : Int) := zpow_le_zpow_right₀ (by norm_num) (by norm_num)
    obtain ⟨mantissa, exponent, hrounds⟩ := exists_roundsTo hlow hhigh
    exact ⟨mantissa, exponent, exact_ofInt hzero hrounds⟩

/-- Integers up to `2 ^ 53` are doubles. -/
theorem isDouble_of_natAbs_le {n : Int} (h : n.natAbs ≤ 2 ^ 53) : IsDouble n := by
  by_cases hzero : n = 0
  · refine ⟨Float.ofInt 0, ?_⟩
    rw [hzero, rational?_of_exact exact_ofInt_zero, signed_zero, Int.cast_zero, zero_mul]
  · have hmagnitude : ∃ mantissa exponent, Canonical mantissa exponent ∧
        (n.natAbs : ℚ) = mantissa * 2 ^ exponent := by
      rcases h.lt_or_eq with hlt | heq
      · exact exists_canonical_of_lt (Int.natAbs_ne_zero.2 hzero) hlt
      · refine ⟨2 ^ 52, 1, ⟨by norm_num, by norm_num, by norm_num, by norm_num, Or.inl le_rfl⟩, ?_⟩
        rw [heq]
        norm_num
    obtain ⟨mantissa, exponent, hcanonical, hvalue⟩ := hmagnitude
    rw [cast_eq_signed_mul, hvalue]
    exact hcanonical.isDouble _

end Drawscript.Number
