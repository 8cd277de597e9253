import Drawscript.Proofs.Number.Printer

/-!
# The finite doubles

`exact` reads a sign, a mantissa and an exponent from the bits of a double. The mantissas and
exponents that occur are those of `Canonical`, beside zero (`of_exact_eq_finite`), each occurs
(`exact_pack`), and together with the sign they determine the double (`eq_of_exact_eq`).

A finite double stands for a rational number (`rational?`). Canonical pairs are in the order of the
numbers that they stand for (`Canonical.lt_iff`), so that doubles can be compared as numbers
(`lt_iff_of_exact`).
-/

set_option autoImplicit false

namespace Drawscript.Number

open Float.Model Float.Model.UnpackedFloat

/-- The mantissas and exponents of the doubles other than zero: 53 bits, and fewer only with the
least exponent. -/
structure Canonical (mantissa : Nat) (exponent : Int) : Prop where
  pos : 0 < mantissa
  lt : mantissa < 2 ^ 53
  least : -1074 ≤ exponent
  largest : exponent ≤ 971
  full : 2 ^ 52 ≤ mantissa ∨ exponent = -1074

/-! ## Bits -/

/-- The sign, the exponent and the fraction of a double as they stand in its bits. -/
structure HasBits (x : Float) (negative : Bool) (biased fraction : Nat) : Prop where
  biased_lt : biased < 2048
  fraction_lt : fraction < 2 ^ 52
  toNat_toBits : x.toBits.toNat = negative.toNat * 2 ^ 63 + biased * 2 ^ 52 + fraction

theorem exists_hasBits (x : Float) :
    ∃ negative biased fraction, HasBits x negative biased fraction := by
  have hlt : x.toBits.toNat < 2 ^ 64 := x.toBits.toBitVec.isLt
  refine ⟨decide (2 ^ 63 ≤ x.toBits.toNat), x.toBits.toNat / 2 ^ 52 % 2048,
    x.toBits.toNat % 2 ^ 52, Nat.mod_lt _ (by decide), Nat.mod_lt _ (by decide), ?_⟩
  by_cases hsign : 2 ^ 63 ≤ x.toBits.toNat
  · rw [decide_eq_true hsign, Bool.toNat_true]
    omega
  · rw [decide_eq_false hsign, Bool.toNat_false]
    omega

/-- The number of a float, read off the fields of its bits. -/
theorem HasBits.exact_eq {x : Float} {negative : Bool} {biased fraction : Nat}
    (h : HasBits x negative biased fraction) :
    exact x =
      if biased = 2047 then if fraction = 0 then .infinite negative else .nan
      else if biased = 0 then .finite negative fraction (-1074)
      else .finite negative (fraction + 2 ^ 52) ((biased : Int) - 1075) := by
  obtain ⟨hbiased, hfraction, hbits⟩ := h
  have hsign : (x.toBits.toNat / pow2 63 == 1) = negative := by
    rw [hbits]
    show (_ / 2 ^ 63 == 1) = _
    cases negative with
    | false =>
      rw [beq_eq_false_iff_ne, Bool.toNat_false]
      omega
    | true =>
      rw [beq_iff_eq, Bool.toNat_true]
      omega
  have hexponent : x.toBits.toNat / pow2 52 % 2048 = biased := by
    rw [hbits]
    show _ / 2 ^ 52 % 2048 = biased
    omega
  have hrest : x.toBits.toNat % pow2 52 = fraction := by
    rw [hbits]
    show _ % 2 ^ 52 = fraction
    omega
  simp only [exact, hsign, hexponent, hrest]
  rfl

/-- The bits of a finite double. The leading bit of a full mantissa adds one to the exponent. -/
def finiteBits (negative : Bool) (mantissa : Nat) (exponent : Int) : Nat :=
  negative.toNat * 2 ^ 63 + (exponent + 1074).toNat * 2 ^ 52 + mantissa

/-- A finite double is zero or has a canonical mantissa and exponent. -/
theorem of_exact_eq_finite {x : Float} {negative : Bool} {mantissa : Nat} {exponent : Int}
    (h : exact x = .finite negative mantissa exponent) :
    x.toBits.toNat = finiteBits negative mantissa exponent ∧
      ((mantissa = 0 ∧ exponent = -1074) ∨ Canonical mantissa exponent) := by
  obtain ⟨negative', biased, fraction, hbits⟩ := exists_hasBits x
  obtain ⟨hbiased, hfraction, htoNat⟩ := id hbits
  rw [hbits.exact_eq] at h
  rw [htoNat, finiteBits]
  split_ifs at h with hall hnone hleast
  · obtain ⟨rfl, rfl, rfl⟩ := Exact.finite.inj h
    refine ⟨by omega, ?_⟩
    rcases Nat.eq_zero_or_pos fraction with hzero | hpos
    · exact Or.inl ⟨hzero, rfl⟩
    · exact Or.inr ⟨hpos, by omega, le_rfl, by omega, Or.inr rfl⟩
  · obtain ⟨rfl, rfl, rfl⟩ := Exact.finite.inj h
    exact ⟨by omega, Or.inr ⟨by omega, by omega, by omega, by omega, Or.inl (by omega)⟩⟩

/-- The bits of a canonical number tell its mantissa and exponent again. -/
theorem exact_of_finiteBits {x : Float} {negative : Bool} {mantissa : Nat} {exponent : Int}
    (h : Canonical mantissa exponent)
    (hbits : x.toBits.toNat = finiteBits negative mantissa exponent) :
    exact x = .finite negative mantissa exponent := by
  obtain ⟨hpos, hlt, hleast, hlargest, hfull⟩ := h
  obtain ⟨steps, rfl⟩ : ∃ steps : Nat, exponent = steps - 1074 :=
    ⟨(exponent + 1074).toNat, by omega⟩
  have hsteps : ((steps : Int) - 1074 + 1074).toNat = steps := by omega
  rw [finiteBits, hsteps] at hbits
  rcases Nat.lt_or_ge mantissa (2 ^ 52) with hpartial | hnormal
  · obtain rfl : steps = 0 := by omega
    have hparts : HasBits x negative 0 mantissa := ⟨by decide, hpartial, hbits⟩
    rw [hparts.exact_eq, if_neg (by decide), if_pos rfl]
    rfl
  · obtain ⟨fraction, rfl⟩ := Nat.exists_eq_add_of_le hnormal
    have hparts : HasBits x negative (steps + 1) fraction :=
      ⟨by omega, by omega, by rw [hbits]; ring⟩
    rw [hparts.exact_eq, if_neg (by omega), if_neg (by omega), Nat.add_comm]
    congr 1
    omega

/-- A float is known from its bits. -/
theorem eq_of_toNat_toBits {x y : Float} (h : x.toBits.toNat = y.toBits.toNat) : x = y := by
  obtain ⟨⟨bits, valid⟩⟩ := x
  obtain ⟨⟨bits', valid'⟩⟩ := y
  obtain rfl : bits = bits' := UInt64.toNat_inj.1 h
  rfl

/-- A finite double is determined by its sign, mantissa and exponent. -/
theorem eq_of_exact_eq {x y : Float} {negative : Bool} {mantissa : Nat} {exponent : Int}
    (hx : exact x = .finite negative mantissa exponent)
    (hy : exact y = .finite negative mantissa exponent) : x = y := by
  apply eq_of_toNat_toBits
  rw [(of_exact_eq_finite hx).1, (of_exact_eq_finite hy).1]

/-! ## Packing and unpacking -/

/-- The sign of a negative or positive number. -/
def signOf (negative : Bool) : Sign :=
  if negative then .negative else .positive

theorem exists_signOf (sign : Sign) : ∃ negative, sign = signOf negative := by
  cases sign with
  | negative => exact ⟨true, rfl⟩
  | positive => exact ⟨false, rfl⟩

/-- The bits of a float put together from its three fields. -/
theorem toNat_packComponents (negative : Bool) (biased : BitVec 11) (fraction : BitVec 52) :
    (packComponents Format.binary64 (signOf negative) biased fraction).toNat =
      negative.toNat * 2 ^ 63 + biased.toNat * 2 ^ 52 + fraction.toNat := by
  have hbit : (signOf negative).toBitVec.toNat = negative.toNat := by
    cases negative <;> rfl
  rw [packComponents, BitVec.toNat_append, BitVec.toNat_append,
    ← Nat.shiftLeft_add_eq_or_of_lt fraction.isLt, ← Nat.shiftLeft_add_eq_or_of_lt biased.isLt,
    hbit]
  simp only [Nat.shiftLeft_eq]
  ring

/-- There is a double for every canonical mantissa and exponent. -/
theorem exact_pack {mantissa : Nat} {exponent : Int} (h : Canonical mantissa exponent)
    (negative : Bool) (hpos : 0 < mantissa) :
    exact (.ofModel (.pack (.finite (signOf negative) mantissa exponent hpos))) =
      .finite negative mantissa exponent := by
  apply exact_of_finiteBits h
  obtain ⟨-, hlt, hleast, hlargest, hfull⟩ := h
  obtain ⟨steps, rfl⟩ : ∃ steps : Nat, exponent = steps - 1074 :=
    ⟨(exponent + 1074).toNat, by omega⟩
  have hsteps : ((steps : Int) - 1074 + 1074).toNat = steps := by omega
  have hbiased : ((steps : Int) - 1074 + (Format.binary64.exponentBias : Int) +
      (Format.binary64.mantissaBitsWithoutImplicit : Int)).toNat = steps + 1 := by
    show ((steps : Int) - 1074 + 1023 + 52).toNat = steps + 1
    omega
  have hfits : ¬2 ^ Format.binary64.exponentBits ≤ steps + 1 + 1 := by
    show ¬2 ^ 11 ≤ steps + 1 + 1
    omega
  show (UnpackedFloat.pack Format.binary64 _).toNat = _
  rw [finiteBits, hsteps]
  simp only [UnpackedFloat.pack, hbiased, hfits, if_false]
  rcases Nat.lt_or_ge mantissa (2 ^ 52) with hpartial | hnormal
  · obtain rfl : steps = 0 := by omega
    have hlog : ¬mantissa.log2 + 1 = Format.binary64.mantissaBits := by
      have hlt := (Nat.log2_lt hpos.ne').2 hpartial
      show ¬mantissa.log2 + 1 = 53
      omega
    rw [if_neg hlog, toNat_packComponents, BitVec.toNat_ofNat, BitVec.toNat_ofNat,
      Nat.mod_eq_of_lt hpartial]
  · have hlog : mantissa.log2 + 1 = Format.binary64.mantissaBits := by
      rw [(Nat.log2_eq_iff hpos.ne').2 ⟨hnormal, hlt⟩]
      rfl
    obtain ⟨fraction, rfl⟩ := Nat.exists_eq_add_of_le hnormal
    rw [if_pos hlog, toNat_packComponents, BitVec.toNat_ofNat, BitVec.toNat_ofNat,
      Nat.mod_eq_of_lt (by omega), Nat.add_mod_left, Nat.mod_eq_of_lt (by omega)]
    ring

theorem exact_packZero (negative : Bool) :
    exact (.ofModel (.pack (.zero (signOf negative)))) = .finite negative 0 (-1074) := by
  cases negative <;> decide +kernel

/-- What an unpacked double stands for. -/
def Exact.ofUnpacked : UnpackedFloat → Exact
  | .notANumber => .nan
  | .infinity sign => .infinite (sign == .negative)
  | .zero sign => .finite (sign == .negative) 0 (-1074)
  | .finite sign mantissa exponent _ => .finite (sign == .negative) mantissa exponent

theorem signOf_beq (negative : Bool) : (signOf negative == .negative) = negative := by
  cases negative <;> rfl

theorem ofBitVec_beq (bit : BitVec 1) : (Sign.ofBitVec bit == .negative) = (bit.toNat == 1) := by
  have hlt := bit.isLt
  rw [Sign.ofBitVec]
  split_ifs with hbit
  · rw [hbit]
    rfl
  · have hne : bit.toNat ≠ 0 := fun h => hbit (BitVec.eq_of_toNat_eq h)
    have hone : bit.toNat = 1 := by omega
    rw [hone]
    rfl

theorem toNat_unpackMantissa (bits : BitVec Format.binary64.numBits) :
    (@unpackMantissa Format.binary64 bits).toNat = bits.toNat % pow2 52 := by
  simp [unpackMantissa, BitVec.extractLsb, BitVec.extractLsb', pow2]

theorem toNat_unpackSign (bits : BitVec Format.binary64.numBits) :
    (@unpackSign Format.binary64 bits).toNat = bits.toNat / pow2 63 := by
  have hlt : bits.toNat < 2 ^ 64 := bits.isLt
  simp only [unpackSign, BitVec.extractLsb, BitVec.extractLsb', Nat.shiftRight_eq_div_pow, pow2,
    BitVec.toNat_cast, BitVec.toNat_ofNat]
  show bits.toNat / 2 ^ 63 % 2 ^ 1 = bits.toNat / 2 ^ 63
  omega

theorem toNat_implicit_append (fraction : BitVec 52) :
    (1#1 ++ fraction).toNat = fraction.toNat + pow2 52 := by
  rw [BitVec.toNat_append, ← Nat.shiftLeft_add_eq_or_of_lt fraction.isLt, Nat.add_comm]
  rfl

/-- The bits of a double are read in the same way when it is unpacked. -/
theorem exact_eq_ofUnpacked (x : Float) : exact x = .ofUnpacked x.toModel.unpack := by
  have hexponent := toNat_unpackExponent x.toModel.toBits.toBitVec
  have hfraction := toNat_unpackMantissa x.toModel.toBits.toBitVec
  have hsign := ofBitVec_beq (@unpackSign Format.binary64 x.toModel.toBits.toBitVec)
  rw [toNat_unpackSign] at hsign
  have hbits : x.toBits.toNat = x.toModel.toBits.toBitVec.toNat := rfl
  have hall : @unpackExponent Format.binary64 x.toModel.toBits.toBitVec = -1#_ ↔
      x.toBits.toNat / pow2 52 % 2048 = 2047 := by
    rw [← BitVec.toNat_inj, hexponent]
    rfl
  have hleast : @unpackExponent Format.binary64 x.toModel.toBits.toBitVec = 0#_ ↔
      x.toBits.toNat / pow2 52 % 2048 = 0 := by
    rw [← BitVec.toNat_inj, hexponent]
    rfl
  have hzero : @unpackMantissa Format.binary64 x.toModel.toBits.toBitVec = 0#_ ↔
      x.toBits.toNat % pow2 52 = 0 := by
    rw [← BitVec.toNat_inj, hfraction]
    rfl
  simp only [exact, Float.Model.unpack, UnpackedFloat.unpack, hall, hleast, hzero]
  split_ifs with hinfinite hnan hpartial hnone
  · simp only [Exact.ofUnpacked, hsign, hbits]
  · rfl
  · rw [hnone]
    simp only [Exact.ofUnpacked, hsign, hbits]
  · simp only [Exact.ofUnpacked, hsign, hbits, hfraction, hexponent]
    congr 1
    rw [← hbits, hpartial]
    rfl
  · have hmantissa :=
      toNat_implicit_append (@unpackMantissa Format.binary64 x.toModel.toBits.toBitVec)
    simp only [Exact.ofUnpacked, hsign, hbits, hexponent]
    rw [hmantissa, hfraction]
    rfl

/-- A finite double is unpacked to zero or to its mantissa and exponent. -/
theorem unpack_of_exact {x : Float} {negative : Bool} {mantissa : Nat} {exponent : Int}
    (h : exact x = .finite negative mantissa exponent) :
    (mantissa = 0 ∧ exponent = -1074 ∧ x.toModel.unpack = .zero (signOf negative)) ∨
      ∃ hcanonical : Canonical mantissa exponent,
        x.toModel.unpack = .finite (signOf negative) mantissa exponent hcanonical.pos := by
  have hcases := (of_exact_eq_finite h).2
  rw [exact_eq_ofUnpacked] at h
  cases hunpack : x.toModel.unpack with
  | notANumber =>
    rw [hunpack] at h
    cases h
  | infinity sign =>
    rw [hunpack] at h
    cases h
  | zero sign =>
    obtain ⟨negative', rfl⟩ := exists_signOf sign
    rw [hunpack, Exact.ofUnpacked, signOf_beq] at h
    obtain ⟨rfl, rfl, rfl⟩ := Exact.finite.inj h
    exact Or.inl ⟨rfl, rfl, rfl⟩
  | finite sign mantissa' exponent' hpos =>
    obtain ⟨negative', rfl⟩ := exists_signOf sign
    rw [hunpack, Exact.ofUnpacked, signOf_beq] at h
    obtain ⟨rfl, rfl, rfl⟩ := Exact.finite.inj h
    exact Or.inr ⟨hcases.resolve_left fun hzero => hpos.ne' hzero.1, rfl⟩

/-- The arithmetic of floats works on the same mantissa and exponent that `exact` shows. -/
theorem Canonical.unpack_eq {x : Float} {negative : Bool} {mantissa : Nat} {exponent : Int}
    (h : Canonical mantissa exponent) (hx : exact x = .finite negative mantissa exponent) :
    x.toModel.unpack = .finite (signOf negative) mantissa exponent h.pos := by
  obtain ⟨_, hunpack⟩ := (unpack_of_exact hx).resolve_left fun hzero => h.pos.ne' hzero.1
  exact hunpack

theorem unpack_eq_zero {x : Float} {negative : Bool} {exponent : Int}
    (hx : exact x = .finite negative 0 exponent) : x.toModel.unpack = .zero (signOf negative) := by
  obtain ⟨-, -, hunpack⟩ := (unpack_of_exact hx).resolve_right fun h => h.1.pos.ne' rfl
  exact hunpack

theorem isFinite_of_exact {x : Float} {negative : Bool} {mantissa : Nat} {exponent : Int}
    (h : exact x = .finite negative mantissa exponent) : x.isFinite = true := by
  show x.toModel.unpack.isFinite = true
  rcases unpack_of_exact h with ⟨-, -, hunpack⟩ | ⟨hcanonical, hunpack⟩
  · rw [hunpack]
    rfl
  · rw [hunpack]
    rfl

/-! ## Signs -/

theorem neg_signOf (negative : Bool) : -signOf negative = signOf !negative := by
  cases negative <;> rfl

section

variable {x : Float} {negative : Bool} {mantissa : Nat} {exponent : Int}
  (h : exact x = .finite negative mantissa exponent)

include h

/-- Negation changes the sign and nothing else, also that of a zero. -/
theorem exact_neg : exact (-x) = .finite (!negative) mantissa exponent := by
  show exact (.ofModel (.pack x.toModel.unpack.neg)) = _
  rcases unpack_of_exact h with ⟨rfl, rfl, hunpack⟩ | ⟨hcanonical, hunpack⟩
  · rw [hunpack, UnpackedFloat.neg, neg_signOf, exact_packZero]
  · rw [hunpack, UnpackedFloat.neg, neg_signOf, exact_pack hcanonical]

theorem exact_abs : exact x.abs = .finite false mantissa exponent := by
  show exact (.ofModel (.pack x.toModel.unpack.abs)) = _
  rcases unpack_of_exact h with ⟨rfl, rfl, hunpack⟩ | ⟨hcanonical, hunpack⟩
  · rw [hunpack, UnpackedFloat.abs]
    exact exact_packZero false
  · rw [hunpack, UnpackedFloat.abs]
    exact exact_pack hcanonical false hcanonical.pos

end

/-! ## Numbers -/

/-- The rational number that a sign, a mantissa and an exponent stand for. -/
def Exact.rational? : Exact → Option ℚ
  | .finite negative mantissa exponent => some (signed negative mantissa * 2 ^ exponent)
  | _ => none

/-- The rational number that a finite double stands for. -/
def rational? (x : Float) : Option ℚ :=
  (exact x).rational?

/-- The rational number of a float, from its sign, mantissa and exponent. -/
theorem rational?_of_exact {x : Float} {negative : Bool} {mantissa : Nat} {exponent : Int}
    (h : exact x = .finite negative mantissa exponent) :
    rational? x = some ((signed negative mantissa : ℚ) * 2 ^ exponent) := by
  rw [rational?, h, Exact.rational?]

/-- Only finite floats are rational numbers. -/
theorem exists_exact_of_rational? {x : Float} {q : ℚ} (h : rational? x = some q) :
    ∃ negative mantissa exponent, exact x = .finite negative mantissa exponent ∧
      q = signed negative mantissa * 2 ^ exponent := by
  cases hexact : exact x with
  | nan =>
    rw [rational?, hexact] at h
    cases h
  | infinite negative =>
    rw [rational?, hexact] at h
    cases h
  | finite negative mantissa exponent =>
    rw [rational?_of_exact hexact, Option.some.injEq] at h
    exact ⟨negative, mantissa, exponent, rfl, h.symm⟩

theorem two_zpow_pos (e : Int) : (0 : ℚ) < 2 ^ e :=
  zpow_pos (by norm_num) e

theorem two_zpow_add (a b : Int) : (2 : ℚ) ^ (a + b) = 2 ^ a * 2 ^ b :=
  zpow_add₀ (by norm_num) a b

namespace Canonical

variable {mantissa mantissa' : Nat} {exponent exponent' : Int}

/-- A larger exponent makes a larger number, since a smaller one goes with at most 53 bits. -/
theorem lt_of_exponent_lt (h : Canonical mantissa exponent) (h' : Canonical mantissa' exponent')
    (hlt : exponent < exponent') :
    (mantissa : ℚ) * 2 ^ exponent < mantissa' * 2 ^ exponent' := by
  have hleast := h.least
  have hfull : 2 ^ 52 ≤ mantissa' := h'.full.resolve_right (by omega)
  have hupper : (mantissa : ℚ) < 2 ^ 53 := by exact_mod_cast h.lt
  have hlower : (2 : ℚ) ^ 52 ≤ mantissa' := by exact_mod_cast hfull
  have hpow : (2 : ℚ) ^ (exponent + 1) ≤ 2 ^ exponent' := zpow_le_zpow_right₀ (by norm_num) hlt
  calc (mantissa : ℚ) * 2 ^ exponent
      < 2 ^ 53 * 2 ^ exponent := by
        exact mul_lt_mul_of_pos_right hupper (two_zpow_pos exponent)
    _ = 2 ^ 52 * 2 ^ (exponent + 1) := by
        rw [two_zpow_add]
        ring
    _ ≤ mantissa' * 2 ^ exponent' := by
        apply mul_le_mul hlower hpow (two_zpow_pos _).le (by positivity)

/-- Canonical numbers compare by their exponents first, then by their mantissas. -/
theorem lt_iff (h : Canonical mantissa exponent) (h' : Canonical mantissa' exponent') :
    (mantissa : ℚ) * 2 ^ exponent < mantissa' * 2 ^ exponent' ↔
      exponent < exponent' ∨ (exponent = exponent' ∧ mantissa < mantissa') := by
  rcases lt_trichotomy exponent exponent' with hlt | rfl | hgt
  · exact iff_of_true (h.lt_of_exponent_lt h' hlt) (Or.inl hlt)
  · rw [mul_lt_mul_iff_left₀ (two_zpow_pos exponent), Nat.cast_lt]
    constructor
    · intro hlt
      exact Or.inr ⟨rfl, hlt⟩
    · rintro (hlt | ⟨-, hlt⟩)
      · exact absurd hlt (lt_irrefl _)
      · exact hlt
  · refine iff_of_false (h'.lt_of_exponent_lt h hgt).not_gt ?_
    rintro (hlt | ⟨rfl, -⟩)
    · exact absurd hlt hgt.not_gt
    · exact absurd hgt (lt_irrefl _)

end Canonical

/-- Doubles without sign are compared as the numbers that they stand for. -/
theorem lt_iff_of_exact {x y : Float} {mantissa mantissa' : Nat} {exponent exponent' : Int}
    (hx : exact x = .finite false mantissa exponent)
    (hy : exact y = .finite false mantissa' exponent') :
    x < y ↔ (mantissa : ℚ) * 2 ^ exponent < mantissa' * 2 ^ exponent' := by
  have hlt : x < y ↔ x.toModel.unpack.compare y.toModel.unpack = some .lt := by
    show decide (UnpackedFloat.lt _ _ = true) = true ↔ _
    rw [decide_eq_true_iff, UnpackedFloat.lt, beq_iff_eq]
  rw [hlt]
  rcases unpack_of_exact hx with ⟨rfl, -, hunpack⟩ | ⟨hcanonical, hunpack⟩ <;>
    rcases unpack_of_exact hy with ⟨rfl, -, hunpack'⟩ | ⟨hcanonical', hunpack'⟩ <;>
    rw [hunpack, hunpack']
  · simp [UnpackedFloat.compare]
  · refine iff_of_true rfl ?_
    rw [Nat.cast_zero, zero_mul]
    exact mul_pos (Nat.cast_pos.2 hcanonical'.pos) (two_zpow_pos _)
  · refine iff_of_false ?_ ?_
    · simp [UnpackedFloat.compare, signOf]
    · rw [Nat.cast_zero, zero_mul, not_lt]
      exact (mul_pos (Nat.cast_pos.2 hcanonical.pos) (two_zpow_pos _)).le
  · rw [hcanonical.lt_iff hcanonical']
    show some ((compare exponent exponent').then (compare mantissa mantissa')) = some .lt ↔ _
    rw [Option.some.injEq, Ordering.then_eq_lt, compare_lt_iff_lt, compare_eq_iff_eq,
      compare_lt_iff_lt]

end Drawscript.Number
