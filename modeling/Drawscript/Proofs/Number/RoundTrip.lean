import Drawscript.Proofs.Number.Reader

/-!
# Numbers survive as text

The shortest decimal of a double lies among the numbers that round to it (`roundsTo_shortest`), and
a decimal written without an exponent is read as a decimal of the same value
(`decimal?_positional`). So a finite double is read back from its text (`finite?_plain`), and an
integer is read as the double nearest to it (`finite?_toString`): the text that stands in for a
value reads back as its number (`Value.finite?_expressionText`).
-/

set_option autoImplicit false

namespace Drawscript

namespace Number

/-! ## The shortest decimal rounds to the double -/

theorem zpow_eq_div (b : ℚ) (e : Int) : b ^ e = b ^ e.toNat / b ^ (-e).toNat := by
  obtain ⟨n, rfl | rfl⟩ := Int.eq_nat_or_neg e
  · have hneg : (-(n : Int)).toNat = 0 := by omega
    rw [hneg, pow_zero, div_one, Int.toNat_natCast, zpow_natCast]
  · have hneg : (-(n : Int)).toNat = 0 := by omega
    rw [neg_neg, hneg, pow_zero, Int.toNat_natCast, zpow_neg, zpow_natCast, one_div]

namespace RoundingInterval

/-- The number lies in the interval, whose ends count if it is closed. -/
structure Contains (interval : RoundingInterval) (q : ℚ) : Prop where
  low : (interval.low : ℚ) / interval.den ≤ q
  high : q ≤ interval.high / interval.den
  low_ne : interval.closed = false → (interval.low : ℚ) / interval.den ≠ q
  high_ne : interval.closed = false → q ≠ interval.high / interval.den

section

variable {interval : RoundingInterval} (hden : 0 < interval.den)

include hden

/-- An end of the interval, over a common denominator with the multiples of a power of ten. -/
theorem cast_end (n : Nat) (exponent : Int) :
    ((n * Nat.pow 10 (-exponent).toNat : Nat) : ℚ) =
      n / interval.den * (interval.den * 10 ^ (-exponent).toNat) := by
  have hden : (interval.den : ℚ) ≠ 0 := Nat.cast_ne_zero.2 hden.ne'
  rw [← mul_assoc, div_mul_cancel₀ _ hden, Nat.pow_eq]
  push_cast
  rfl

/-- A multiple of a power of ten, over a common denominator with the ends of the interval. -/
theorem cast_multiple (n : Nat) (exponent : Int) :
    ((n * (interval.den * Nat.pow 10 exponent.toNat) : Nat) : ℚ) =
      n * 10 ^ exponent * (interval.den * 10 ^ (-exponent).toNat) := by
  have hden : (interval.den : ℚ) ≠ 0 := Nat.cast_ne_zero.2 hden.ne'
  rw [zpow_eq_div, Nat.pow_eq]
  push_cast
  field_simp

/-- A multiple of a power of ten is only found in the interval. -/
theorem contains_of_gridPoint? {tie : Tie} {exponent : Int} {d : Decimal}
    (h : interval.gridPoint? tie exponent = some d) : interval.Contains d.value := by
  have hpos : (0 : ℚ) < interval.den * 10 ^ (-exponent).toNat := by positivity
  unfold gridPoint? at h
  extract_lets unit scale inside below twice middle nearer farther at h
  have hcontains : ∀ n, inside n = true → interval.Contains (n * 10 ^ exponent) := by
    intro n hn
    simp only [inside] at hn
    split_ifs at hn with hclosed
    · rw [Bool.and_eq_true, decide_eq_true_eq, decide_eq_true_eq, ← Nat.cast_le (α := ℚ),
        ← Nat.cast_le (α := ℚ), cast_end hden, cast_end hden, cast_multiple hden,
        mul_le_mul_iff_left₀ hpos, mul_le_mul_iff_left₀ hpos] at hn
      refine ⟨hn.1, hn.2, fun hopen => ?_, fun hopen => ?_⟩ <;> rw [hclosed] at hopen <;>
        cases hopen
    · rw [Bool.and_eq_true, decide_eq_true_eq, decide_eq_true_eq, ← Nat.cast_lt (α := ℚ),
        ← Nat.cast_lt (α := ℚ), cast_end hden, cast_end hden, cast_multiple hden,
        mul_lt_mul_iff_left₀ hpos, mul_lt_mul_iff_left₀ hpos] at hn
      exact ⟨hn.1.le, hn.2.le, fun _ => hn.1.ne, fun _ => hn.2.ne⟩
  split_ifs at h with hnearer hfarther
  · cases h
    exact hcontains nearer hnearer
  · cases h
    exact hcontains farther hfarther

end

section

variable {mantissa : Nat} {exponent : Int}

theorem den_of_pos : 0 < (RoundingInterval.of mantissa exponent).den :=
  Nat.pow_pos (by decide)

/-- The ends of the interval of a double are multiples of a quarter of its unit. -/
theorem quarters_div_den (quarters : Nat) :
    ((quarters * pow2 (exponent - 2).toNat : Nat) : ℚ) /
      (RoundingInterval.of mantissa exponent).den = quarters / 4 * 2 ^ exponent := by
  have hden : ((RoundingInterval.of mantissa exponent).den : ℚ) = 2 ^ (-(exponent - 2)).toNat := by
    rw [neg_sub]
    exact Nat.cast_pow 2 _
  have hscale : (pow2 (exponent - 2).toNat : ℚ) = 2 ^ (exponent - 2).toNat := Nat.cast_pow 2 _
  rw [Nat.cast_mul, hscale, hden, mul_div_assoc, ← zpow_eq_div, zpow_sub₀ (by norm_num)]
  ring

theorem low_div_den (hpos : 0 < mantissa) :
    ((RoundingInterval.of mantissa exponent).low : ℚ) /
      (RoundingInterval.of mantissa exponent).den =
        (mantissa - reachBelow mantissa exponent) * 2 ^ exponent := by
  let reach : Nat := if mantissa = 2 ^ 52 ∧ -1074 < exponent then 1 else 2
  refine (quarters_div_den (4 * mantissa - reach)).trans ?_
  simp only [reach, reachBelow]
  split_ifs
  · rw [Nat.cast_sub (by omega)]
    push_cast
    ring
  · rw [Nat.cast_sub (by omega)]
    push_cast
    ring

theorem high_div_den :
    ((RoundingInterval.of mantissa exponent).high : ℚ) /
      (RoundingInterval.of mantissa exponent).den = (mantissa + 1 / 2) * 2 ^ exponent := by
  refine (quarters_div_den (4 * mantissa + 2)).trans ?_
  push_cast
  ring

/-- The interval of a double holds the numbers that round to it. -/
theorem roundsTo_of_contains (hcanonical : Canonical mantissa exponent) {q : ℚ}
    (h : (RoundingInterval.of mantissa exponent).Contains q) : RoundsTo q mantissa exponent := by
  have hclosed : (RoundingInterval.of mantissa exponent).closed = decide (mantissa % 2 = 0) := rfl
  obtain ⟨hlow, hhigh, hlow_ne, hhigh_ne⟩ := h
  rw [low_div_den hcanonical.pos] at hlow hlow_ne
  rw [high_div_den] at hhigh hhigh_ne
  rw [hclosed, decide_eq_false_iff_not] at hlow_ne hhigh_ne
  exact ⟨hcanonical, hlow, hhigh, fun heq => not_not.1 fun hodd => hlow_ne hodd heq,
    fun heq => not_not.1 fun hodd => hhigh_ne hodd heq⟩

end

end RoundingInterval

theorem value_allDigits (mantissa : Nat) (exponent : Int) :
    (allDigits mantissa exponent).value = mantissa * 2 ^ exponent := by
  rw [allDigits]
  split_ifs with hsign
  · obtain ⟨power, rfl⟩ := Int.eq_ofNat_of_zero_le hsign
    simp [Decimal.value, pow2]
  · obtain ⟨power, rfl⟩ : ∃ power : Nat, exponent = -power := ⟨exponent.natAbs, by omega⟩
    have hten : (10 : ℚ) ^ power = 2 ^ power * 5 ^ power := by
      rw [← mul_pow]
      norm_num
    have hpower : (- -(power : Int)).toNat = power := by omega
    simp only [Decimal.value, hpower, Nat.pow_eq, zpow_neg, zpow_natCast, hten]
    push_cast
    field_simp

/-- The shortest decimal of a double rounds to it. -/
theorem roundsTo_shortest {mantissa : Nat} {exponent : Int} (h : Canonical mantissa exponent)
    (tie : Tie) : RoundsTo (shortest tie mantissa exponent).value mantissa exponent := by
  rw [shortest]
  cases hfound : List.findSome? _ (List.range 21) with
  | none =>
    rw [Option.getD_none, value_allDigits]
    exact h.roundsTo
  | some d =>
    rw [Option.getD_some]
    obtain ⟨step, -, hstep⟩ := List.exists_of_findSome?_eq_some hfound
    exact RoundingInterval.roundsTo_of_contains h
      (RoundingInterval.contains_of_gridPoint? RoundingInterval.den_of_pos hstep)

/-! ## Digits -/

theorem digitsValue_digitsOf (n : Nat) : digitsValue (digitsOf n) = n := by
  rw [digitsOf, Nat.toList_repr]
  exact Nat.ofDigitChars_ten_toDigits

theorem digitsValue_append_zeros (digits : List Char) (k : Nat) :
    digitsValue (digits ++ List.replicate k '0') = 10 ^ k * digitsValue digits := by
  have happend : digitsValue (digits ++ List.replicate k '0') =
      Nat.ofDigitChars 10 (List.replicate k '0') (digitsValue digits) := Nat.ofDigitChars_append 0
  rw [happend, Nat.ofDigitChars_replicate_zero]

theorem digitsValue_zeros_append (k : Nat) (digits : List Char) :
    digitsValue (List.replicate k '0' ++ digits) = digitsValue digits := by
  have happend : digitsValue (List.replicate k '0' ++ digits) =
      Nat.ofDigitChars 10 digits (Nat.ofDigitChars 10 (List.replicate k '0') 0) :=
    Nat.ofDigitChars_append 0
  rw [happend, Nat.ofDigitChars_replicate_zero, Nat.mul_zero]
  rfl

section

variable {whole places : List Char} (hwhole : ∀ c ∈ whole, c.isDigit = true)

include hwhole

theorem decimal?_digits (hne : whole ≠ []) : decimal? whole = some ⟨digitsValue whole, 0⟩ := by
  have htake : whole.takeWhile Char.isDigit = whole := List.takeWhile_eq_self_iff.2 hwhole
  have hdrop : whole.dropWhile Char.isDigit = [] := List.dropWhile_eq_nil_iff.2 hwhole
  have hempty : whole.isEmpty = false := List.isEmpty_eq_false_iff.2 hne
  simp only [decimal?, htake, hdrop, takeFraction, hempty]
  simp [exponent?]

theorem decimal?_point (hplaces : ∀ c ∈ places, c.isDigit = true)
    (hne : whole ≠ [] ∨ places ≠ []) :
    decimal? (whole ++ '.' :: places) =
      some ⟨digitsValue (whole ++ places), -(places.length : Int)⟩ := by
  have hpoint : ∀ c ∈ ('.' :: places).head?, Char.isDigit c = false := by
    rintro c ⟨⟩
    rfl
  have htake : (whole ++ '.' :: places).takeWhile Char.isDigit = whole := by
    rw [List.takeWhile_append_of_pos hwhole]
    simp
  have hdrop : (whole ++ '.' :: places).dropWhile Char.isDigit = '.' :: places := by
    rw [List.dropWhile_append_of_pos hwhole]
    rfl
  have htake' : places.takeWhile Char.isDigit = places := List.takeWhile_eq_self_iff.2 hplaces
  have hdrop' : places.dropWhile Char.isDigit = [] := List.dropWhile_eq_nil_iff.2 hplaces
  have hempty : (whole.isEmpty && places.isEmpty) = false := by
    rw [Bool.and_eq_false_iff, List.isEmpty_eq_false_iff, List.isEmpty_eq_false_iff]
    exact hne
  simp only [decimal?, htake, hdrop, takeFraction, htake', hdrop', hempty]
  simp [exponent?]

end

/-- A decimal without an exponent is read as a decimal of the same value. -/
theorem decimal?_positional (d : Decimal) :
    ∃ d', decimal? d.positional = some d' ∧ d'.value = d.value := by
  have hdigits : ∀ c ∈ digitsOf d.digits, c.isDigit = true := fun _ => isDigit_of_mem_digitsOf
  have hzeros : ∀ (k : Nat), ∀ c ∈ List.replicate k '0', c.isDigit = true := by
    intro k c hc
    rw [List.eq_of_mem_replicate hc]
    rfl
  have hplaces_eq (hsign : ¬0 ≤ d.exponent) : -((-d.exponent).toNat : Int) = d.exponent := by
    omega
  have hne := digitsOf_ne_nil d.digits
  simp only [Decimal.positional]
  split_ifs with hsign hplaces
  · -- zeros stand for the power of ten
    refine ⟨_, decimal?_digits (List.forall_mem_append.2 ⟨hdigits, hzeros _⟩) (by simp [hne]), ?_⟩
    obtain ⟨power, hpower⟩ := Int.eq_ofNat_of_zero_le hsign
    rw [digitsValue_append_zeros, digitsValue_digitsOf, Decimal.value, Decimal.value, hpower,
      Int.toNat_natCast, zpow_zero, mul_one, zpow_natCast]
    push_cast
    rw [mul_comm]
  · -- the point divides the digits
    refine ⟨_, decimal?_point (fun c hc => hdigits c (List.mem_of_mem_take hc))
      (fun c hc => hdigits c (List.mem_of_mem_drop hc)) (Or.inl ?_), ?_⟩
    · rw [← List.length_pos_iff, List.length_take]
      omega
    · have hlength : ((digitsOf d.digits).drop ((digitsOf d.digits).length -
          (-d.exponent).toNat)).length = (-d.exponent).toNat := by
        rw [List.length_drop]
        omega
      rw [hlength, List.take_append_drop, digitsValue_digitsOf, hplaces_eq hsign]
  · -- all digits are places, after zeros
    have hplace : ∀ c ∈ List.replicate ((-d.exponent).toNat - (digitsOf d.digits).length) '0' ++
        digitsOf d.digits, c.isDigit = true := List.forall_mem_append.2 ⟨hzeros _, hdigits⟩
    have hread := decimal?_point (hzeros 1) hplace (Or.inl (List.cons_ne_nil _ _))
    refine ⟨_, hread, ?_⟩
    have hlength : (List.replicate ((-d.exponent).toNat - (digitsOf d.digits).length) '0' ++
        digitsOf d.digits).length = (-d.exponent).toNat := by
      rw [List.length_append, List.length_replicate]
      omega
    rw [hlength, digitsValue_zeros_append 1, digitsValue_zeros_append, digitsValue_digitsOf,
      hplaces_eq hsign]

/-! ## Numerals -/

open Drawscript.Text

theorem takeSign_signText {body : List Char}
    (h : ∀ c ∈ body.head?, c.isDigit = true ∨ c = '.') (negative : Bool) :
    takeSign (signText negative ++ body) = (negative, body) := by
  cases negative with
  | true => rfl
  | false =>
    show takeSign body = (false, body)
    cases body with
    | nil => rfl
    | cons c body =>
      have hdigit := h c rfl
      unfold takeSign
      split
      · next heq =>
        cases heq
        rcases hdigit with hdigit | hdigit <;> cases hdigit
      · next heq =>
        cases heq
        rcases hdigit with hdigit | hdigit <;> cases hdigit
      · rfl

/-- A text that starts with a digit is no name of a special value. -/
theorem magnitude?_of_isDigit {body : List Char} (hne : body ≠ [])
    (h : ∀ c ∈ body.head?, c.isDigit = true) :
    magnitude? body = (decimal? body).map Decimal.toFloat := by
  have hname : ∀ {name : List Char}, (∀ c ∈ name.head?, c.isDigit = false) →
      sameLetters body name = false := by
    intro name hname
    by_contra hsame
    have hheads : (body.map Char.toLower).head? = (name.map Char.toLower).head? :=
      congrArg List.head? (beq_iff_eq.1 (Bool.eq_true_of_not_eq_false hsame))
    obtain ⟨c, body, rfl⟩ := List.exists_cons_of_ne_nil hne
    cases name with
    | nil => cases hheads
    | cons d name =>
      have hlower := congrArg Char.isDigit (Option.some.inj hheads)
      rw [isDigit_toLower, isDigit_toLower, h c rfl, hname d rfl] at hlower
      cases hlower
  have hi : ∀ c ∈ some 'i', c.isDigit = false := by
    rintro c ⟨⟩
    rfl
  have hn : ∀ c ∈ some 'n', c.isDigit = false := by
    rintro c ⟨⟩
    rfl
  have hinf : sameLetters body "inf".toList = false := hname hi
  have hinfinity : sameLetters body "infinity".toList = false := hname hi
  have hnan : sameLetters body "nan".toList = false := hname hn
  rw [magnitude?, hinf, hinfinity, hnan]
  rfl

theorem IsNumeral.isTrimmed {text : List Char} (h : IsNumeral text) : IsTrimmed text where
  ne_nil := by
    obtain ⟨negative, body, rfl, hne, -⟩ := h
    exact List.append_ne_nil_of_right_ne_nil _ hne
  trim_eq := by
    apply trim_eq_self
    · exact fun _ hc => h.isBlank_of_mem (List.mem_of_mem_head? hc)
    · exact fun _ hc => h.isBlank_of_mem (List.mem_of_mem_getLast? hc)

theorem IsNumeral.unquote?_eq {text : List Char} (h : IsNumeral text) : unquote? text = none := by
  refine unquote?_of_not_mem fun hmem => ?_
  rcases h.mem hmem with hc | hc | hc <;> cases hc

/-- A numeral is read as its magnitude, with its sign. -/
theorem finite?_eq (negative : Bool) {body : List Char} (hne : body ≠ [])
    (hbody : ∀ c ∈ body, c.isDigit = true ∨ c = '.') :
    finite? (signText negative ++ body) =
      ((magnitude? body).map fun x => if negative then -x else x).filter Float.isFinite := by
  have hnumeral : IsNumeral (signText negative ++ body) := ⟨negative, body, rfl, hne, hbody⟩
  have htake := takeSign_signText (fun c hc => hbody c (List.mem_of_mem_head? hc)) negative
  simp only [finite?, hnumeral.isTrimmed.trim_eq, read?, htake]

/-- A numeral is read as the double to which its digits round, with its sign. -/
theorem finite?_signText {negative : Bool} {body : List Char} (hne : body ≠ [])
    (hbody : ∀ c ∈ body, c.isDigit = true ∨ c = '.')
    (hhead : ∀ c ∈ body.head?, c.isDigit = true) {d : Decimal} (hd : decimal? body = some d)
    {x : Float} (hx : (if negative then -d.toFloat else d.toFloat) = x)
    (hfinite : x.isFinite = true) : finite? (signText negative ++ body) = some x := by
  rw [finite?_eq negative hne hbody, magnitude?_of_isDigit hne hhead, hd, Option.map_some,
    Option.map_some, hx, Option.filter_some, if_pos hfinite]

/-- Digits are read as a decimal without places. -/
theorem finite?_digitsOf {negative : Bool} {n : Nat} {x : Float}
    (hx : (if negative then -Decimal.toFloat ⟨n, 0⟩ else Decimal.toFloat ⟨n, 0⟩) = x)
    (hfinite : x.isFinite = true) : finite? (signText negative ++ digitsOf n) = some x := by
  have hdigits : ∀ c ∈ digitsOf n, c.isDigit = true := fun _ => isDigit_of_mem_digitsOf
  have hread := decimal?_digits hdigits (digitsOf_ne_nil n)
  rw [digitsValue_digitsOf] at hread
  exact finite?_signText (digitsOf_ne_nil n) (fun c hc => Or.inl (hdigits c hc))
    (fun c hc => hdigits c (List.mem_of_mem_head? hc)) hread hx hfinite

theorem head?_positional (d : Decimal) : ∀ c ∈ d.positional.head?, c.isDigit = true := by
  have hdigits : ∀ c ∈ digitsOf d.digits, c.isDigit = true := fun _ => isDigit_of_mem_digitsOf
  have hne := digitsOf_ne_nil d.digits
  intro c hc
  simp only [Decimal.positional] at hc
  split_ifs at hc with hsign hplaces
  · rw [List.head?_append_of_ne_nil _ hne] at hc
    exact hdigits c (List.mem_of_mem_head? hc)
  · have htake :
        (digitsOf d.digits).take ((digitsOf d.digits).length - (-d.exponent).toNat) ≠ [] := by
      rw [← List.length_pos_iff, List.length_take]
      omega
    rw [List.head?_append_of_ne_nil _ htake] at hc
    exact hdigits c (List.mem_of_mem_take (List.mem_of_mem_head? hc))
  · cases hc
    rfl

/-- A decimal with a sign is read as the double to which it rounds. -/
theorem finite?_positional {x : Float} {negative : Bool} {mantissa : Nat} {exponent : Int}
    (hx : exact x = .finite negative mantissa exponent) {d : Decimal}
    (h : RoundsTo d.value mantissa exponent) :
    finite? (signText negative ++ d.positional) = some x := by
  obtain ⟨d', hread, hvalue⟩ := decimal?_positional d
  have hmagnitude : exact d'.toFloat = .finite false mantissa exponent :=
    d'.exact_toFloat (hvalue.symm ▸ h)
  refine finite?_signText (positional_ne_nil d) (fun _ => mem_positional) (head?_positional d)
    hread ?_ (isFinite_of_exact hx)
  apply eq_of_exact_eq _ hx
  cases negative with
  | false => exact hmagnitude
  | true => exact exact_neg hmagnitude

theorem toList_plain {x : Float} {negative : Bool} {mantissa : Nat} {exponent : Int}
    (h : exact x = .finite negative mantissa exponent) (hne : mantissa ≠ 0) :
    (plain x).toList = signText negative ++ (shortest .up mantissa exponent).positional := by
  obtain ⟨n, rfl⟩ := Nat.exists_eq_succ_of_ne_zero hne
  rw [plain, h]
  exact String.toList_ofList

/-- **A finite double is read back from its text.** -/
theorem finite?_plain {x : Float} (h : x.isFinite = true) : finite? (plain x).toList = some x := by
  obtain ⟨negative, mantissa, exponent, hexact⟩ := exists_exact_of_isFinite h
  rcases (of_exact_eq_finite hexact).2 with ⟨rfl, rfl⟩ | hcanonical
  · have hplain : (plain x).toList = signText negative ++ digitsOf 0 := by
      rw [plain, hexact]
      exact String.toList_ofList
    rw [hplain]
    refine finite?_digitsOf ?_ h
    apply eq_of_exact_eq _ hexact
    cases negative <;> decide +kernel
  · rw [toList_plain hexact hcanonical.pos.ne']
    exact finite?_positional hexact (roundsTo_shortest hcanonical .up)

theorem toFloat_whole {n : Nat} (h : n < 10 ^ 20) : Decimal.toFloat ⟨n, 0⟩ = Float.ofNat n := by
  have hcount : digitCount n ≤ 20 := (Nat.length_repr_le_iff (by norm_num)).2 h
  rw [Decimal.toFloat]
  by_cases hzero : n = 0
  · rw [if_pos (Or.inl hzero), hzero]
    rfl
  · rw [if_neg (by simp only; omega), if_neg (by simp only; omega)]
    rfl

theorem natAbs_toInt_lt (n : Int64) : n.toInt.natAbs < 10 ^ 20 := by
  have hlt := n.toInt_lt
  have hge := n.le_toInt
  omega

/-- **A 64-bit integer is read from its text as the nearest double.** -/
theorem finite?_toString (n : Int64) : finite? (toString n.toInt).toList = some (ofInt64 n) := by
  obtain ⟨mantissa, exponent, hexact⟩ := exists_exact_ofInt64 n
  rw [toList_toString]
  refine finite?_digitsOf ?_ (isFinite_of_exact hexact)
  rw [toFloat_whole (natAbs_toInt_lt n), ofInt64, ofInt_eq]
  simp only [decide_eq_true_eq]

end Number

/-- **The text that stands in for a finite value reads back as its number.** -/
theorem Value.finite?_expressionText {value : Value} (h : value.isFinite = true) :
    Number.finite? value.expressionText.toList = value.number? := by
  cases value with
  | int n => exact Number.finite?_toString n
  | real x => exact Number.finite?_plain h
  | text s => cases h

end Drawscript
