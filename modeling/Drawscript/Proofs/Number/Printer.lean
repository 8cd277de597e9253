import Drawscript.Proofs.Text.Match
import Drawscript.Value
import Mathlib

/-!
# The form of number texts

The text that stands in for an integer or a finite real is a numeral: a minus sign or none, and then
digits, possibly with a point among them (`IsNumeral`, `Value.isNumeral_expressionText`). So it
holds no character of a name but digits, and no sign but at its start.
-/

set_option autoImplicit false

namespace Drawscript

namespace Number

open Text

/-- A minus sign or none, and a nonempty text of digits and points. -/
def IsNumeral (text : List Char) : Prop :=
  ∃ negative body, text = signText negative ++ body ∧ body ≠ [] ∧
    ∀ c ∈ body, c.isDigit = true ∨ c = '.'

/-- The characters of a numeral are a sign, points and digits. -/
theorem IsNumeral.mem {text : List Char} (h : IsNumeral text) {c : Char} (hc : c ∈ text) :
    c = '-' ∨ c = '.' ∨ c.isDigit = true := by
  obtain ⟨negative, body, rfl, -, hbody⟩ := h
  rcases List.mem_append.1 hc with hsign | hmem
  · cases negative with
    | false => cases hsign
    | true => exact Or.inl (List.mem_singleton.1 hsign)
  · exact Or.inr (hbody c hmem).symm

theorem IsNumeral.isBlank_of_mem {text : List Char} (h : IsNumeral text) {c : Char}
    (hc : c ∈ text) : isBlank c = false := by
  rcases h.mem hc with rfl | rfl | hdigit
  · rfl
  · rfl
  · exact isBlank_of_isWordChar (isWordChar_iff.2 (Or.inl (isDigit_iff.1 hdigit)))

/-! ## Digits -/

theorem digitsOf_ne_nil (n : Nat) : digitsOf n ≠ [] := by
  rw [digitsOf, Nat.toList_repr]
  exact Nat.toDigits_ne_nil

/-- A natural number is written in digits only. -/
theorem isDigit_of_mem_digitsOf {n : Nat} {c : Char} (h : c ∈ digitsOf n) : c.isDigit = true := by
  rw [digitsOf, Nat.toList_repr] at h
  exact Nat.isDigit_of_mem_toDigits (by decide) (by decide) h

theorem isNumeral_digitsOf (negative : Bool) (n : Nat) :
    IsNumeral (signText negative ++ digitsOf n) :=
  ⟨negative, digitsOf n, rfl, digitsOf_ne_nil n, fun _ hc => Or.inl (isDigit_of_mem_digitsOf hc)⟩

theorem toList_toString (n : Int) :
    (toString n).toList = signText (decide (n < 0)) ++ digitsOf n.natAbs := by
  cases n with
  | ofNat m =>
    have hsign : decide (Int.ofNat m < 0) = false :=
      decide_eq_false (Int.not_lt.2 (Int.natCast_nonneg m))
    rw [hsign]
    rfl
  | negSucc m =>
    rw [decide_eq_true (Int.negSucc_lt_zero m)]
    exact String.toList_append

/-- An integer is written as a numeral. -/
theorem isNumeral_int (n : Int) : IsNumeral (toString n).toList := by
  rw [toList_toString]
  exact isNumeral_digitsOf _ _

/-! ## Decimals -/

theorem positional_ne_nil (d : Decimal) : d.positional ≠ [] := by
  simp only [Decimal.positional]
  split_ifs
  · exact List.append_ne_nil_of_left_ne_nil (digitsOf_ne_nil _) _
  · exact List.append_ne_nil_of_right_ne_nil _ (List.cons_ne_nil _ _)
  · exact List.cons_ne_nil _ _

theorem mem_positional {d : Decimal} {c : Char} (h : c ∈ d.positional) :
    c.isDigit = true ∨ c = '.' := by
  have hzero : ∀ {n : Nat}, c ∈ List.replicate n '0' → c.isDigit = true := by
    intro n hc
    rw [List.eq_of_mem_replicate hc]
    rfl
  simp only [Decimal.positional] at h
  split_ifs at h
  · rcases List.mem_append.1 h with h | h
    · exact Or.inl (isDigit_of_mem_digitsOf h)
    · exact Or.inl (hzero h)
  · rcases List.mem_append.1 h with h | h
    · exact Or.inl (isDigit_of_mem_digitsOf (List.mem_of_mem_take h))
    · rcases List.mem_cons.1 h with h | h
      · exact Or.inr h
      · exact Or.inl (isDigit_of_mem_digitsOf (List.mem_of_mem_drop h))
  · simp only [List.cons_append, List.mem_cons, List.mem_append] at h
    rcases h with rfl | h | h | h
    · exact Or.inl rfl
    · exact Or.inr h
    · exact Or.inl (hzero h)
    · exact Or.inl (isDigit_of_mem_digitsOf h)

/-! ## Reals -/

section

open Float.Model Float.Model.UnpackedFloat

/-- The exponent bits of a double. -/
theorem toNat_unpackExponent (bits : BitVec Format.binary64.numBits) :
    (@unpackExponent Format.binary64 bits).toNat = bits.toNat / pow2 52 % 2048 := by
  simp [unpackExponent, BitVec.extractLsb, BitVec.extractLsb', Nat.shiftRight_eq_div_pow, pow2]

/-- A double is finite unless all of its exponent bits are set. -/
theorem exists_exact_of_isFinite {x : Float} (h : x.isFinite = true) :
    ∃ negative mantissa exponent, exact x = .finite negative mantissa exponent := by
  have hbiased : x.toBits.toNat / pow2 52 % 2048 ≠ 2047 := by
    intro hbiased
    have hall : @unpackExponent Format.binary64 x.toModel.toBits.toBitVec = -1#_ := by
      apply BitVec.eq_of_toNat_eq
      rw [toNat_unpackExponent]
      exact hbiased
    simp only [Float.isFinite, Float.Model.isFinite, Float.Model.unpack, UnpackedFloat.unpack,
      hall, if_true] at h
    split_ifs at h <;> cases h
  unfold exact
  simp only [hbiased, if_false]
  split_ifs
  · exact ⟨_, _, _, rfl⟩
  · exact ⟨_, _, _, rfl⟩

end

/-- The text of a finite double is its sign and a text of digits and points. -/
theorem exists_body_plain {x : Float} {negative : Bool} {mantissa : Nat} {exponent : Int}
    (h : exact x = .finite negative mantissa exponent) :
    ∃ body, (plain x).toList = signText negative ++ body ∧ body ≠ [] ∧
      ∀ c ∈ body, c.isDigit = true ∨ c = '.' := by
  unfold plain
  rw [h]
  cases mantissa with
  | zero =>
    exact ⟨digitsOf 0, String.toList_ofList, digitsOf_ne_nil 0,
      fun _ hc => Or.inl (isDigit_of_mem_digitsOf hc)⟩
  | succ n =>
    refine ⟨(shortest .up (n + 1) exponent).positional, String.toList_ofList, ?_, ?_⟩
    · exact positional_ne_nil _
    · intro c hc
      exact mem_positional hc

/-- A finite real is written as a numeral, without an exponent. -/
theorem isNumeral_plain {x : Float} (h : x.isFinite = true) : IsNumeral (plain x).toList := by
  obtain ⟨negative, mantissa, exponent, hexact⟩ := exists_exact_of_isFinite h
  exact ⟨negative, exists_body_plain hexact⟩

end Number

/-! ## Values -/

namespace Value

/-- An integer or a finite real. -/
def isFinite : Value → Bool
  | int _ => true
  | real x => x.isFinite
  | text _ => false

/-- A finite value is put into an expression as a numeral. -/
theorem isNumeral_expressionText {value : Value} (h : value.isFinite = true) :
    Number.IsNumeral value.expressionText.toList := by
  cases value with
  | int n => exact Number.isNumeral_int n.toInt
  | real x => exact Number.isNumeral_plain h
  | text s => cases h

end Value

end Drawscript
