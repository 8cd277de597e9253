import Drawscript.Proofs.Expr.Integers

/-!
# A minus sign before a variable

The legacy mode puts the text of a value in the place of a variable, so a minus sign that is written
before the variable meets the sign of the value. If the value has none, the minus sign becomes its
sign, and the result is the same as that of a subtraction from zero. If the value is negative, or
the negative zero, the two signs stand side by side, and the text is no number any more, while the
subtraction goes on working (`evaluate_leading_minus`).
-/

set_option autoImplicit false

namespace Drawscript

open Number Single Text

/-! ## Signs of numbers and their texts -/

/-- The number has a minus sign: it is below zero, or the negative zero. -/
def Number.isNegative (x : Float) : Bool :=
  match exact x with
  | .finite negative _ _ => negative
  | .infinite negative => negative
  | .nan => false

theorem Number.isNegative_of_exact {x : Float} {negative : Bool} {mantissa : Nat} {exponent : Int}
    (h : exact x = .finite negative mantissa exponent) : isNegative x = negative := by
  rw [isNegative, h]

/-- The text of a value has the sign of its number. -/
theorem Value.ReadsBack.exists_body {value : Value} {y : Float} (h : value.ReadsBack y)
    (hfinite : value.isFinite = true) :
    ∃ body, value.expressionText.toList = signText (isNegative y) ++ body ∧ body ≠ [] ∧
      ∀ c ∈ body, c.isDigit = true ∨ c = '.' := by
  cases value with
  | int n =>
    obtain rfl := Option.some.inj h.1
    obtain ⟨mantissa, exponent, hexact⟩ := exists_exact_ofInt64 n
    rw [isNegative_of_exact hexact]
    exact ⟨digitsOf n.toInt.natAbs, toList_toString n.toInt, digitsOf_ne_nil _,
      fun _ hc => Or.inl (isDigit_of_mem_digitsOf hc)⟩
  | real x =>
    obtain rfl := Option.some.inj h.1
    obtain ⟨negative, mantissa, exponent, hexact⟩ := exists_exact_of_isFinite hfinite
    rw [isNegative_of_exact hexact]
    exact exists_body_plain hexact
  | text s => cases hfinite

section

variable {body : List Char} (hne : body ≠ []) (hbody : ∀ c ∈ body, c.isDigit = true ∨ c = '.')

include hne hbody

/-- A minus sign before a number without sign negates it. -/
theorem finite?_minus {y : Float} (hy : finite? body = some y) :
    finite? ('-' :: body) = some (-y) := by
  have hplain : finite? body = ((magnitude? body).map fun x => x).filter Float.isFinite :=
    finite?_eq false hne hbody
  have hsigned : finite? ('-' :: body) =
      ((magnitude? body).map fun x => -x).filter Float.isFinite := finite?_eq true hne hbody
  rw [hplain, Option.map_id'] at hy
  obtain ⟨hmagnitude, hfinite⟩ := Option.filter_eq_some_iff.1 hy
  obtain ⟨negative, mantissa, exponent, hexact⟩ := exists_exact_of_isFinite hfinite
  rw [hsigned, hmagnitude, Option.map_some, Option.filter_some,
    if_pos (isFinite_of_exact (exact_neg hexact))]

/-- Two minus signs are not read as a sign. -/
theorem finite?_minus_minus : finite? ('-' :: '-' :: body) = none := by
  have hsigned : IsNumeral ('-' :: body) := ⟨true, body, rfl, hne, hbody⟩
  have htrim : trim ('-' :: '-' :: body) = '-' :: '-' :: body := by
    apply trim_eq_self
    · rintro c ⟨⟩
      rfl
    · intro c hc
      rw [List.getLast?_cons_cons] at hc
      exact hsigned.isBlank_of_mem (List.mem_of_mem_getLast? hc)
  rw [finite?, htrim]
  rfl

/-- Both minus signs are taken for signs, so there is no operator. -/
theorem split?_minus_minus : split? ('-' :: '-' :: body) = none := by
  have hsigned : IsNumeral ('-' :: body) := ⟨true, body, rfl, hne, hbody⟩
  rw [split?, List.findSome?_eq_none_iff]
  intro op _
  have hsign : ¬('-' = op.char ∧ isSign none '-' = false) := fun h => Bool.noConfusion h.2
  rw [splitAt?_cons hsign, splitAt?_numeral_eq_none hsigned op rfl, Option.map_none,
    Option.map_none]

end

/-! ## Negation and subtraction from zero -/

/-- A zero of either sign is the integer zero, so its sign does not matter. -/
theorem ofFloat_zero_sub {y : Float} (h : y.isFinite = true) :
    Value.ofFloat (0 - y) = Value.ofFloat (-y) := by
  obtain ⟨negative, mantissa, exponent, hexact⟩ := exists_exact_of_isFinite h
  rcases (of_exact_eq_finite hexact).2 with ⟨rfl, rfl⟩ | hcanonical
  · have hy : rational? y = some 0 := by
      rw [rational?_of_exact hexact, signed_zero, Int.cast_zero, zero_mul]
    have hzero : rational? (0 : Float) = some 0 := by decide +kernel
    have hneg : rational? (-y) = some ((0 : Int) : ℚ) := by
      rw [rational?_neg hy, neg_zero, Int.cast_zero]
    have hsub : rational? (0 - y) = some ((0 : Int) : ℚ) := by
      rw [rational?_sub hzero hy ⟨0, by decide +kernel⟩, sub_zero, Int.cast_zero]
    rw [Value.ofFloat_of_rational? hneg, Value.ofFloat_of_rational? hsub, if_pos (by decide),
      if_pos (by decide)]
  · rw [zero_sub_of_exact hcanonical hexact]

/-! ## The two texts -/

/-- A minus sign before a name, with gaps between them. -/
def negatedText (gaps : List Char) (name : String) : List Char :=
  '-' :: (gaps ++ name.toList)

/-- A name that is subtracted from zero, with gaps around the operator. -/
def zeroMinusText (before after : List Char) (name : String) : List Char :=
  '0' :: (before ++ '-' :: (after ++ name.toList))

section

variable {scope : Scope} (h : scope.Plain) {name : String} {value : Value} {y : Float}
  (hvalue : scope.get? name = some value) (hy : value.ReadsBack y)

include h hvalue

theorem compact_negatedText {gaps : List Char} (hgaps : ∀ c ∈ gaps, Token.isGap c = true) :
    (substitute scope (negatedText gaps name)).filter (fun c => !isBlank c) =
      '-' :: value.expressionText.toList := by
  obtain ⟨hname, hfinite⟩ := h.get? hvalue
  rw [h.substitute_eq, substituteOnce, negatedText, mapRuns_other rfl,
    mapRuns_others fun c hc => isWordChar_of_isGap (hgaps c hc),
    mapRuns_single (isRun_of_isIdentifier hname), Scope.runText_of_get? hvalue, List.filter_cons,
    List.filter_append, filter_gaps hgaps,
    filter_numeral (Value.isNumeral_expressionText hfinite)]
  rfl

theorem compact_zeroMinusText {before after : List Char}
    (hbefore : ∀ c ∈ before, Token.isGap c = true) (hafter : ∀ c ∈ after, Token.isGap c = true) :
    (substitute scope (zeroMinusText before after name)).filter (fun c => !isBlank c) =
      ['0'] ++ '-' :: value.expressionText.toList := by
  obtain ⟨hname, hfinite⟩ := h.get? hvalue
  have hdigit : IsRun ['0'] := ⟨List.cons_ne_nil _ _, List.forall_mem_singleton.2 rfl⟩
  have hminus : startsInWord ('-' :: (after ++ name.toList)) = false := rfl
  have hkept : ['0'].filter (fun c => !isBlank c) = ['0'] := rfl
  have hzero : zeroMinusText before after name =
    ['0'] ++ (before ++ '-' :: (after ++ name.toList)) := rfl
  rw [h.substitute_eq, substituteOnce, hzero, mapRuns_run hdigit (startsInWord_gaps hbefore hminus),
    h.runText_of_isDigit hdigit (List.forall_mem_singleton.2 rfl),
    mapRuns_others fun c hc => isWordChar_of_isGap (hbefore c hc), mapRuns_other rfl,
    mapRuns_others fun c hc => isWordChar_of_isGap (hafter c hc),
    mapRuns_single (isRun_of_isIdentifier hname), Scope.runText_of_get? hvalue,
    List.filter_append, hkept, List.filter_append, List.filter_cons, List.filter_append,
    filter_gaps hbefore, filter_gaps hafter,
    filter_numeral (Value.isNumeral_expressionText hfinite)]
  rfl

include hy

/-- A minus sign before a variable negates a value without sign. Before a value with a sign it is
refused. -/
theorem evaluate_negatedText {gaps : List Char} (hgaps : ∀ c ∈ gaps, Token.isGap c = true) :
    evaluate .legacy scope (negatedText gaps name) =
      if isNegative y then .error (.unparsable (String.ofList (negatedText gaps name)))
      else .ok (Value.ofFloat (-y)) := by
  obtain ⟨hname, hfinite⟩ := h.get? hvalue
  have hminus : IsTrimmed ['-'] := ⟨List.cons_ne_nil _ _, rfl⟩
  have htrim : trim (negatedText gaps name) = negatedText gaps name :=
    (hminus.between (isWord_of_isIdentifier hname).isTrimmed gaps).trim_eq
  obtain ⟨body, htext, hne, hbody⟩ := hy.exists_body hfinite
  have hread := hy.2
  rw [evaluate_legacy htrim rfl, Single.evaluate, compact_negatedText h hvalue hgaps]
  rw [htext] at hread ⊢
  cases hsign : isNegative y with
  | false =>
    rw [hsign] at hread
    exact compactValue_numeral ⟨true, body, rfl, hne, hbody⟩ (finite?_minus hne hbody hread) _
  | true =>
    have hsplit : split? ('-' :: (signText true ++ body)) = none := split?_minus_minus hne hbody
    have hnone : finite? ('-' :: (signText true ++ body)) = none := finite?_minus_minus hne hbody
    simp only [compactValue, hsplit, hnone]
    rfl

/-- To subtract a variable from zero negates every value. -/
theorem evaluate_zeroMinusText {before after : List Char}
    (hbefore : ∀ c ∈ before, Token.isGap c = true) (hafter : ∀ c ∈ after, Token.isGap c = true) :
    evaluate .legacy scope (zeroMinusText before after name) = .ok (Value.ofFloat (0 - y)) := by
  obtain ⟨hname, hfinite⟩ := h.get? hvalue
  have hzero : IsTrimmed ['0'] := ⟨List.cons_ne_nil _ _, rfl⟩
  have hdigit : IsNumeral ['0'] := isNumeral_digitsOf false 0
  have hshape : zeroMinusText before after name =
      ['0'] ++ ((before ++ '-' :: after) ++ name.toList) := by
    rw [List.append_assoc]
    rfl
  have htrim : trim (zeroMinusText before after name) = zeroMinusText before after name := by
    rw [hshape]
    exact (hzero.between (isWord_of_isIdentifier hname).isTrimmed _).trim_eq
  have hread : finite? ['0'] = some 0 := by decide +kernel
  rw [evaluate_legacy htrim rfl, Single.evaluate, compact_zeroMinusText h hvalue hbefore hafter]
  exact compactValue_between hdigit (Value.isNumeral_expressionText hfinite) hread hy.2 _ .minus

end

/-- **In the legacy mode a minus sign before a variable has the result of a subtraction from zero
exactly if the value of the variable has no minus sign itself.** Otherwise the expression is
refused, while the subtraction still gives the negated number. -/
theorem evaluate_leading_minus {scope : Scope} (h : scope.Plain) {name : String} {value : Value}
    (hvalue : scope.get? name = some value) {gaps before after : List Char}
    (hgaps : ∀ c ∈ gaps, Token.isGap c = true) (hbefore : ∀ c ∈ before, Token.isGap c = true)
    (hafter : ∀ c ∈ after, Token.isGap c = true) :
    ∃ y, value.number? = some y ∧
      evaluate .legacy scope (zeroMinusText before after name) = .ok (Value.ofFloat (-y)) ∧
      (isNegative y = true → evaluate .legacy scope (negatedText gaps name) =
        .error (.unparsable (String.ofList (negatedText gaps name)))) ∧
      (evaluate .legacy scope (negatedText gaps name) =
        evaluate .legacy scope (zeroMinusText before after name) ↔ isNegative y = false) := by
  obtain ⟨y, hy, hfinite⟩ := Value.exists_readsBack (h.get? hvalue).2
  have hzero := evaluate_zeroMinusText h hvalue hy hbefore hafter
  have hnegated := evaluate_negatedText h hvalue hy hgaps
  rw [ofFloat_zero_sub hfinite] at hzero
  refine ⟨y, hy.1, hzero, fun hsign => ?_, ?_⟩
  · rw [hnegated, if_pos hsign]
  · rw [hnegated, hzero]
    cases hsign : isNegative y with
    | false => exact iff_of_true rfl rfl
    | true =>
      constructor
      · intro heq
        rw [if_pos rfl] at heq
        cases heq
      · intro heq
        cases heq

/-- A variable with a value without sign, among others. -/
theorem evaluate_leading_minus_half :
    nestedNames.Plain ∧ nestedNames.get? "xx" = some (.real 0.5) ∧ isNegative 0.5 = false ∧
      evaluate .legacy nestedNames "-xx".toList = evaluate .legacy nestedNames "0 - xx".toList := by
  have hvalue : nestedNames.get? "xx" = some (.real 0.5) := rfl
  have hgap : ∀ c ∈ [' '], Token.isGap c = true := List.forall_mem_singleton.2 rfl
  have hsign : isNegative 0.5 = false := by decide +kernel
  obtain ⟨y, hy, -, -, hiff⟩ :=
    evaluate_leading_minus plain_nestedNames hvalue (List.forall_mem_nil _) hgap hgap
  obtain rfl := Option.some.inj hy
  exact ⟨plain_nestedNames, hvalue, hsign, hiff.2 hsign⟩

/-- A negative value cannot be negated by a minus sign. -/
theorem evaluate_minus_negative :
    evaluate .legacy nestedNames "-x".toList = .error (.unparsable "-x") ∧
      evaluate .legacy nestedNames "0 - x".toList = .ok (.int 5) := by
  have hvalue : nestedNames.get? "x" = some (.int (-5)) := rfl
  have hgap : ∀ c ∈ [' '], Token.isGap c = true := List.forall_mem_singleton.2 rfl
  have hsign : isNegative (ofInt64 (-5)) = true := by decide +kernel
  have hnegated := evaluate_negatedText plain_nestedNames hvalue (Value.readsBack_int (-5))
    (List.forall_mem_nil _)
  have hzero := evaluate_zeroMinusText plain_nestedNames hvalue (Value.readsBack_int (-5)) hgap hgap
  have hfive : Value.ofFloat (0 - ofInt64 (-5)) = .int 5 := by rfl
  rw [if_pos hsign] at hnegated
  rw [hfive] at hzero
  exact ⟨hnegated, hzero⟩

end Drawscript
