import Drawscript.Proofs.Expr.Precedence
import Drawscript.Proofs.Expr.Substitution

/-!
# Where the two modes agree

The legacy mode puts values into the text, drops the blanks and looks for an operator among
characters some of which are signs. The precedence mode reads tokens. On one operator between two
variables both give the result of the operator (`evaluate_modes_agree`).

In the legacy mode the text that is split consists of two numerals with the operator between them
(`compact_binary`). When an operator is looked for, a numeral is passed over as a whole: its
sign follows nothing or an operator, and its other characters are no operators
(`Single.splitAt?_numeral`). The character after it is not taken for a sign, since a numeral does
not end in an operator.
-/

set_option autoImplicit false

namespace Drawscript

open Text
open Single (Operator)

/-! ## Splitting between numerals -/

namespace Single

open Number (IsNumeral)

theorem isOperatorChar_char (op : Operator) : isOperatorChar op.char = true := by
  cases op <;> rfl

theorem isWordChar_char (op : Operator) : isWordChar op.char = false := by
  cases op <;> rfl

theorem isBlank_char (op : Operator) : isBlank op.char = false := by
  cases op <;> rfl

theorem char_ne_char {op op' : Operator} (h : op ≠ op') : op.char ≠ op'.char := by
  intro hchar
  apply h
  cases op <;> cases op' <;> simp [Operator.char] at hchar ⊢

/-- Digits and points are no operators. -/
theorem isOperatorChar_of_mem_body {c : Char} (h : c.isDigit = true ∨ c = '.') :
    isOperatorChar c = false := by
  rcases h with hdigit | rfl
  · by_contra hop
    simp only [isOperatorChar, Bool.not_eq_false, Bool.or_eq_true, beq_iff_eq] at hop
    rcases hop with ((rfl | rfl) | rfl) | rfl <;> cases hdigit
  · rfl

/-- A character that is not the operator looked for is passed over. -/
theorem splitAt?_cons {op c : Char} {before : Option Char}
    (h : ¬(c = op ∧ isSign before c = false)) (rest : List Char) :
    splitAt? op before (c :: rest) =
      (splitAt? op (some c) rest).map (Prod.map (c :: ·) id) := by
  rw [splitAt?, if_neg h]
  rfl

theorem splitAt?_append {op : Char} {body : List Char} (hbody : op ∉ body) (before : Option Char)
    (rest : List Char) :
    splitAt? op before (body ++ rest) =
      (splitAt? op (body.getLast?.or before) rest).map (Prod.map (body ++ ·) id) := by
  induction body generalizing before with
  | nil =>
    have hid : Prod.map (([] : List Char) ++ ·) id = (id : List Char × List Char → _) := rfl
    rw [hid, Option.map_id, List.nil_append, List.getLast?_nil, Option.none_or, id]
  | cons c body ih =>
    have hne : c ≠ op := by
      rintro rfl
      exact hbody List.mem_cons_self
    have hlast : (c :: body).getLast?.or before = body.getLast?.or (some c) := by
      rw [List.getLast?_cons]
      cases body.getLast? with
      | none => rfl
      | some d => rfl
    rw [List.cons_append, splitAt?_cons fun h => hne h.1, ih (List.not_mem_of_not_mem_cons hbody),
      hlast, Option.map_map]
    rfl

/-- A numeral after nothing or after an operator is passed over, with its sign. -/
theorem splitAt?_numeral {text : List Char} (htext : IsNumeral text) (op : Operator)
    {before : Option Char} (hbefore : before.all isOperatorChar = true) (rest : List Char) :
    splitAt? op.char before (text ++ rest) =
      (splitAt? op.char text.getLast? rest).map (Prod.map (text ++ ·) id) := by
  obtain ⟨negative, body, rfl, hne, hbody⟩ := htext
  have hpass : op.char ∉ body := by
    intro hmem
    have hop := isOperatorChar_of_mem_body (hbody _ hmem)
    rw [isOperatorChar_char] at hop
    cases hop
  have hlast : ∀ before, body.getLast?.or before = body.getLast? := by
    intro before
    rw [List.getLast?_eq_some_getLast hne, Option.some_or]
  rw [List.getLast?_append_of_ne_nil _ hne]
  cases negative with
  | false =>
    show splitAt? op.char before (body ++ rest) = _
    rw [splitAt?_append hpass, hlast]
    rfl
  | true =>
    -- the minus sign is not the operator, even if a minus is looked for
    have hsign : ¬('-' = op.char ∧ isSign before '-' = false) := by
      rintro ⟨-, hsign⟩
      rw [isSign, hbefore] at hsign
      cases hsign
    show splitAt? op.char before ('-' :: (body ++ rest)) = _
    rw [splitAt?_cons hsign, splitAt?_append hpass, hlast, Option.map_map]
    rfl

/-- A numeral does not end in an operator. -/
theorem all_getLast?_numeral {text : List Char} (htext : IsNumeral text) :
    text.getLast?.all isOperatorChar = false := by
  obtain ⟨negative, body, rfl, hne, hbody⟩ := htext
  rw [List.getLast?_append_of_ne_nil _ hne, List.getLast?_eq_some_getLast hne, Option.all_some]
  exact isOperatorChar_of_mem_body (hbody _ (List.getLast_mem hne))

/-- A single numeral has no operator. -/
theorem splitAt?_numeral_eq_none {text : List Char} (htext : IsNumeral text) (op : Operator)
    {before : Option Char} (hbefore : before.all isOperatorChar = true) :
    splitAt? op.char before text = none := by
  have hsplit := splitAt?_numeral htext op hbefore []
  rwa [List.append_nil, splitAt?, Option.map_none] at hsplit

section

variable {left right : List Char} (hleft : IsNumeral left) (hright : IsNumeral right)

include hleft hright

/-- Between two numerals there is one operator. -/
theorem splitAt?_between (op op' : Operator) :
    splitAt? op'.char none (left ++ op.char :: right) =
      if op' = op then some (left, right) else none := by
  rw [splitAt?_numeral hleft op' rfl]
  by_cases hop : op' = op
  · subst hop
    have hsign : isSign left.getLast? op'.char = false := by
      rw [isSign, all_getLast?_numeral hleft, Bool.and_false]
    rw [splitAt?, if_pos ⟨rfl, hsign⟩, if_pos rfl, Option.map_some, Prod.map, List.append_nil, id]
  · -- what follows the operator is a numeral again, and its sign follows an operator
    have hsigned : (some op.char).all isOperatorChar = true := isOperatorChar_char op
    rw [splitAt?_cons fun h => char_ne_char (Ne.symm hop) h.1,
      splitAt?_numeral_eq_none hright op' hsigned, if_neg hop, Option.map_none, Option.map_none]

theorem split?_between (op : Operator) :
    split? (left ++ op.char :: right) = some (op, left, right) := by
  simp only [split?, Operator.all, splitAt?_between hleft hright]
  cases op <;> rfl

end

theorem split?_numeral {text : List Char} (htext : IsNumeral text) : split? text = none := by
  rw [split?, List.findSome?_eq_none_iff]
  intro op _
  rw [splitAt?_numeral_eq_none htext op rfl, Option.map_none]

/-- The value of two numerals with an operator between them. -/
theorem compactValue_between {left right : List Char} {x y : Float} (hleft : IsNumeral left)
    (hright : IsNumeral right) (hx : Number.finite? left = some x)
    (hy : Number.finite? right = some y) (text : String) (op : Operator) :
    compactValue text (left ++ op.char :: right) = (apply text op x y).map Value.ofFloat := by
  have hsideLeft : side left = x := by rw [side, hx, Option.getD_some]
  have hsideRight : side right = y := by rw [side, hy, Option.getD_some]
  simp only [compactValue, split?_between hleft hright, hsideLeft, hsideRight]
  cases apply text op x y with
  | error e => rfl
  | ok z => rfl

theorem compactValue_numeral {compact : List Char} {x : Float} (h : IsNumeral compact)
    (hx : Number.finite? compact = some x) (text : String) :
    compactValue text compact = .ok (Value.ofFloat x) := by
  simp only [compactValue, split?_numeral h, hx]

/-- An operator gives a number, or refuses to divide. -/
theorem apply_cases (text : String) (op : Operator) (x y : Float) :
    (∃ z, apply text op x y = .ok z) ∨ apply text op x y = .error (.divisionByZero text) := by
  cases op with
  | minus => exact Or.inl ⟨_, rfl⟩
  | plus => exact Or.inl ⟨_, rfl⟩
  | times => exact Or.inl ⟨_, rfl⟩
  | divide =>
    by_cases hzero : y.abs < tolerance
    · exact Or.inr (if_pos hzero)
    · exact Or.inl ⟨_, if_neg hzero⟩

end Single

/-! ## One operator between two variables -/

/-- The text that stands in for the value reads back as the number that the value is. -/
def Value.ReadsBack (value : Value) (x : Float) : Prop :=
  value.number? = some x ∧ Number.finite? value.expressionText.toList = some x

/-- An operator between two names, with gaps around it. -/
def binaryText (a : String) (before : List Char) (op : Operator) (after : List Char) (b : String) :
    List Char :=
  a.toList ++ (before ++ op.char :: (after ++ b.toList))

theorem isWordChar_of_isGap {c : Char} (h : Token.isGap c = true) : isWordChar c = false :=
  isWordChar_of_isBlank (Token.isBlank_of_isGap h)

/-- Gaps with no word character after them end a word. -/
theorem startsInWord_gaps {gaps rest : List Char} (hgaps : ∀ c ∈ gaps, Token.isGap c = true)
    (hrest : startsInWord rest = false) : startsInWord (gaps ++ rest) = false := by
  apply startsInWord_append hrest
  cases gaps with
  | nil => rfl
  | cons c gaps => exact isWordChar_of_isGap (hgaps c List.mem_cons_self)

/-- A text that starts with a name is not quoted. -/
theorem unquote?_identifier {word : List Char} (h : isIdentifier word = true) (rest : List Char) :
    unquote? (word ++ rest) = none := by
  cases word with
  | nil => cases h
  | cons c word =>
    have hquote : c ≠ '"' := by
      rintro rfl
      cases h
    rw [List.cons_append, unquote?]
    intro rest' heq
    exact hquote (List.cons.inj heq).1

/-- A name is read to its end. -/
theorem Token.next?_identifier {word rest : List Char} (hword : isIdentifier word = true)
    (hrest : startsInWord rest = false) :
    Token.next? (word ++ rest) = some (.name (String.ofList word), word) := by
  obtain ⟨-, hchars, hhead⟩ := isIdentifier_iff.1 hword
  cases word with
  | nil => cases hword
  | cons c word =>
    have hletter : (c.isAlpha || c == '_') = true := (Bool.and_eq_true_iff.1 hword).1
    have htake := (takeWhile_run (List.forall_mem_cons.1 hchars).2 hrest).1
    rw [List.cons_append, Token.next?_letter (hhead c rfl) hletter, htake]

theorem spells_name {a : String} (ha : isIdentifier a.toList = true) :
    Token.Spells a.toList [.name a] := by
  have hend : startsInWord [] = false := rfl
  have hspells := Token.Spells.token (Token.next?_identifier ha hend) .nil
  rwa [List.append_nil, String.ofList_toList] at hspells

section

variable {a b : String} (ha : isIdentifier a.toList = true) (hb : isIdentifier b.toList = true)

include ha hb

theorem trim_binaryText (before : List Char) (op : Operator) (after : List Char) :
    trim (binaryText a before op after b) = binaryText a before op after b := by
  have hshape : binaryText a before op after b =
      a.toList ++ ((before ++ op.char :: after) ++ b.toList) := by
    rw [binaryText, List.append_assoc, List.cons_append]
  have ha := (isWord_of_isIdentifier ha).isTrimmed
  have hb := (isWord_of_isIdentifier hb).isTrimmed
  rw [hshape]
  exact (ha.between hb _).trim_eq

theorem spells_binaryText (op : Operator) {before after : List Char}
    (hbefore : ∀ c ∈ before, Token.isGap c = true) (hafter : ∀ c ∈ after, Token.isGap c = true) :
    Token.Spells (binaryText a before op after b)
      [.name a, .symbol (Precedence.symbol op), .name b] := by
  have hop : startsInWord (op.char :: (after ++ b.toList)) = false := Single.isWordChar_char op
  have hnext := Token.next?_identifier ha (startsInWord_gaps hbefore hop)
  have hsymbol : Token.next? ([op.char] ++ (after ++ b.toList)) =
      some (.symbol (Precedence.symbol op), [op.char]) := by
    cases op <;> rfl
  rw [String.ofList_toList] at hnext
  exact .token hnext (.gaps hbefore (.token hsymbol (.gaps hafter (spells_name hb))))

end

theorem derives_name (s : String) : Precedence.Derives .signed [.name s] (.name s) :=
  .operand (.name s)

theorem derives_binary (op : Operator) (a b : String) :
    Precedence.Derives .sum [.name a, .symbol (Precedence.symbol op), .name b]
      (.binary op (.name a) (.name b)) := by
  cases op with
  | minus => exact .add .minus rfl (.product (.signed (derives_name a))) (.signed (derives_name b))
  | plus => exact .add .plus rfl (.product (.signed (derives_name a))) (.signed (derives_name b))
  | times => exact .product (.multiply .times rfl (.signed (derives_name a)) (derives_name b))
  | divide => exact .product (.multiply .divide rfl (.signed (derives_name a)) (derives_name b))

/-! ## Both modes -/

/-- A numeral has no blanks. -/
theorem filter_numeral {text : List Char} (h : Number.IsNumeral text) :
    text.filter (fun c => !isBlank c) = text := by
  rw [List.filter_eq_self]
  intro c hc
  rw [h.isBlank_of_mem hc, Bool.not_false]

theorem filter_gaps {gaps : List Char} (h : ∀ c ∈ gaps, Token.isGap c = true) :
    gaps.filter (fun c => !isBlank c) = [] := by
  rw [List.filter_eq_nil_iff]
  intro c hc
  rw [Token.isBlank_of_isGap (h c hc)]
  exact Bool.false_ne_true

/-- Blanks around an expression do not matter. -/
theorem evaluate_trim (mode : EvalMode) (scope : Scope) (text : List Char) :
    evaluate mode scope (trim text) = evaluate mode scope text := by
  simp only [evaluate, trim_trim]

theorem evaluate_legacy {text : List Char} (htrim : trim text = text)
    (hquote : unquote? text = none) (scope : Scope) :
    evaluate .legacy scope text = Single.evaluate scope text := by
  simp only [evaluate, htrim, hquote]

section

variable {scope : Scope} (h : scope.Plain) {a b : String} {u v : Value} {x y : Float}
  (ha : scope.get? a = some u) (hu : u.ReadsBack x)

include h ha

theorem compact_name :
    (substitute scope a.toList).filter (fun c => !isBlank c) = u.expressionText.toList := by
  obtain ⟨hname, hvalue⟩ := h.get? ha
  rw [h.substitute_eq, substituteOnce, mapRuns_single (isRun_of_isIdentifier hname),
    Scope.runText_of_get? ha, filter_numeral (Value.isNumeral_expressionText hvalue)]

include hu

/-- A variable has the value that it holds, narrowed, in both modes. -/
theorem evaluate_name (mode : EvalMode) :
    evaluate mode scope a.toList = .ok (Value.ofFloat x) := by
  obtain ⟨hname, hvalue⟩ := h.get? ha
  have htrim := (isWord_of_isIdentifier hname).isTrimmed.trim_eq
  have hquote := unquote?_identifier hname []
  rw [List.append_nil] at hquote
  cases mode with
  | legacy =>
    rw [evaluate_legacy htrim hquote, Single.evaluate, compact_name h ha]
    exact Single.compactValue_numeral (Value.isNumeral_expressionText hvalue) hu.2 _
  | precedence =>
    rw [← htrim] at hquote
    have hderives := Precedence.Derives.product (.signed (derives_name a))
    rw [Precedence.evaluate_of_spells (htrim.symm ▸ spells_name hname) hquote,
      hderives.sumValue_eq]
    simp only [Expr.value, Precedence.variableValue, ha, hu.1]
    rfl

variable (hb : scope.get? b = some v) (hv : v.ReadsBack y) (op : Operator)
  {before after : List Char} (hbefore : ∀ c ∈ before, Token.isGap c = true)
  (hafter : ∀ c ∈ after, Token.isGap c = true)

include hb hbefore hafter

omit hu in
theorem compact_binary :
    (substitute scope (binaryText a before op after b)).filter (fun c => !isBlank c) =
      u.expressionText.toList ++ op.char :: v.expressionText.toList := by
  obtain ⟨hname, hvalue⟩ := h.get? ha
  obtain ⟨hname', hvalue'⟩ := h.get? hb
  have hop : startsInWord (op.char :: (after ++ b.toList)) = false := Single.isWordChar_char op
  have hsubstitute : substitute scope (binaryText a before op after b) =
      u.expressionText.toList ++ (before ++ op.char :: (after ++ v.expressionText.toList)) := by
    rw [h.substitute_eq, substituteOnce, binaryText,
      mapRuns_run (isRun_of_isIdentifier hname) (startsInWord_gaps hbefore hop),
      mapRuns_others fun c hc => isWordChar_of_isGap (hbefore c hc),
      mapRuns_other (Single.isWordChar_char op),
      mapRuns_others fun c hc => isWordChar_of_isGap (hafter c hc),
      mapRuns_single (isRun_of_isIdentifier hname'), Scope.runText_of_get? ha,
      Scope.runText_of_get? hb]
  -- of the text with the values in place, only the gaps are blank
  rw [hsubstitute, List.filter_append, List.filter_append, List.filter_cons, List.filter_append,
    filter_gaps hbefore, filter_gaps hafter,
    filter_numeral (Value.isNumeral_expressionText hvalue),
    filter_numeral (Value.isNumeral_expressionText hvalue'), Single.isBlank_char]
  rfl

include hv

/-- An operator between two variables has the result that the operator has on their numbers, in both
modes. -/
theorem evaluate_binary (mode : EvalMode) :
    evaluate mode scope (binaryText a before op after b) =
      (Single.apply (String.ofList (binaryText a before op after b)) op x y).map Value.ofFloat := by
  obtain ⟨hname, hvalue⟩ := h.get? ha
  obtain ⟨hname', hvalue'⟩ := h.get? hb
  have htrim := trim_binaryText hname hname' before op after
  have hquote : unquote? (binaryText a before op after b) = none := unquote?_identifier hname _
  cases mode with
  | legacy =>
    rw [evaluate_legacy htrim hquote, Single.evaluate,
      compact_binary h ha hb op hbefore hafter]
    exact Single.compactValue_between (Value.isNumeral_expressionText hvalue)
      (Value.isNumeral_expressionText hvalue') hu.2 hv.2 _ op
  | precedence =>
    have hspells := spells_binaryText hname hname' op hbefore hafter
    rw [← htrim] at hquote hspells
    rw [Precedence.evaluate_of_spells hspells hquote, (derives_binary op a b).sumValue_eq, htrim]
    simp only [Expr.value, Precedence.variableValue, ha, hb, hu.1, hv.1]
    rfl

end

/-- On one operator between two variables, with any gaps around it, both modes give the result of
the operator: the same value, or a division by zero with the same text. On a single variable both
give its number. The other variables do not matter, but all names have to be identifiers and all
values integers or finite reals, since the legacy mode puts their texts into the expression; the
texts of the two values have to read back as their numbers. -/
theorem evaluate_modes_agree {scope : Scope} (h : scope.Plain) {a b : String} {u v : Value}
    {x y : Float} (ha : scope.get? a = some u) (hu : u.ReadsBack x) (hb : scope.get? b = some v)
    (hv : v.ReadsBack y) (op : Operator) {before after : List Char}
    (hbefore : ∀ c ∈ before, Token.isGap c = true) (hafter : ∀ c ∈ after, Token.isGap c = true) :
    let text := binaryText a before op after b
    (∀ mode, evaluate mode scope text =
      (Single.apply (String.ofList text) op x y).map Value.ofFloat) ∧
    ((∃ value, ∀ mode, evaluate mode scope text = .ok value) ∨
      ∀ mode, evaluate mode scope text = .error (.divisionByZero (String.ofList text))) ∧
    ∀ mode, evaluate mode scope a.toList = .ok (Value.ofFloat x) := by
  intro text
  have hbinary := evaluate_binary h ha hu hb hv op hbefore hafter
  refine ⟨hbinary, ?_, evaluate_name h ha hu⟩
  rcases Single.apply_cases (String.ofList text) op x y with ⟨z, hz⟩ | hzero
  · refine Or.inl ⟨Value.ofFloat z, fun mode => ?_⟩
    rw [hbinary mode, hz]
    rfl
  · refine Or.inr fun mode => ?_
    rw [hbinary mode, hzero]
    rfl

/-- The text that the legacy mode splits is `0.5--5`. -/
theorem evaluate_modes_agree_nested :
    nestedNames.Plain ∧ (Value.real 0.5).ReadsBack 0.5 ∧ (Value.int (-5)).ReadsBack (-5) ∧
      ∀ mode, evaluate mode nestedNames "xx -\t x".toList = .ok (.real 5.5) ∧
        evaluate mode nestedNames "xx".toList = .ok (.real 0.5) := by
  have hxx : (Value.real 0.5).ReadsBack 0.5 := ⟨rfl, by decide +kernel⟩
  have hx : (Value.int (-5)).ReadsBack (-5) := ⟨by decide +kernel, by decide +kernel⟩
  have hgetxx : nestedNames.get? "xx" = some (.real 0.5) := rfl
  have hgetx : nestedNames.get? "x" = some (.int (-5)) := rfl
  have hbefore : ∀ c ∈ [' '], Token.isGap c = true := List.forall_mem_singleton.2 rfl
  have hafter : ∀ c ∈ ['\t', ' '], Token.isGap c = true := by simp [Token.isGap]
  have hagree := evaluate_modes_agree plain_nestedNames hgetxx hxx hgetx hx .minus hbefore hafter
  have htext : binaryText "xx" [' '] .minus ['\t', ' '] "x" = "xx -\t x".toList := rfl
  have hresult : Value.ofFloat (0.5 - -5) = .real 5.5 := by rfl
  have hsingle : Value.ofFloat 0.5 = .real 0.5 := by rfl
  refine ⟨plain_nestedNames, hxx, hx, fun mode => ⟨?_, ?_⟩⟩
  · rw [← htext, hagree.1 mode, ← hresult]
    rfl
  · rw [hagree.2.2 mode, hsingle]

end Drawscript
