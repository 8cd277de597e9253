import Drawscript.Expr.Lexer
import Drawscript.Proofs.Text.Match

/-!
# Texts and their tokens

The first character of a text says of which form its first token is (`Token.startsAs`). A text
spells tokens if it writes them one after the other, with gaps between them (`Token.Spells`).
Reading a text finds the tokens that it spells, wherever the text starts (`Token.scan_iff`). Blanks
at the ends of a text that spells tokens can only be gaps, so the trimmed text spells the same
tokens (`Token.Spells.trim`).
-/

set_option autoImplicit false

namespace Drawscript.Token

open Text

/-! ## The next token -/

/-- What a token can start with. -/
inductive StartsAs (c : Char) : Prop
  | digit (h : c.isDigit = true)
  | point (h : c = '.')
  | quote (h : c = '"')
  | letter (hdigit : c.isDigit = false) (h : (c.isAlpha || c == '_') = true)
  | other (hdigit : c.isDigit = false) (hpoint : c ≠ '.') (hquote : c ≠ '"')
      (hletter : (c.isAlpha || c == '_') = false)

theorem startsAs (c : Char) : StartsAs c := by
  by_cases hdigit : c.isDigit = true
  · exact .digit hdigit
  rw [Bool.not_eq_true] at hdigit
  by_cases hletter : (c.isAlpha || c == '_') = true
  · exact .letter hdigit hletter
  by_cases hpoint : c = '.'
  · exact .point hpoint
  by_cases hquote : c = '"'
  · exact .quote hquote
  · exact .other hdigit hpoint hquote (Bool.eq_false_of_not_eq_true hletter)

variable {c : Char}

/-- Digits with a point after them. -/
theorem next?_real (h : c.isDigit = true) {rest after : List Char}
    (hpoint : rest.dropWhile Char.isDigit = '.' :: after) :
    next? (c :: rest) =
      some (ofPoint (c :: rest.takeWhile Char.isDigit) (after.takeWhile Char.isDigit),
        c :: rest.takeWhile Char.isDigit ++ '.' :: after.takeWhile Char.isDigit) := by
  simp only [next?, h, if_true, hpoint]

/-- Digits without a point after them. -/
theorem next?_digits (h : c.isDigit = true) {rest : List Char}
    (hpoint : (rest.dropWhile Char.isDigit).head? ≠ some '.') :
    next? (c :: rest) =
      some (ofDigits (c :: rest.takeWhile Char.isDigit), c :: rest.takeWhile Char.isDigit) := by
  simp only [next?, h, if_true]
  split
  · next after hafter =>
    rw [hafter] at hpoint
    exact absurd rfl hpoint
  · rfl

theorem next?_point (rest : List Char) :
    next? ('.' :: rest) =
      if (rest.takeWhile Char.isDigit).isEmpty then none
      else some (ofPoint [] (rest.takeWhile Char.isDigit), '.' :: rest.takeWhile Char.isDigit) :=
  rfl

theorem next?_quote (rest : List Char) :
    next? ('"' :: rest) =
      if (rest.takeWhile (· != '"')).length < rest.length then
        some (.text (String.ofList (rest.takeWhile (· != '"'))),
          '"' :: rest.takeWhile (· != '"') ++ ['"'])
      else none :=
  rfl

theorem next?_letter (hdigit : c.isDigit = false) (h : (c.isAlpha || c == '_') = true)
    (rest : List Char) :
    next? (c :: rest) =
      some (.name (String.ofList (c :: rest.takeWhile isWordChar)),
        c :: rest.takeWhile isWordChar) := by
  have hpoint : c ≠ '.' := by
    rintro rfl
    cases h
  have hquote : c ≠ '"' := by
    rintro rfl
    cases h
  simp only [next?, hdigit, hpoint, hquote, h, if_true, if_false, Bool.false_eq_true]

theorem next?_other (hdigit : c.isDigit = false) (hpoint : c ≠ '.') (hquote : c ≠ '"')
    (hletter : (c.isAlpha || c == '_') = false) (rest : List Char) :
    next? (c :: rest) = (Symbol.ofChar? c).map fun s => (.symbol s, [c]) := by
  simp only [next?, hdigit, hpoint, hquote, hletter, if_false, Bool.false_eq_true]

/-- No token starts with a blank. -/
theorem next?_of_isBlank (h : isBlank c = true) (rest : List Char) : next? (c :: rest) = none := by
  have hletter : (c.isAlpha = false ∧ c.isDigit = false) ∧ (c == '_') = false := by
    simpa only [isWordChar, Char.isAlphanum, Bool.or_eq_false_iff] using isWordChar_of_isBlank h
  have hsymbol : Symbol.ofChar? c = none := by
    rw [Symbol.ofChar?, List.find?_eq_none]
    rintro s - hs
    obtain rfl := beq_iff_eq.1 hs
    cases s <;> cases h
  rw [next?_other hletter.1.2 _ _ _ rest, hsymbol, Option.map_none]
  · rintro rfl
    cases h
  · rintro rfl
    cases h
  · rw [hletter.1.1, hletter.2, Bool.or_false]

/-- A quoted text ends at the next quote mark. -/
theorem exists_eq_takeWhile_quote {rest : List Char}
    (h : (rest.takeWhile (· != '"')).length < rest.length) :
    ∃ after, rest = rest.takeWhile (· != '"') ++ '"' :: after := by
  have hsplit : rest = rest.takeWhile (· != '"') ++ rest.dropWhile (· != '"') :=
    List.takeWhile_append_dropWhile.symm
  cases hdrop : rest.dropWhile (· != '"') with
  | nil =>
    rw [hdrop, List.append_nil] at hsplit
    rw [← hsplit] at h
    exact absurd h (Nat.lt_irrefl _)
  | cons d after =>
    have hquote := List.head?_dropWhile_not (· != '"') rest
    rw [hdrop] at hquote
    obtain rfl : d = '"' := by simpa using hquote
    rw [hdrop] at hsplit
    exact ⟨after, hsplit⟩

/-- A token is written at the start of the text. -/
theorem eq_append_of_next? {text written : List Char} {token : Token}
    (h : next? text = some (token, written)) : ∃ rest, text = written ++ rest := by
  cases text with
  | nil => cases h
  | cons c rest =>
    have hdigits : rest = rest.takeWhile Char.isDigit ++ rest.dropWhile Char.isDigit :=
      List.takeWhile_append_dropWhile.symm
    cases startsAs c with
    | digit hc =>
      by_cases hpoint : (rest.dropWhile Char.isDigit).head? = some '.'
      · obtain ⟨after, hafter⟩ := List.head?_eq_some_iff.1 hpoint
        rw [next?_real hc hafter] at h
        cases h
        refine ⟨after.dropWhile Char.isDigit, ?_⟩
        rw [List.append_assoc, List.cons_append, List.cons_append, List.takeWhile_append_dropWhile,
          ← hafter, ← hdigits]
      · rw [next?_digits hc hpoint] at h
        cases h
        exact ⟨_, congrArg (List.cons c) hdigits⟩
    | point hc =>
      subst hc
      rw [next?_point] at h
      split_ifs at h
      cases h
      exact ⟨_, congrArg (List.cons '.') hdigits⟩
    | quote hc =>
      subst hc
      rw [next?_quote] at h
      split_ifs at h with hclosed
      cases h
      obtain ⟨after, hafter⟩ := exists_eq_takeWhile_quote hclosed
      refine ⟨after, ?_⟩
      rw [List.append_assoc, List.cons_append, List.singleton_append, ← hafter]
    | letter hdigit hc =>
      rw [next?_letter hdigit hc] at h
      cases h
      exact ⟨rest.dropWhile isWordChar,
        congrArg (List.cons c) List.takeWhile_append_dropWhile.symm⟩
    | other hdigit hpoint hquote hletter =>
      rw [next?_other hdigit hpoint hquote hletter] at h
      obtain ⟨s, -, hs⟩ := Option.map_eq_some_iff.1 h
      cases hs
      exact ⟨rest, rfl⟩

/-! ## Blanks after a token -/

section

variable {p : Char → Bool} {after : List Char} (h : ∀ d ∈ after, p d = false)

include h

theorem takeWhile_append_of_not (rest : List Char) :
    (rest ++ after).takeWhile p = rest.takeWhile p := by
  induction rest with
  | nil =>
    cases after with
    | nil => rfl
    | cons d after => rw [List.nil_append, List.takeWhile_cons, h d List.mem_cons_self]; rfl
  | cons d rest ih => rw [List.cons_append, List.takeWhile_cons, List.takeWhile_cons, ih]

theorem dropWhile_append_of_not (rest : List Char) :
    (rest ++ after).dropWhile p = rest.dropWhile p ++ after := by
  have hsplit : (rest ++ after).takeWhile p ++ (rest ++ after).dropWhile p =
      (rest ++ after).takeWhile p ++ (rest.dropWhile p ++ after) := by
    rw [List.takeWhile_append_dropWhile, takeWhile_append_of_not h, ← List.append_assoc,
      List.takeWhile_append_dropWhile]
  exact List.append_cancel_left hsplit

end

/-- Blanks after a text do not change its first token. -/
theorem next?_append_blank {after : List Char} (h : ∀ d ∈ after, isBlank d = true)
    (rest : List Char) : next? (c :: rest ++ after) = next? (c :: rest) := by
  have hword : ∀ d ∈ after, isWordChar d = false := by
    intro d hd
    exact isWordChar_of_isBlank (h d hd)
  have hdigit : ∀ d ∈ after, d.isDigit = false := by
    intro d hd
    have := hword d hd
    simp only [isWordChar, Char.isAlphanum, Bool.or_eq_false_iff] at this
    exact this.1.2
  rw [List.cons_append]
  cases startsAs c with
  | digit hc =>
    by_cases hpoint : (rest.dropWhile Char.isDigit).head? = some '.'
    · obtain ⟨places, hplaces⟩ := List.head?_eq_some_iff.1 hpoint
      have hafter : (rest ++ after).dropWhile Char.isDigit = '.' :: (places ++ after) := by
        rw [dropWhile_append_of_not hdigit, hplaces, List.cons_append]
      rw [next?_real hc hplaces, next?_real hc hafter, takeWhile_append_of_not hdigit,
        takeWhile_append_of_not hdigit]
    · -- no point comes after the digits, and the blanks bring none
      have hafter : ((rest ++ after).dropWhile Char.isDigit).head? ≠ some '.' := by
        rw [dropWhile_append_of_not hdigit]
        cases hrest : rest.dropWhile Char.isDigit with
        | nil =>
          intro hhead
          rw [List.nil_append] at hhead
          have hblank := h '.' (List.mem_of_head? hhead)
          cases hblank
        | cons d more =>
          rw [hrest] at hpoint
          exact hpoint
      rw [next?_digits hc hpoint, next?_digits hc hafter, takeWhile_append_of_not hdigit]
  | point hc =>
    subst hc
    rw [next?_point, next?_point, takeWhile_append_of_not hdigit]
  | quote hc =>
    subst hc
    rw [next?_quote, next?_quote, List.takeWhile_append]
    by_cases hall : (rest.takeWhile (· != '"')).length = rest.length
    · -- without a closing quote mark in the text, there is none in the blanks either
      have hblank : after.takeWhile (· != '"') = after := by
        rw [List.takeWhile_eq_self_iff]
        intro d hd
        rw [bne_iff_ne]
        rintro rfl
        have := h '"' hd
        cases this
      rw [if_pos hall, hblank, if_neg (Nat.lt_irrefl _), if_neg (by omega)]
    · have hle := (List.takeWhile_prefix (· != '"') (l := rest)).length_le
      rw [if_neg hall, List.length_append, if_pos (by omega), if_pos (by omega)]
  | letter hdigit hc =>
    rw [next?_letter hdigit hc, next?_letter hdigit hc, takeWhile_append_of_not hword]
  | other hdigit hpoint hquote hletter =>
    rw [next?_other hdigit hpoint hquote hletter, next?_other hdigit hpoint hquote hletter]

/-! ## All tokens -/

/-- The text writes the tokens one after the other, with gaps before, between and after them. -/
inductive Spells : List Char → List Token → Prop
  | nil : Spells [] []
  | gap {c : Char} {rest : List Char} {tokens : List Token} (hgap : isGap c = true)
      (h : Spells rest tokens) : Spells (c :: rest) tokens
  | token {token : Token} {written rest : List Char} {tokens : List Token}
      (hnext : next? (written ++ rest) = some (token, written)) (h : Spells rest tokens) :
      Spells (written ++ rest) (token :: tokens)

theorem Spells.gaps {gaps rest : List Char} {tokens : List Token}
    (hgaps : ∀ c ∈ gaps, isGap c = true) (h : Spells rest tokens) :
    Spells (gaps ++ rest) tokens := by
  induction gaps with
  | nil => exact h
  | cons c gaps ih =>
    obtain ⟨hc, hgaps⟩ := List.forall_mem_cons.1 hgaps
    exact .gap hc (ih hgaps)

theorem isBlank_of_isGap (h : isGap c = true) : isBlank c = true := by
  simp only [isGap, Bool.or_eq_true, beq_iff_eq] at h
  rcases h with ((rfl | rfl) | rfl) | rfl <;> rfl

theorem scan_gap (h : isGap c = true) (offset : Nat) (rest : List Char) :
    scan offset (c :: rest) = scan (offset + c.utf8Size) rest := by
  rw [scan, if_pos h]

/-- A text that starts with a token is read as this token and the text after it. -/
theorem scan_token {offset : Nat} {written rest : List Char} {token : Token}
    (h : next? (written ++ rest) = some (token, written)) :
    scan offset (written ++ rest) =
      (scan (offset + byteLength written) rest).map
        (⟨token, offset, offset + byteLength written⟩ :: ·) := by
  obtain ⟨c, written, rfl⟩ := List.exists_cons_of_ne_nil (next?_ne_nil h)
  have hgap : isGap c ≠ true := by
    intro hgap
    rw [List.cons_append, next?_of_isBlank (isBlank_of_isGap hgap)] at h
    cases h
  rw [List.cons_append] at h ⊢
  rw [scan, if_neg hgap]
  split
  · next hnone =>
    rw [hnone] at h
    cases h
  · next token' written' hsome =>
    rw [hsome] at h
    cases h
    dsimp only
    rw [← List.cons_append, List.drop_left]
    cases scan (offset + byteLength (c :: written)) rest with
    | error position => rfl
    | ok lexemes => rfl

/-- Reading finds the tokens that a text spells, wherever it starts. -/
theorem scan_iff (offset : Nat) {text : List Char} {tokens : List Token} :
    (∃ lexemes, scan offset text = .ok lexemes ∧ lexemes.map (·.token) = tokens) ↔
      Spells text tokens := by
  constructor
  · rintro ⟨lexemes, hscan, rfl⟩
    fun_induction scan offset text generalizing lexemes with
    | case1 offset =>
      cases hscan
      exact .nil
    | case2 offset c rest hgap ih => exact .gap hgap (ih lexemes hscan)
    | case3 offset c rest hgap hnext => cases hscan
    | case4 offset c rest hgap token written hnext stop lexemes' hrest ih =>
      cases hscan
      obtain ⟨rest', htext⟩ := eq_append_of_next? hnext
      rw [htext] at hnext hrest ih ⊢
      rw [List.drop_left] at hrest ih
      exact .token hnext (ih lexemes' hrest)
    | case5 offset c rest hgap token written hnext stop position hrest ih => cases hscan
  · intro h
    induction h generalizing offset with
    | nil => exact ⟨[], by rw [scan], rfl⟩
    | gap hgap h ih =>
      rw [scan_gap hgap]
      exact ih _
    | @token token written rest tokens hnext h ih =>
      obtain ⟨lexemes, hscan, htokens⟩ := ih (offset + byteLength written)
      rw [scan_token hnext, hscan]
      exact ⟨_, rfl, congrArg (List.cons _) htokens⟩

/-- Blanks before a text that spells tokens are gaps. -/
theorem Spells.of_blank_append {before text : List Char} {tokens : List Token}
    (hbefore : ∀ d ∈ before, isBlank d = true) (h : Spells (before ++ text) tokens) :
    Spells text tokens := by
  induction before with
  | nil => exact h
  | cons d before ih =>
    have hblank := List.forall_mem_cons.1 hbefore
    apply ih hblank.2
    generalize hwhole : d :: before ++ text = whole at h
    cases h with
    | nil => cases hwhole
    | gap hgap h =>
      cases hwhole
      exact h
    | token hnext h =>
      rw [← hwhole, List.cons_append, next?_of_isBlank hblank.1] at hnext
      cases hnext

/-- Blanks after a text that spells tokens are gaps. -/
theorem Spells.of_append_blank {text after : List Char} {tokens : List Token}
    (hafter : ∀ d ∈ after, isBlank d = true) (h : Spells (text ++ after) tokens) :
    Spells text tokens := by
  generalize hwhole : text ++ after = whole at h
  induction h generalizing text after with
  | nil =>
    rw [(List.append_eq_nil_iff.1 hwhole).1]
    exact .nil
  | @gap d rest tokens hgap h ih =>
    cases text with
    | nil =>
      -- all that is left are blanks, of which this is the first
      rw [List.nil_append] at hwhole
      rw [hwhole] at hafter
      exact ih (List.forall_mem_cons.1 hafter).2 (List.nil_append rest)
    | cons d' text =>
      obtain ⟨rfl, hrest⟩ := List.cons.inj hwhole
      exact .gap hgap (ih hafter hrest)
  | @token token written rest tokens hnext h ih =>
    cases text with
    | nil =>
      obtain ⟨d, written, rfl⟩ := List.exists_cons_of_ne_nil (next?_ne_nil hnext)
      rw [List.nil_append] at hwhole
      rw [hwhole] at hafter
      rw [List.cons_append, next?_of_isBlank (hafter d List.mem_cons_self)] at hnext
      cases hnext
    | cons d text =>
      rw [← hwhole, next?_append_blank hafter] at hnext
      obtain ⟨rest', htext⟩ := eq_append_of_next? hnext
      rw [htext] at hnext hwhole ⊢
      rw [List.append_assoc] at hwhole
      exact .token hnext (ih hafter (List.append_cancel_left hwhole))

/-- The trimmed text spells the same tokens. -/
theorem Spells.trim {text : List Char} {tokens : List Token} (h : Spells text tokens) :
    Spells (Text.trim text) tokens := by
  obtain ⟨before, after, hbefore, hafter, htext⟩ := exists_eq_trim text
  rw [htext] at h
  exact (h.of_blank_append hbefore).of_append_blank hafter

theorem tokenize_iff {text : List Char} {tokens : List Token} :
    (∃ lexemes, tokenize text = .ok lexemes ∧ lexemes.map (·.token) = tokens) ↔
      Spells text tokens := by
  rw [← scan_iff 0, tokenize]
  cases scan 0 text with
  | error position => simp
  | ok lexemes => simp

end Drawscript.Token
