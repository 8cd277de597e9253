import Drawscript.Proofs.Expr.Lexer
import Drawscript.Proofs.Number.RoundTrip
import Mathlib.Computability.Language

/-!
# Token patterns

Every kind of token is given by a pattern, a language of characters (`Pattern.language`), and by what
a text of the language stands for (`Pattern.Decodes`). The next token of a text is the longest start
of it that matches a pattern (`LongestMatch`), and there is none exactly if no start of it does.

Two halves give this. The token that is read matches a pattern (`exists_pattern_of_next?`). A start
of the text that matches a pattern is never longer than what is read
(`readsAtLeast_of_mem_language`).
-/

set_option autoImplicit false

namespace Drawscript.Token

open Computability Text

/-! ## Patterns -/

/-- The texts of one character of a class. -/
def oneOf (p : Char → Bool) : Language Char :=
  {text | ∃ c, p c = true ∧ text = [c]}

/-- The texts of one or more characters of a class. -/
def manyOf (p : Char → Bool) : Language Char :=
  oneOf p * (oneOf p)∗

/-- The kinds of tokens. -/
inductive Pattern where
  | real
  | int
  | text
  | name
  | symbol (s : Symbol)

namespace Pattern

/-- The texts of a kind of token: digits with a point among or beside them, digits, anything between
two double quotes, a letter or `_` with word characters after it, a symbol. -/
def language : Pattern → Language Char
  | real =>
    manyOf Char.isDigit * (oneOf (· == '.') * (oneOf Char.isDigit)∗) +
      oneOf (· == '.') * manyOf Char.isDigit
  | int => manyOf Char.isDigit
  | text => oneOf (· == '"') * ((oneOf (· != '"'))∗ * oneOf (· == '"'))
  | name => oneOf (fun c => c.isAlpha || c == '_') * (oneOf isWordChar)∗
  | symbol s => oneOf (· == s.char)

/-- What a text of a pattern stands for. Digits alone are an integer if it fits 64 bits, and else a
real. -/
inductive Decodes : Pattern → List Char → Token → Prop
  | real {written : List Char} {x : Float} (h : Number.read? written = some x) :
    Decodes .real written (.real x)
  | int {written : List Char} {n : Int64} (h : n.toInt = Number.digitsValue written) :
    Decodes .int written (.int n)
  | wide {written : List Char} {x : Float} (hwide : 2 ^ 63 ≤ Number.digitsValue written)
    (h : Number.read? written = some x) : Decodes .int written (.real x)
  | text (inner : List Char) :
    Decodes .text ('"' :: (inner ++ ['"'])) (.text (String.ofList inner))
  | name (written : List Char) : Decodes .name written (.name (String.ofList written))
  | symbol (s : Symbol) : Decodes (.symbol s) [s.char] (.symbol s)

end Pattern

/-- What is written at the start of the text matches a pattern, which gives the token, and no longer
start of the text matches any. -/
structure LongestMatch (text written : List Char) (token : Token) : Prop where
  starts : written <+: text
  decoded : ∃ pattern : Pattern, written ∈ pattern.language ∧ pattern.Decodes written token
  longest : ∀ (other : List Char) (pattern : Pattern), other <+: text →
    other ∈ pattern.language → other.length ≤ written.length

/-! ## The texts of a pattern -/

theorem mem_oneOf_mul {p : Char → Bool} {l : Language Char} {text : List Char} :
    text ∈ oneOf p * l ↔ ∃ c rest, p c = true ∧ rest ∈ l ∧ text = c :: rest := by
  rw [Language.mem_mul]
  constructor
  · rintro ⟨_, ⟨c, hc, rfl⟩, rest, hrest, rfl⟩
    exact ⟨c, rest, hc, hrest, rfl⟩
  · rintro ⟨c, rest, hc, hrest, rfl⟩
    exact ⟨[c], ⟨c, hc, rfl⟩, rest, hrest, rfl⟩

/-- Any number of characters of a class. -/
theorem mem_kstar_oneOf {p : Char → Bool} {text : List Char} :
    text ∈ (oneOf p)∗ ↔ ∀ c ∈ text, p c = true := by
  rw [Language.mem_kstar]
  constructor
  · rintro ⟨parts, rfl, hparts⟩ c hc
    obtain ⟨part, hpart, hmem⟩ := List.mem_flatten.1 hc
    obtain ⟨d, hd, rfl⟩ := hparts part hpart
    rwa [List.mem_singleton.1 hmem]
  · intro htext
    refine ⟨text.map fun c => [c], ?_, ?_⟩
    · exact (List.flatMap_singleton' text).symm
    · intro part hpart
      obtain ⟨c, hc, rfl⟩ := List.mem_map.1 hpart
      exact ⟨c, htext c hc, rfl⟩

/-- The texts of at least one character, all of a kind. -/
theorem mem_manyOf {p : Char → Bool} {text : List Char} :
    text ∈ manyOf p ↔ text ≠ [] ∧ ∀ c ∈ text, p c = true := by
  rw [manyOf, mem_oneOf_mul]
  constructor
  · rintro ⟨c, rest, hc, hrest, rfl⟩
    exact ⟨List.cons_ne_nil _ _, List.forall_mem_cons.2 ⟨hc, mem_kstar_oneOf.1 hrest⟩⟩
  · rintro ⟨hne, htext⟩
    obtain ⟨c, rest, rfl⟩ := List.exists_cons_of_ne_nil hne
    obtain ⟨hc, hrest⟩ := List.forall_mem_cons.1 htext
    exact ⟨c, rest, hc, mem_kstar_oneOf.2 hrest, rfl⟩

namespace Pattern

/-- Digits around a point, at least one. -/
theorem mem_language_real {text : List Char} :
    text ∈ real.language ↔ ∃ whole places, (∀ c ∈ whole, c.isDigit = true) ∧
      (∀ c ∈ places, c.isDigit = true) ∧ (whole ≠ [] ∨ places ≠ []) ∧
      text = whole ++ '.' :: places := by
  rw [language, Language.mem_add, Language.mem_mul, mem_oneOf_mul]
  constructor
  · rintro (⟨whole, hwhole, _, htail, rfl⟩ | ⟨c, places, hc, hplaces, rfl⟩)
    · obtain ⟨hne, hwhole⟩ := mem_manyOf.1 hwhole
      obtain ⟨c, places, hc, hplaces, rfl⟩ := mem_oneOf_mul.1 htail
      exact ⟨whole, places, hwhole, mem_kstar_oneOf.1 hplaces, Or.inl hne,
        by rw [beq_iff_eq.1 hc]⟩
    · obtain ⟨hne, hplaces⟩ := mem_manyOf.1 hplaces
      exact ⟨[], places, List.forall_mem_nil _, hplaces, Or.inr hne, by rw [beq_iff_eq.1 hc]; rfl⟩
  · rintro ⟨whole, places, hwhole, hplaces, hne, rfl⟩
    by_cases hnil : whole = []
    · subst hnil
      right
      exact ⟨'.', places, rfl, mem_manyOf.2 ⟨hne.resolve_left (not_not_intro rfl), hplaces⟩, rfl⟩
    · left
      exact ⟨whole, mem_manyOf.2 ⟨hnil, hwhole⟩, _,
        mem_oneOf_mul.2 ⟨'.', places, rfl, mem_kstar_oneOf.2 hplaces, rfl⟩, rfl⟩

theorem forall_ne_quote_iff {inner : List Char} :
    (∀ c ∈ inner, (c != '"') = true) ↔ '"' ∉ inner := by
  constructor
  · intro hinner hmem
    exact absurd rfl (bne_iff_ne.1 (hinner '"' hmem))
  · intro hmem c hc
    rw [bne_iff_ne]
    rintro rfl
    exact hmem hc

/-- A quoted text has no quotes but those around it. -/
theorem mem_language_text {written : List Char} :
    written ∈ text.language ↔ ∃ inner, '"' ∉ inner ∧ written = '"' :: (inner ++ ['"']) := by
  rw [language, mem_oneOf_mul]
  constructor
  · rintro ⟨c, rest, hc, hrest, rfl⟩
    obtain ⟨inner, hinner, _, ⟨d, hd, rfl⟩, rfl⟩ := Language.mem_mul.1 hrest
    refine ⟨inner, forall_ne_quote_iff.1 (mem_kstar_oneOf.1 hinner), ?_⟩
    rw [beq_iff_eq.1 hc, beq_iff_eq.1 hd]
  · rintro ⟨inner, hinner, rfl⟩
    have hfree := mem_kstar_oneOf.2 (forall_ne_quote_iff.2 hinner)
    exact ⟨'"', _, rfl, Language.append_mem_mul hfree ⟨'"', rfl, rfl⟩, rfl⟩

end Pattern

/-! ## What is read matches a pattern -/

theorem read?_digits {written : List Char} (hne : written ≠ [])
    (h : ∀ c ∈ written, c.isDigit = true) :
    Number.read? written = some (Number.Decimal.toFloat ⟨Number.digitsValue written, 0⟩) := by
  have hhead : ∀ c ∈ written.head?, c.isDigit = true := fun c hc => h c (List.mem_of_mem_head? hc)
  have hsign := Number.takeSign_signText (fun c hc => Or.inl (hhead c hc)) false
  rw [Number.signText, if_neg Bool.false_ne_true, List.nil_append] at hsign
  simp only [Number.read?, hsign, Number.magnitude?_of_isDigit hne hhead,
    Number.decimal?_digits h hne, Option.map_some, if_neg Bool.false_ne_true]

/-- Digits around a point are read as they are decoded. -/
theorem read?_point {whole places : List Char} (hwhole : ∀ c ∈ whole, c.isDigit = true)
    (hplaces : ∀ c ∈ places, c.isDigit = true) (hne : whole ≠ [] ∨ places ≠ []) :
    ∃ x, ofPoint whole places = .real x ∧ Number.read? (whole ++ '.' :: places) = some x := by
  have hhead : ∀ c ∈ (whole ++ '.' :: places).head?, c.isDigit = true ∨ c = '.' := by
    intro c hc
    cases whole with
    | nil =>
      cases hc
      exact Or.inr rfl
    | cons d whole =>
      cases hc
      exact Or.inl (hwhole _ List.mem_cons_self)
  have hsign : Number.takeSign (whole ++ '.' :: places) = (false, whole ++ '.' :: places) :=
    Number.takeSign_signText hhead false
  have hmagnitude : Number.magnitude? (whole ++ '.' :: places) =
      (Number.decimal? (whole ++ '.' :: places)).map Number.Decimal.toFloat := by
    cases whole with
    | nil => rfl
    | cons d whole =>
      refine Number.magnitude?_of_isDigit (List.cons_ne_nil _ _) ?_
      rintro c ⟨⟩
      exact hwhole _ List.mem_cons_self
  refine ⟨_, rfl, ?_⟩
  simp only [Number.read?, hsign, hmagnitude, Number.decimal?_point hwhole hplaces hne,
    Option.map_some, if_neg Bool.false_ne_true]

/-- What digits are read as is what the pattern of integers says. -/
theorem decodes_ofDigits {written : List Char} (hne : written ≠ [])
    (h : ∀ c ∈ written, c.isDigit = true) : Pattern.int.Decodes written (ofDigits written) := by
  rw [ofDigits]
  split_ifs with hfits
  · exact .int (Int64.toInt_ofNat_of_lt hfits)
  · exact .wide (Nat.le_of_not_lt hfits) (read?_digits hne h)

/-- The token that is read matches a pattern. -/
theorem exists_pattern_of_next? {text written : List Char} {token : Token}
    (h : next? text = some (token, written)) :
    ∃ pattern : Pattern, written ∈ pattern.language ∧ pattern.Decodes written token := by
  cases text with
  | nil => cases h
  | cons c rest =>
    have hdigits (text : List Char) : ∀ d ∈ text.takeWhile Char.isDigit, d.isDigit = true :=
      fun _ hd => List.mem_takeWhile_imp hd
    cases startsAs c with
    | digit hc =>
      have hwhole : ∀ d ∈ c :: rest.takeWhile Char.isDigit, d.isDigit = true :=
        List.forall_mem_cons.2 ⟨hc, hdigits rest⟩
      have hne : c :: rest.takeWhile Char.isDigit ≠ [] := List.cons_ne_nil _ _
      by_cases hpoint : (rest.dropWhile Char.isDigit).head? = some '.'
      · obtain ⟨after, hafter⟩ := List.head?_eq_some_iff.1 hpoint
        rw [next?_real hc hafter] at h
        cases h
        obtain ⟨x, hx, hread⟩ := read?_point hwhole (hdigits after) (Or.inl hne)
        refine ⟨.real, ?_, hx ▸ .real hread⟩
        exact Pattern.mem_language_real.2 ⟨_, _, hwhole, hdigits after, Or.inl hne, rfl⟩
      · rw [next?_digits hc hpoint] at h
        cases h
        exact ⟨.int, mem_manyOf.2 ⟨hne, hwhole⟩, decodes_ofDigits hne hwhole⟩
    | point hc =>
      subst hc
      rw [next?_point] at h
      split_ifs at h with hempty
      cases h
      have hne : rest.takeWhile Char.isDigit ≠ [] := mt List.isEmpty_iff.2 hempty
      obtain ⟨x, hx, hread⟩ := read?_point (List.forall_mem_nil _) (hdigits rest) (Or.inr hne)
      refine ⟨.real, ?_, hx ▸ .real hread⟩
      exact Pattern.mem_language_real.2
        ⟨[], _, List.forall_mem_nil _, hdigits rest, Or.inr hne, rfl⟩
    | quote hc =>
      subst hc
      rw [next?_quote] at h
      split_ifs at h
      cases h
      refine ⟨.text, Pattern.mem_language_text.2 ⟨_, ?_, rfl⟩, .text _⟩
      intro hmem
      have hne := List.mem_takeWhile_imp hmem
      cases hne
    | letter hdigit hc =>
      rw [next?_letter hdigit hc] at h
      cases h
      refine ⟨.name, mem_oneOf_mul.2 ⟨c, _, hc, mem_kstar_oneOf.2 ?_, rfl⟩, .name _⟩
      exact fun _ hd => List.mem_takeWhile_imp hd
    | other hdigit hpoint hquote hletter =>
      rw [next?_other hdigit hpoint hquote hletter] at h
      obtain ⟨s, hs, hresult⟩ := Option.map_eq_some_iff.1 h
      cases hresult
      have hchar : s.char = c := by
        rw [Symbol.ofChar?] at hs
        simpa using List.find?_some hs
      subst hchar
      exact ⟨.symbol s, ⟨s.char, beq_self_eq_true _, rfl⟩, .symbol s⟩

/-! ## What matches a pattern is read -/

/-- Characters of a class at the start of a text are taken, and possibly more. -/
theorem length_le_takeWhile {p : Char → Bool} {start : List Char} (h : ∀ c ∈ start, p c = true)
    (rest : List Char) : start.length ≤ ((start ++ rest).takeWhile p).length := by
  rw [List.takeWhile_append_of_pos h, List.length_append]
  exact Nat.le_add_right _ _

/-- A token is read that is at least as long. -/
def ReadsAtLeast (length : Nat) (text : List Char) : Prop :=
  ∃ token written, next? text = some (token, written) ∧ length ≤ written.length

theorem readsAtLeast_point {places : List Char} (hplaces : ∀ c ∈ places, c.isDigit = true)
    (hne : places ≠ []) (rest : List Char) :
    ReadsAtLeast (places.length + 1) ('.' :: (places ++ rest)) := by
  have hlength := length_le_takeWhile hplaces rest
  have hpos := List.length_pos_iff.2 hne
  have hempty : ¬ ((places ++ rest).takeWhile Char.isDigit).isEmpty = true := by
    rw [List.isEmpty_iff, ← List.length_eq_zero_iff]
    omega
  have hnext := next?_point (places ++ rest)
  rw [if_neg hempty] at hnext
  exact ⟨_, _, hnext, Nat.succ_le_succ hlength⟩

section

variable {c : Char} {whole : List Char} (hc : c.isDigit = true)
  (hwhole : ∀ d ∈ whole, d.isDigit = true)

include hc hwhole

/-- Digits around a point are read at least up to the last digit. -/
theorem readsAtLeast_real {places : List Char} (hplaces : ∀ c ∈ places, c.isDigit = true)
    (rest : List Char) :
    ReadsAtLeast (whole.length + places.length + 2) (c :: (whole ++ '.' :: (places ++ rest))) := by
  have hdrop : (whole ++ '.' :: (places ++ rest)).dropWhile Char.isDigit =
      '.' :: (places ++ rest) := by
    rw [List.dropWhile_append_of_pos hwhole]
    rfl
  have hwhole := length_le_takeWhile hwhole ('.' :: (places ++ rest))
  have hplaces := length_le_takeWhile hplaces rest
  refine ⟨_, _, next?_real hc hdrop, ?_⟩
  simp only [List.length_append, List.length_cons]
  omega

theorem readsAtLeast_digits (rest : List Char) :
    ReadsAtLeast (whole.length + 1) (c :: (whole ++ rest)) := by
  have hwhole := length_le_takeWhile hwhole rest
  -- a point after the digits makes the token longer
  by_cases hpoint : ((whole ++ rest).dropWhile Char.isDigit).head? = some '.'
  · obtain ⟨after, hafter⟩ := List.head?_eq_some_iff.1 hpoint
    refine ⟨_, _, next?_real hc hafter, ?_⟩
    simp only [List.length_append, List.length_cons]
    omega
  · exact ⟨_, _, next?_digits hc hpoint, Nat.succ_le_succ hwhole⟩

end

theorem readsAtLeast_text {inner : List Char} (h : '"' ∉ inner) (rest : List Char) :
    ReadsAtLeast (inner.length + 2) ('"' :: (inner ++ '"' :: rest)) := by
  have htake : (inner ++ '"' :: rest).takeWhile (· != '"') = inner := by
    rw [List.takeWhile_append_of_pos (Pattern.forall_ne_quote_iff.2 h)]
    simp
  have hclosed : inner.length < (inner ++ '"' :: rest).length := by
    rw [List.length_append, List.length_cons]
    omega
  have hnext := next?_quote (inner ++ '"' :: rest)
  rw [htake, if_pos hclosed] at hnext
  refine ⟨_, _, hnext, ?_⟩
  rw [List.length_append, List.length_cons, List.length_singleton]

/-- A name is read at least up to its last word character. -/
theorem readsAtLeast_name {c : Char} (hc : (c.isAlpha || c == '_') = true) {word : List Char}
    (hword : ∀ d ∈ word, isWordChar d = true) (rest : List Char) :
    ReadsAtLeast (word.length + 1) (c :: (word ++ rest)) := by
  have hidentifier : isIdentifier [c] = true := (Bool.and_true _).trans hc
  obtain ⟨-, -, hdigit⟩ := isIdentifier_iff.1 hidentifier
  exact ⟨_, _, next?_letter (hdigit c rfl) hc (word ++ rest),
    Nat.succ_le_succ (length_le_takeWhile hword rest)⟩

theorem readsAtLeast_symbol (s : Symbol) (rest : List Char) :
    ReadsAtLeast 1 (s.char :: rest) := by
  cases s <;> exact ⟨_, _, rfl, le_rfl⟩

/-- A start of a text that matches a pattern is read, unless something longer is. -/
theorem readsAtLeast_of_mem_language {pattern : Pattern} {start : List Char}
    (h : start ∈ pattern.language) (rest : List Char) :
    ReadsAtLeast start.length (start ++ rest) := by
  cases pattern with
  | real =>
    obtain ⟨whole, places, hwhole, hplaces, hne, rfl⟩ := Pattern.mem_language_real.1 h
    cases whole with
    | nil => exact readsAtLeast_point hplaces (hne.resolve_left (not_not_intro rfl)) rest
    | cons c whole =>
      obtain ⟨hc, hwhole⟩ := List.forall_mem_cons.1 hwhole
      have hreads := readsAtLeast_real hc hwhole hplaces rest
      simp only [List.cons_append, List.append_assoc, List.length_cons, List.length_append]
      convert hreads using 1
      omega
  | int =>
    obtain ⟨hne, hdigits⟩ := mem_manyOf.1 h
    obtain ⟨c, digits, rfl⟩ := List.exists_cons_of_ne_nil hne
    obtain ⟨hc, hdigits⟩ := List.forall_mem_cons.1 hdigits
    exact readsAtLeast_digits hc hdigits rest
  | text =>
    obtain ⟨inner, hinner, rfl⟩ := Pattern.mem_language_text.1 h
    have hreads := readsAtLeast_text hinner rest
    simpa only [List.cons_append, List.append_assoc, List.nil_append, List.length_cons,
      List.length_append, List.length_nil, Nat.zero_add, Nat.add_assoc, Nat.reduceAdd] using hreads
  | name =>
    obtain ⟨c, word, hc, hword, rfl⟩ := mem_oneOf_mul.1 h
    exact readsAtLeast_name hc (mem_kstar_oneOf.1 hword) rest
  | symbol s =>
    obtain ⟨c, hc, rfl⟩ := h
    obtain rfl := beq_iff_eq.1 hc
    exact readsAtLeast_symbol s rest

/-! ## The longest match -/

/-- **What is read is the longest match.** -/
theorem longestMatch_of_next? {text written : List Char} {token : Token}
    (h : next? text = some (token, written)) : LongestMatch text written token := by
  obtain ⟨rest, rfl⟩ := eq_append_of_next? h
  refine ⟨List.prefix_append written rest, exists_pattern_of_next? h, ?_⟩
  rintro other pattern ⟨rest', hother⟩ hmem
  obtain ⟨token', written', hnext, hlength⟩ := readsAtLeast_of_mem_language hmem rest'
  rw [hother, h] at hnext
  cases hnext
  exact hlength

/-- **If nothing is read, nothing matches.** -/
theorem not_mem_language_of_next?_eq_none {text : List Char} (h : next? text = none)
    {start : List Char} (hstart : start <+: text) (pattern : Pattern) :
    start ∉ pattern.language := by
  obtain ⟨rest, rfl⟩ := hstart
  intro hmem
  obtain ⟨token, written, hnext, -⟩ := readsAtLeast_of_mem_language hmem rest
  rw [h] at hnext
  cases hnext

end Drawscript.Token
