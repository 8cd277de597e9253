import Drawscript.Proofs.Expr.Pattern
import Drawscript.Proofs.Source.Offset

/-!
# Where the tokens of a text stand

Reading a text from the left covers it with tokens and gaps (`Token.Laid`). The tokens follow one
another, each is the longest match of the patterns where it starts, and what no token covers is a
gap. Reading either reaches the end of the text or stops at the first offset where no pattern matches
(`Token.Stuck`).

One more gap and one more token at the front keep this (`Scanned.gap`, `Scanned.token`), and a whole
run is made of these two steps (`scanned_scan`).
-/

set_option autoImplicit false

namespace Drawscript

open Text

/-- The bytes of the lexeme are the longest match where it starts. -/
def Lexeme.InPlace (text : List Char) (lexeme : Lexeme) : Prop :=
  ∃ front written back, text = front ++ (written ++ back) ∧
    lexeme.span = ⟨byteLength front, byteLength (front ++ written)⟩ ∧
    Token.LongestMatch (written ++ back) written lexeme.token

namespace Token

/-- From the offset `start` to the offset `stop` the text is made of the lexemes and of gaps. -/
structure Laid (text : List Char) (start stop : Nat) (lexemes : List Lexeme) : Prop where
  le : start ≤ stop
  inRange : ∀ lexeme ∈ lexemes,
    start ≤ lexeme.span.start ∧ lexeme.span.start < lexeme.span.stop ∧ lexeme.span.stop ≤ stop
  ordered : lexemes.Pairwise fun lexeme lexeme' => lexeme.span.stop ≤ lexeme'.span.start
  inPlace : ∀ lexeme ∈ lexemes, lexeme.InPlace text
  gaps : ∀ offset, start ≤ offset → offset < stop →
    (∀ lexeme ∈ lexemes, ¬ lexeme.span.Covers offset) →
      ∃ c, charAt? text offset = some c ∧ isGap c = true

/-- A character stands at the offset that is no gap, and no pattern matches there. -/
def Stuck (text : List Char) (offset : Nat) : Prop :=
  ∃ front c rest, text = front ++ c :: rest ∧ byteLength front = offset ∧ isGap c = false ∧
    ∀ (start : List Char) (pattern : Pattern), start <+: c :: rest → start ∉ pattern.language

/-- What reading a text from an offset on can give. -/
inductive Scanned (text : List Char) (start : Nat) : Except Nat (List Lexeme) → Prop
  | done {lexemes : List Lexeme} (h : Laid text start (byteLength text) lexemes) :
    Scanned text start (.ok lexemes)
  | stuck {offset : Nat} {lexemes : List Lexeme} (h : Laid text start offset lexemes)
    (hstuck : Stuck text offset) : Scanned text start (.error offset)

/-! ## One step -/

variable {text : List Char} {start stop : Nat} {lexemes : List Lexeme}

theorem utf8Size_of_isGap {c : Char} (h : isGap c = true) : c.utf8Size = 1 := by
  simp only [isGap, Bool.or_eq_true, beq_iff_eq] at h
  rcases h with ((rfl | rfl) | rfl) | rfl <;> rfl

namespace Laid

theorem nil (text : List Char) (start : Nat) : Laid text start start [] where
  le := le_rfl
  inRange := List.forall_mem_nil _
  ordered := List.Pairwise.nil
  inPlace := List.forall_mem_nil _
  gaps := by
    intro offset hstart hstop
    omega

/-- A gap in front leaves the tokens where they are. -/
theorem gap {c : Char} (hc : charAt? text start = some c) (hgap : isGap c = true)
    (h : Laid text (start + 1) stop lexemes) : Laid text start stop lexemes where
  le := Nat.le_of_succ_le h.le
  inRange := by
    intro lexeme hmem
    obtain ⟨hstart, hne, hstop⟩ := h.inRange lexeme hmem
    exact ⟨Nat.le_of_succ_le hstart, hne, hstop⟩
  ordered := h.ordered
  inPlace := h.inPlace
  gaps := by
    intro offset hstart hstop hout
    rcases hstart.eq_or_lt with rfl | hlt
    · exact ⟨c, hc, hgap⟩
    · exact h.gaps offset hlt hstop hout

/-- A token in front ends where the next part of the text begins. -/
theorem token {lexeme : Lexeme} (hstart : lexeme.span.start = start)
    (hne : start < lexeme.span.stop) (hlexeme : lexeme.InPlace text)
    (h : Laid text lexeme.span.stop stop lexemes) : Laid text start stop (lexeme :: lexemes) where
  le := hne.le.trans h.le
  inRange := by
    rw [List.forall_mem_cons]
    constructor
    · exact ⟨hstart.ge, hstart.trans_lt hne, h.le⟩
    · intro other hmem
      obtain ⟨hother, hne', hstop⟩ := h.inRange other hmem
      exact ⟨hne.le.trans hother, hne', hstop⟩
  ordered := List.Pairwise.cons (fun other hmem => (h.inRange other hmem).1) h.ordered
  inPlace := List.forall_mem_cons.2 ⟨hlexeme, h.inPlace⟩
  gaps := by
    intro offset hoffset hstop hout
    obtain ⟨hfirst, hrest⟩ := List.forall_mem_cons.1 hout
    -- an offset that the first lexeme does not cover is after it
    have hafter : lexeme.span.stop ≤ offset := by
      rw [Span.Covers, hstart, not_and, not_lt] at hfirst
      exact hfirst hoffset
    exact h.gaps offset hafter hstop hrest

end Laid

/-- The lexeme that is read after the text `before`. -/
theorem inPlace_of_next? {text written : List Char} {token : Token}
    (h : next? text = some (token, written)) (before : List Char) :
    Lexeme.InPlace (before ++ text)
      ⟨token, byteLength before, byteLength before + byteLength written⟩ := by
  obtain ⟨rest, rfl⟩ := eq_append_of_next? h
  refine ⟨before, written, rest, rfl, ?_, longestMatch_of_next? h⟩
  rw [byteLength_append]

theorem append_drop_of_next? {text written : List Char} {token : Token}
    (h : next? text = some (token, written)) (before : List Char) :
    before ++ written ++ text.drop written.length = before ++ text := by
  obtain ⟨rest, rfl⟩ := eq_append_of_next? h
  rw [List.drop_left, List.append_assoc]

/-- No token is empty, so that each step of the scan moves on. -/
theorem byteLength_pos_of_next? {text written : List Char} {token : Token}
    (h : next? text = some (token, written)) : 0 < byteLength written := by
  obtain ⟨c, rest, rfl⟩ := List.exists_cons_of_ne_nil (next?_ne_nil h)
  exact Nat.add_pos_left c.utf8Size_pos _

namespace Scanned

theorem gap {c : Char} {result : Except Nat (List Lexeme)} (hc : charAt? text start = some c)
    (hgap : isGap c = true) (h : Scanned text (start + 1) result) : Scanned text start result := by
  cases h with
  | done h => exact .done (h.gap hc hgap)
  | stuck h hstuck => exact .stuck (h.gap hc hgap) hstuck

theorem token {before written : List Char} {token : Token} {result : Except Nat (List Lexeme)}
    (hnext : next? text = some (token, written))
    (h : Scanned (before ++ text) (byteLength before + byteLength written) result) :
    Scanned (before ++ text) (byteLength before)
      (result.map (⟨token, byteLength before, byteLength before + byteLength written⟩ :: ·)) := by
  have hplace := inPlace_of_next? hnext before
  have hne : byteLength before < byteLength before + byteLength written :=
    Nat.lt_add_of_pos_right (byteLength_pos_of_next? hnext)
  cases h with
  | done h => exact .done (h.token rfl hne hplace)
  | stuck h hstuck => exact .stuck (h.token rfl hne hplace) hstuck

end Scanned

/-! ## A whole run -/

/-- A run after a text is made of gap steps and token steps. -/
theorem scanned_scan (before text : List Char) :
    Scanned (before ++ text) (byteLength before) (scan (byteLength before) text) := by
  generalize hoffset : byteLength before = offset
  -- the induction follows the run; what is passed over goes to the end of `before`
  fun_induction scan offset text generalizing before with
  | case1 offset =>
    subst hoffset
    rw [List.append_nil]
    exact .done (.nil before _)
  | case2 offset c rest hgap ih =>
    subst hoffset
    have hsize := utf8Size_of_isGap hgap
    have hbefore : byteLength (before ++ [c]) = byteLength before + c.utf8Size :=
      byteLength_append before [c]
    have hscanned := ih (before ++ [c]) hbefore
    rw [List.append_assoc, List.singleton_append] at hscanned
    rw [hsize] at hscanned ⊢
    exact hscanned.gap (charAt?_append_cons before c rest) hgap
  | case3 offset c rest hgap hnext =>
    subst hoffset
    refine .stuck (.nil _ _) ⟨before, c, rest, rfl, rfl, Bool.eq_false_of_not_eq_true hgap, ?_⟩
    intro start pattern hstart
    exact not_mem_language_of_next?_eq_none hnext hstart pattern
  | case4 offset c rest hgap token written hnext stop lexemes hrest ih =>
    subst hoffset
    have hscanned := ih (before ++ written) (byteLength_append before written)
    rw [append_drop_of_next? hnext, hrest] at hscanned
    exact hscanned.token hnext
  | case5 offset c rest hgap token written hnext stop position hrest ih =>
    subst hoffset
    have hscanned := ih (before ++ written) (byteLength_append before written)
    rw [append_drop_of_next? hnext, hrest] at hscanned
    exact hscanned.token hnext

/-- **The tokens of a text cover it but for gaps**, each as the longest match where it starts. Either
all of the text is read, or it is refused at the first offset, after the tokens and gaps before it,
where no pattern matches. -/
theorem tokenize_laid (text : List Char) :
    (∃ lexemes, tokenize text = .ok lexemes ∧ Laid text 0 (byteLength text) lexemes) ∨
      ∃ offset lexemes,
        tokenize text = .error (.unexpectedCharacter (String.ofList text) offset) ∧
        Laid text 0 offset lexemes ∧ Stuck text offset := by
  have hscanned : Scanned text 0 (scan 0 text) := scanned_scan [] text
  rw [tokenize]
  cases hscan : scan 0 text with
  | ok lexemes =>
    rw [hscan] at hscanned
    cases hscanned with
    | done h => exact Or.inl ⟨lexemes, rfl, h⟩
  | error offset =>
    rw [hscan] at hscanned
    cases hscanned with
    | stuck h hstuck => exact Or.inr ⟨offset, _, rfl, h, hstuck⟩

end Token

end Drawscript
