import Drawscript.Proofs.Text.Fields
import Drawscript.Stmt.Arguments

/-!
# Arguments of drawing commands

Drawing arguments are divided at commas and at blanks, but not at blanks beside an arithmetic
operator. Nothing but blanks and commas is lost, and of two characters between which only these
stood it is known whether they belong to one argument (`drawArgs_divides`).

Compacting looks past blanks in both directions, so it is followed from one character that is not
blank to the next (`exists_compactArgs_append`). What it leaves between two such characters are
spaces, and the question is only whether there are any (`exists_compactArgs_between`).
-/

set_option autoImplicit false

namespace Drawscript

open Text

/-! ## The part of a character -/

/-- The index of the part that holds the character at a position of the parts put together. -/
def partIndex : List (List Char) → Nat → Nat
  | [], _ => 0
  | part :: rest, k => if k < part.length then 0 else partIndex rest (k - part.length) + 1

theorem partIndex_append_of_lt {parts : List (List Char)} {k : Nat} (h : k < parts.flatten.length)
    (others : List (List Char)) : partIndex (parts ++ others) k < parts.length := by
  induction parts generalizing k with
  | nil => exact absurd h (Nat.not_lt_zero k)
  | cons part rest ih =>
    rw [List.flatten_cons, List.length_append] at h
    rw [List.cons_append, partIndex, List.length_cons]
    split_ifs with hk
    · omega
    · exact Nat.succ_lt_succ (ih (by omega))

theorem partIndex_append_of_le {parts : List (List Char)} {k : Nat} (h : parts.flatten.length ≤ k)
    (others : List (List Char)) :
    partIndex (parts ++ others) k =
      parts.length + partIndex others (k - parts.flatten.length) := by
  induction parts generalizing k with
  | nil => exact (Nat.zero_add _).symm
  | cons part rest ih =>
    rw [List.flatten_cons, List.length_append] at h
    rw [List.cons_append, partIndex, if_neg (by omega), ih (by omega), List.flatten_cons,
      List.length_append, List.length_cons, Nat.sub_sub]
    omega

/-- The characters of one part have its index. -/
theorem partIndex_append_cons {parts : List (List Char)} {part : List Char} {k : Nat}
    (hle : parts.flatten.length ≤ k) (hlt : k < parts.flatten.length + part.length)
    (others : List (List Char)) : partIndex (parts ++ part :: others) k = parts.length := by
  rw [partIndex_append_of_le hle, partIndex, if_pos (by omega), Nat.add_zero]

section

variable {x y : Char} (hx : isBlank x = false) (front back : List Char)

include hx

/-- Two characters side by side belong to one word. -/
theorem partIndex_words_eq (hy : isBlank y = false) :
    partIndex (words (front ++ x :: y :: back)) (front.filter fun c => !isBlank c).length =
      partIndex (words (front ++ x :: y :: back))
        ((front.filter fun c => !isBlank c).length + 1) := by
  have hmiddle : IsWord [x, y] :=
    ⟨List.cons_ne_nil _ _, List.forall_mem_cons.2 ⟨hx, List.forall_mem_singleton.2 hy⟩⟩
  obtain ⟨before, left, right, after, hwords, hbefore⟩ := exists_fields_append front hmiddle back
  have hlength : (left ++ ([x, y] ++ right)).length = left.length + right.length + 2 := by
    simp only [List.length_append, List.length_cons, List.length_nil]
    omega
  have hparts : words (front ++ x :: y :: back) =
      before ++ (left ++ ([x, y] ++ right)) :: after := hwords
  rw [hparts, ← hbefore, List.length_append, partIndex_append_cons (by omega) (by omega),
    partIndex_append_cons (by omega) (by omega)]

/-- A blank after a character ends its word. -/
theorem partIndex_words_ne {c : Char} (hc : isBlank c = true) :
    partIndex (words (front ++ x :: c :: back)) (front.filter fun c => !isBlank c).length ≠
      partIndex (words (front ++ x :: c :: back))
        ((front.filter fun c => !isBlank c).length + 1) := by
  have hwords : words (front ++ x :: c :: back) = words (front ++ [x]) ++ words back := by
    have happend := fields_append_sep hc (front ++ [x]) back
    rwa [List.append_assoc] at happend
  have hlength : (words (front ++ [x])).flatten.length =
      (front.filter fun c => !isBlank c).length + 1 := by
    rw [words, flatten_fields, List.filter_append, List.length_append, List.filter_singleton, hx]
    rfl
  have hlt := partIndex_append_of_lt (Nat.lt_of_succ_le hlength.ge) (words back)
  have hle := partIndex_append_of_le hlength.le (words back)
  rw [hwords]
  omega

end

/-! ## Compacting -/

/-- Blanks and commas: what belongs to no drawing argument. -/
def isDivider (c : Char) : Bool :=
  isBlank c || c == ','

section

variable {c : Char} (before : Option Char) (rest : List Char)

/-- A blank becomes a space, unless it stands beside an operator. -/
theorem compactArgs_cons_blank (hc : isBlank c = true) :
    compactArgs before (c :: rest) =
      (if before.any isArithmetic || (rest.find? fun d => !isBlank d).any isArithmetic then []
        else [' ']) ++ compactArgs before rest := by
  rw [compactArgs, if_pos hc]
  dsimp only
  split_ifs
  · rfl
  · rfl

theorem compactArgs_cons (hc : isBlank c = false) :
    compactArgs before (c :: rest) =
      (if c = ',' then ' ' else c) :: compactArgs (some c) rest := by
  rw [compactArgs, hc]
  rfl

end

/-- Compacting keeps the characters of the arguments. -/
theorem filter_compactArgs (before : Option Char) (text : List Char) :
    (compactArgs before text).filter (fun c => !isBlank c) = text.filter fun c => !isDivider c := by
  induction text generalizing before with
  | nil => rfl
  | cons c rest ih =>
    cases hc : isBlank c with
    | true =>
      have hspace : List.filter (fun c => !isBlank c)
          (if before.any isArithmetic || (rest.find? fun d => !isBlank d).any isArithmetic then []
            else [' ']) = [] := by
        split_ifs
        · rfl
        · rfl
      have hdivider : (!isDivider c) = false := by rw [isDivider, hc]; rfl
      rw [compactArgs_cons_blank before rest hc, List.filter_append, hspace, ih before,
        List.filter_cons, hdivider]
      rfl
    | false =>
      rw [compactArgs_cons before rest hc, List.filter_cons, List.filter_cons, ih (some c)]
      by_cases hcomma : c = ','
      · rw [hcomma]
        rfl
      · have hdivider : (!isDivider c) = true := by
          rw [isDivider, hc, beq_eq_false_iff_ne.2 hcomma]
          rfl
        rw [if_neg hcomma, hc, hdivider]
        rfl

/-- Compacting up to a character that is not blank does not depend on what follows it. -/
theorem exists_compactArgs_append {c : Char} (hc : isBlank c = false) (before : Option Char)
    (front : List Char) :
    ∃ front', ∀ rest, compactArgs before (front ++ c :: rest) =
      front' ++ (if c = ',' then ' ' else c) :: compactArgs (some c) rest := by
  induction front generalizing before with
  | nil => exact ⟨[], fun rest => compactArgs_cons before rest hc⟩
  | cons d front ih =>
    cases hd : isBlank d with
    | true =>
      -- the next character that is not blank is in the front, or it is the given one
      have hnext (rest : List Char) : (front ++ c :: rest).find? (fun e => !isBlank e) =
          (front.find? fun e => !isBlank e).or (some c) := by
        rw [List.find?_append, List.find?_cons, hc]
        rfl
      obtain ⟨front', hfront⟩ := ih before
      have hcompact (rest : List Char) := compactArgs_cons_blank before (front ++ c :: rest) hd
      simp only [hnext, hfront, ← List.append_assoc] at hcompact
      exact ⟨_, hcompact⟩
    | false =>
      obtain ⟨front', hfront⟩ := ih (some d)
      have hcompact (rest : List Char) := compactArgs_cons before (front ++ c :: rest) hd
      simp only [hfront, ← List.cons_append] at hcompact
      exact ⟨_, hcompact⟩

/-- A character of an argument parts the compact text, and what stands before it has kept its own
characters of arguments. -/
theorem exists_compactArgs_argument {y : Char} (hy : isDivider y = false) (before : Option Char)
    (front : List Char) :
    ∃ front', (∀ rest, compactArgs before (front ++ y :: rest) =
        front' ++ y :: compactArgs (some y) rest) ∧
      front'.filter (fun c => !isBlank c) = front.filter fun c => !isDivider c := by
  obtain ⟨hblank, hcomma⟩ := Bool.or_eq_false_iff.1 hy
  obtain ⟨front', hfront⟩ := exists_compactArgs_append hblank before front
  rw [if_neg (beq_eq_false_iff_ne.1 hcomma)] at hfront
  refine ⟨front', hfront, ?_⟩
  have hfilter := filter_compactArgs before (front ++ [y])
  rw [hfront, List.filter_append, List.filter_append, List.filter_cons, List.filter_cons, hblank,
    hy] at hfilter
  exact List.append_cancel_right hfilter

/-- Blanks are kept as spaces, or all dropped beside an operator. -/
theorem compactArgs_blanks {blanks : List Char} (h : ∀ c ∈ blanks, isBlank c = true) {y : Char}
    (hy : isBlank y = false) (before : Option Char) (rest : List Char) :
    compactArgs before (blanks ++ y :: rest) =
      (if before.any isArithmetic || isArithmetic y then []
        else List.replicate blanks.length ' ') ++ compactArgs before (y :: rest) := by
  induction blanks with
  | nil =>
    rw [List.length_nil, List.replicate_zero, ite_self]
    rfl
  | cons c blanks ih =>
    obtain ⟨hc, hblanks⟩ := List.forall_mem_cons.1 h
    have hnext : (blanks ++ y :: rest).find? (fun e => !isBlank e) = some y := by
      rw [List.find?_append, List.find?_eq_none.2, List.find?_cons, hy]
      · rfl
      · intro d hd
        rw [hblanks d hd]
        exact Bool.false_ne_true
    rw [List.cons_append, compactArgs_cons_blank before _ hc, hnext, ih hblanks, Option.any_some]
    split_ifs
    · rfl
    · rfl

/-! ## Between two characters -/

/-- The text with two characters of arguments in it between which nothing but blanks and commas
stand. -/
structure Neighbours (text front : List Char) (x : Char) (between : List Char) (y : Char)
    (back : List Char) : Prop where
  text_eq : text = front ++ x :: (between ++ y :: back)
  left : isDivider x = false
  right : isDivider y = false
  dividers : ∀ c ∈ between, isDivider c = true

/-- What stands between two characters divides them: a comma, or blanks alone with no operator beside
them. -/
def Divides (x : Char) (between : List Char) (y : Char) : Prop :=
  ',' ∈ between ∨
    (between ≠ [] ∧ (∀ c ∈ between, isBlank c = true) ∧ isArithmetic x = false ∧
      isArithmetic y = false)

/-- Between two characters of arguments compacting leaves spaces, and some exactly if the characters
are to be divided. -/
theorem exists_compactArgs_between (x : Char) {y : Char} {between : List Char}
    (hy : isDivider y = false) (hbetween : ∀ c ∈ between, isDivider c = true) :
    ∃ spaces, (∀ back, compactArgs (some x) (between ++ y :: back) =
        spaces ++ y :: compactArgs (some y) back) ∧
      (∀ c ∈ spaces, isBlank c = true) ∧ (spaces ≠ [] ↔ Divides x between y) := by
  obtain ⟨spaces, hspaces, hfilter⟩ := exists_compactArgs_argument hy (some x) between
  refine ⟨spaces, hspaces, ?_, ?_⟩
  · have hnone : between.filter (fun c => !isDivider c) = [] := by
      rw [List.filter_eq_nil_iff]
      intro c hc
      rw [hbetween c hc]
      exact Bool.false_ne_true
    rw [hnone, List.filter_eq_nil_iff] at hfilter
    intro c hc
    simpa using hfilter c hc
  by_cases hmem : ',' ∈ between
  · -- a comma becomes a space, whatever stands around it
    obtain ⟨first, second, rfl⟩ := List.append_of_mem hmem
    obtain ⟨first', hfirst⟩ := exists_compactArgs_append (c := ',') rfl (some x) first
    obtain ⟨second', hsecond, -⟩ := exists_compactArgs_argument hy (some ',') second
    have hcompact := hspaces []
    rw [List.append_assoc, List.cons_append, hfirst, hsecond, if_pos rfl, ← List.cons_append,
      ← List.append_assoc] at hcompact
    have hspaces : first' ++ ' ' :: second' = spaces := List.append_cancel_right hcompact
    refine iff_of_true ?_ (Or.inl hmem)
    rw [← hspaces]
    exact List.append_ne_nil_of_right_ne_nil _ (List.cons_ne_nil _ _)
  · -- blanks are dropped next to an arithmetic character
    have hblanks : ∀ c ∈ between, isBlank c = true := by
      intro c hc
      refine (Bool.or_eq_true_iff.1 (hbetween c hc)).resolve_right fun hcomma => ?_
      rw [beq_iff_eq.1 hcomma] at hc
      exact hmem hc
    have hcompact := hspaces []
    obtain ⟨hblank, hcomma⟩ := Bool.or_eq_false_iff.1 hy
    rw [compactArgs_blanks hblanks hblank, compactArgs_cons (some x) [] hblank,
      if_neg (beq_eq_false_iff_ne.1 hcomma), Option.any_some] at hcompact
    have hspaces := List.append_cancel_right hcompact
    rw [Divides, or_iff_right hmem, and_iff_right hblanks, ← hspaces, ← Bool.or_eq_false_iff]
    cases isArithmetic x || isArithmetic y with
    | true => simp
    | false => simp

/-! ## The arguments -/

/-- Two characters of arguments belong to different arguments exactly if what stands between them
divides them. -/
theorem partIndex_drawArgs_ne_iff {text front between back : List Char} {x y : Char}
    (h : Neighbours text front x between y back) :
    partIndex (drawArgs text) (front.filter fun c => !isDivider c).length ≠
        partIndex (drawArgs text) ((front.filter fun c => !isDivider c).length + 1) ↔
      Divides x between y := by
  obtain ⟨rfl, hx, hy, hbetween⟩ := h
  obtain ⟨front', hfront, hfilter⟩ := exists_compactArgs_argument hx none front
  obtain ⟨spaces, hspaces, hblanks, hdivides⟩ := exists_compactArgs_between x hy hbetween
  have hx : isBlank x = false := (Bool.or_eq_false_iff.1 hx).1
  have hy : isBlank y = false := (Bool.or_eq_false_iff.1 hy).1
  rw [drawArgs, hfront, hspaces, ← hdivides, ← hfilter]
  cases spaces with
  | nil => exact iff_of_false (not_not_intro (partIndex_words_eq hx front' _ hy)) (not_not_intro rfl)
  | cons c spaces =>
    exact iff_of_true (partIndex_words_ne hx front' _ (hblanks c List.mem_cons_self))
      (List.cons_ne_nil _ _)

/-- **Drawing arguments are divided at commas and at blanks with no operator beside them.** The
arguments are nonempty and have neither blanks nor commas. Put together they are the text without
blanks and commas, and two characters that are neighbours there belong to different arguments exactly
if a comma stood between them, or only blanks, of which there was one at least, and neither of the two
is an operator. -/
theorem drawArgs_divides (text : List Char) :
    (∀ part ∈ drawArgs text, part ≠ [] ∧ ∀ c ∈ part, isBlank c = false ∧ c ≠ ',') ∧
      (drawArgs text).flatten = (text.filter fun c => !isDivider c) ∧
      ∀ ⦃front : List Char⦄ ⦃x : Char⦄ ⦃between : List Char⦄ ⦃y : Char⦄ ⦃back : List Char⦄,
        Neighbours text front x between y back →
          (partIndex (drawArgs text) (front.filter fun c => !isDivider c).length ≠
              partIndex (drawArgs text) ((front.filter fun c => !isDivider c).length + 1) ↔
            Divides x between y) := by
  have hflatten : (drawArgs text).flatten = text.filter fun c => !isDivider c := by
    rw [drawArgs, words, flatten_fields, filter_compactArgs]
  refine ⟨fun part hpart => ?_, hflatten, fun _ _ _ _ _ h => partIndex_drawArgs_ne_iff h⟩
  obtain ⟨hfield, -⟩ := isField_of_mem_fields hpart
  refine ⟨hfield.ne_nil, fun c hc => ?_⟩
  have hmem : c ∈ (drawArgs text).flatten := List.mem_flatten.2 ⟨part, hpart, hc⟩
  rw [hflatten, List.mem_filter, isDivider] at hmem
  simpa using hmem.2

/-- Blanks beside the operator do not divide, the one between the last two arguments does. -/
theorem drawArgs_divides_mixed :
    drawArgs "x + 10 ,y z".toList = ["x+10".toList, ['y'], ['z']] ∧
      Neighbours "x + 10 ,y z".toList "x + 10 ,".toList 'y' [' '] 'z' [] ∧
      Divides 'y' [' '] 'z' ∧
      partIndex (drawArgs "x + 10 ,y z".toList) 4 ≠
        partIndex (drawArgs "x + 10 ,y z".toList) 5 := by
  have hneighbours : Neighbours "x + 10 ,y z".toList "x + 10 ,".toList 'y' [' '] 'z' [] :=
    ⟨rfl, rfl, rfl, List.forall_mem_singleton.2 rfl⟩
  have hdivides : Divides 'y' [' '] 'z' :=
    Or.inr ⟨List.cons_ne_nil _ _, List.forall_mem_singleton.2 rfl, rfl, rfl⟩
  obtain ⟨-, -, hiff⟩ := drawArgs_divides "x + 10 ,y z".toList
  exact ⟨rfl, hneighbours, hdivides, (hiff hneighbours).2 hdivides⟩

end Drawscript
