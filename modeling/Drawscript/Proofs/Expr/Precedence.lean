import Drawscript.Expr.Eval
import Drawscript.Proofs.Expr.Lexer

/-!
# The grammar of expressions

Expressions as trees, with their value (`Expr.value`), and the grammar that says which tokens are
written for a tree (`Derives`). The readers of the precedence mode compute a value while they read
and never build a tree. They are right all the same: what they read is derivable and has the value
that they give (`soundAt`), and tokens that are derivable are read to their end, with the value of
the tree or the first problem met in it (`Derives.reads`). The second part also says that the bound
on the steps of the readers is never reached. So the mode accepts exactly the grammar
(`evaluate_precedence`).
-/

set_option autoImplicit false

namespace Drawscript

open Single (Operator)
open Text

/-! ## Trees and their values -/

/-- An expression. -/
inductive Expr where
  | int (n : Int64)
  | real (x : Float)
  | name (s : String)
  | negative (operand : Expr)
  | positive (operand : Expr)
  | binary (op : Operator) (left right : Expr)

/-- The value of an expression, computed from left to right, or the first problem met. The text is
the one that the expression was read from. -/
def Expr.value (text : String) (scope : Scope) : Expr → Except EvalError Float
  | int n => .ok (Number.ofInt64 n)
  | real x => .ok x
  | name s => Precedence.variableValue scope s
  | negative operand => (operand.value text scope).map (- ·)
  | positive operand => operand.value text scope
  | binary op left right =>
    (left.value text scope).bind fun x =>
      (right.value text scope).bind fun y => Single.apply text op x y

namespace Precedence

/-! ## The grammar -/

/-- The parts of an expression, from the loosest to the tightest. -/
inductive Level where
  | sum
  | product
  | signed
  | operand
deriving DecidableEq

/-- The symbol of an operator. -/
def symbol : Operator → Symbol
  | .minus => .minus
  | .plus => .plus
  | .times => .times
  | .divide => .divide

/-- The part of an expression that the operator joins. -/
def level : Operator → Level
  | .minus => .sum
  | .plus => .sum
  | .times => .product
  | .divide => .product

/-- The tokens are written for the expression, as a part of the given level. A repetition such as
`product (('+' | '-') product)*` is put as a recursion on its left, since the operators group to the
left. -/
inductive Derives : Level → List Token → Expr → Prop
  | product {tokens : List Token} {e : Expr} (h : Derives .product tokens e) :
      Derives .sum tokens e
  | add {left right : List Token} {a b : Expr} (op : Operator) (hop : level op = .sum)
      (ha : Derives .sum left a) (hb : Derives .product right b) :
      Derives .sum (left ++ .symbol (symbol op) :: right) (.binary op a b)
  | signed {tokens : List Token} {e : Expr} (h : Derives .signed tokens e) :
      Derives .product tokens e
  | multiply {left right : List Token} {a b : Expr} (op : Operator) (hop : level op = .product)
      (ha : Derives .product left a) (hb : Derives .signed right b) :
      Derives .product (left ++ .symbol (symbol op) :: right) (.binary op a b)
  | operand {tokens : List Token} {e : Expr} (h : Derives .operand tokens e) :
      Derives .signed tokens e
  | negative {tokens : List Token} {e : Expr} (h : Derives .signed tokens e) :
      Derives .signed (.symbol .minus :: tokens) (.negative e)
  | positive {tokens : List Token} {e : Expr} (h : Derives .signed tokens e) :
      Derives .signed (.symbol .plus :: tokens) (.positive e)
  | int (n : Int64) : Derives .operand [.int n] (.int n)
  | real (x : Float) : Derives .operand [.real x] (.real x)
  | name (s : String) : Derives .operand [.name s] (.name s)
  | parenthesized {tokens : List Token} {e : Expr} (h : Derives .sum tokens e) :
      Derives .operand (.symbol .openParen :: tokens ++ [.symbol .closeParen]) e

/-- No operator of the level stands at the start of the tokens. -/
def Stops (l : Level) (tokens : List Token) : Prop :=
  ∀ op, level op = l → tokens.head? ≠ some (.symbol (symbol op))

/-- At each level the reader either goes on with an operator of the level or stops. -/
theorem continues_or_stops (l : Level) (tokens : List Token) :
    (∃ op tail, level op = l ∧ tokens = .symbol (symbol op) :: tail) ∨ Stops l tokens := by
  by_cases hstops : Stops l tokens
  · exact Or.inr hstops
  · unfold Stops at hstops
    push Not at hstops
    obtain ⟨op, hop, hhead⟩ := hstops
    obtain ⟨tail, htokens⟩ := List.head?_eq_some_iff.1 hhead
    exact Or.inl ⟨op, tail, hop, htokens⟩

theorem stops_nil (l : Level) : Stops l [] := by
  intro op _ hhead
  cases hhead

theorem stops_closeParen (l : Level) (rest : List Token) :
    Stops l (.symbol .closeParen :: rest) := by
  intro op _ hhead
  cases op <;> cases hhead

/-- An operator of one level stops the other. -/
theorem stops_symbol {l : Level} {op : Operator} (h : level op ≠ l) (rest : List Token) :
    Stops l (.symbol (symbol op) :: rest) := by
  intro op' hop' hhead
  apply h
  cases op <;> cases op' <;> cases hhead <;> exact hop'

/-! ## One step of each reader -/

variable {text : String} {scope : Scope}

theorem readSum_succ (n : Nat) (tokens : List Token) :
    readSum text scope (n + 1) tokens =
      (readProduct text scope n tokens).bind fun read => readTerms text scope n read.1 read.2 := by
  rw [readSum]
  cases readProduct text scope n tokens with
  | error e => rfl
  | ok read => rfl

theorem readProduct_succ (n : Nat) (tokens : List Token) :
    readProduct text scope (n + 1) tokens =
      (readSigned text scope n tokens).bind fun read => readFactors text scope n read.1 read.2 := by
  rw [readProduct]
  cases readSigned text scope n tokens with
  | error e => rfl
  | ok read => rfl

theorem readTerms_symbol {op : Operator} (hop : level op = .sum) (n : Nat) (x : Float)
    (tail : List Token) :
    readTerms text scope (n + 1) x (.symbol (symbol op) :: tail) =
      (readProduct text scope n tail).bind fun read =>
        (Single.apply text op x read.1).bind fun y => readTerms text scope n y read.2 := by
  cases op with
  | minus =>
    rw [symbol, readTerms]
    cases readProduct text scope n tail with
    | error e => rfl
    | ok read => rfl
  | plus =>
    rw [symbol, readTerms]
    cases readProduct text scope n tail with
    | error e => rfl
    | ok read => rfl
  | times => cases hop
  | divide => cases hop

theorem readTerms_of_stops {tokens : List Token} (h : Stops .sum tokens) (n : Nat) (x : Float) :
    readTerms text scope (n + 1) x tokens = .ok (x, tokens) := by
  rw [readTerms]
  · rintro tail rfl
    exact h .plus rfl rfl
  · rintro tail rfl
    exact h .minus rfl rfl

theorem readFactors_symbol {op : Operator} (hop : level op = .product) (n : Nat) (x : Float)
    (tail : List Token) :
    readFactors text scope (n + 1) x (.symbol (symbol op) :: tail) =
      (readSigned text scope n tail).bind fun read =>
        (Single.apply text op x read.1).bind fun y => readFactors text scope n y read.2 := by
  cases op with
  | minus => cases hop
  | plus => cases hop
  | times =>
    rw [symbol, readFactors]
    cases readSigned text scope n tail with
    | error e => rfl
    | ok read => rfl
  | divide =>
    rw [symbol, readFactors]
    cases readSigned text scope n tail with
    | error e => rfl
    | ok read =>
      simp only [Except.bind, quotient, Single.apply]
      by_cases hzero : read.1.abs < tolerance
      · rw [if_pos hzero]
      · rw [if_neg hzero]

theorem readFactors_of_stops {tokens : List Token} (h : Stops .product tokens) (n : Nat)
    (x : Float) : readFactors text scope (n + 1) x tokens = .ok (x, tokens) := by
  rw [readFactors]
  · rintro tail rfl
    exact h .times rfl rfl
  · rintro tail rfl
    exact h .divide rfl rfl

theorem readSigned_minus (n : Nat) (tail : List Token) :
    readSigned text scope (n + 1) (.symbol .minus :: tail) =
      (readSigned text scope n tail).map fun read => (-read.1, read.2) := by
  rw [readSigned]
  cases readSigned text scope n tail with
  | error e => rfl
  | ok read => rfl

theorem readSigned_of_stops {tokens : List Token} (h : Stops .sum tokens) (n : Nat) :
    readSigned text scope (n + 1) tokens = readOperand text scope n tokens := by
  rw [readSigned]
  · rintro tail rfl
    exact h .minus rfl rfl
  · rintro tail rfl
    exact h .plus rfl rfl

theorem readOperand_name (n : Nat) (s : String) (rest : List Token) :
    readOperand text scope (n + 1) (.name s :: rest) =
      (variableValue scope s).bind fun x => .ok (x, rest) := by
  rw [readOperand]
  cases variableValue scope s with
  | error e => rfl
  | ok x => rfl

/-- What is read inside parentheses, if the closing one comes next. -/
def close (text : String) : Float × List Token → Reading
  | (x, .symbol .closeParen :: rest) => .ok (x, rest)
  | _ => .error (.unparsable text)

/-- A parenthesis is closed only if the next token is the closing one, which is then taken. -/
theorem eq_of_close {x : Float} {tokens : List Token} {read : Float × List Token}
    (h : close text (x, tokens) = .ok read) :
    ∃ rest, tokens = .symbol .closeParen :: rest ∧ read = (x, rest) := by
  unfold close at h
  split at h
  · next hread =>
    cases hread
    cases h
    exact ⟨_, rfl, rfl⟩
  · cases h

theorem readOperand_openParen (n : Nat) (tail : List Token) :
    readOperand text scope (n + 1) (.symbol .openParen :: tail) =
      (readSum text scope n tail).bind (close text) := by
  rw [readOperand]
  cases readSum text scope n tail with
  | error e => rfl
  | ok read =>
    obtain ⟨x, rest⟩ := read
    cases rest with
    | nil => rfl
    | cons token rest =>
      cases token with
      | symbol s => cases s <;> rfl
      | _ => rfl

/-! ## Sums and products -/

/-- A way to read parts that are joined by operators of one level: a first part, and then further
ones for as long as an operator of the level comes next. -/
structure Tier (text : String) (scope : Scope) where
  joined : Level
  part : Level
  readAll : Nat → List Token → Reading
  readMore : Nat → Float → List Token → Reading
  readPart : Nat → List Token → Reading
  /-- Steps that a part takes beyond those for its tokens. -/
  slack : Nat
  slack_pos : 0 < slack
  slack_le : slack ≤ 5
  part_ne : joined ≠ part
  start : ∀ n tokens, readAll (n + 1) tokens =
    (readPart n tokens).bind fun read => readMore n read.1 read.2
  step : ∀ op, level op = joined → ∀ n x tail,
    readMore (n + 1) x (.symbol (symbol op) :: tail) =
      (readPart n tail).bind fun read =>
        (Single.apply text op x read.1).bind fun y => readMore n y read.2
  stop : ∀ tokens, Stops joined tokens → ∀ n x, readMore (n + 1) x tokens = .ok (x, tokens)
  single : ∀ {tokens e}, Derives part tokens e → Derives joined tokens e
  join : ∀ {left right a b} op, level op = joined → Derives joined left a → Derives part right b →
    Derives joined (left ++ .symbol (symbol op) :: right) (.binary op a b)

/-- Products, joined to sums. -/
def sums (text : String) (scope : Scope) : Tier text scope where
  joined := .sum
  part := .product
  readAll := readSum text scope
  readMore := readTerms text scope
  readPart := readProduct text scope
  slack := 3
  slack_pos := by decide
  slack_le := by decide
  part_ne := by decide
  start := readSum_succ
  step _ hop := readTerms_symbol hop
  stop _ hstops := readTerms_of_stops hstops
  single := .product
  join := .add

/-- Operands with their signs, joined to products. -/
def products (text : String) (scope : Scope) : Tier text scope where
  joined := .product
  part := .signed
  readAll := readProduct text scope
  readMore := readFactors text scope
  readPart := readSigned text scope
  slack := 2
  slack_pos := by decide
  slack_le := by decide
  part_ne := by decide
  start := readProduct_succ
  step _ hop := readFactors_symbol hop
  stop _ hstops := readFactors_of_stops hstops
  single := .signed
  join := .multiply

/-! ## What is read is derivable -/

/-- The tokens are written for an expression with the given value. -/
def Stands (text : String) (scope : Scope) (l : Level) (tokens : List Token) (x : Float) : Prop :=
  ∃ e, Derives l tokens e ∧ e.value text scope = .ok x

/-- The tokens that are read stand for the number that is given, and the rest is left. -/
def Takes (text : String) (scope : Scope) (l : Level) (tokens : List Token)
    (read : Float × List Token) : Prop :=
  ∃ used, tokens = used ++ read.2 ∧ Stands text scope l used read.1

/-- The tokens that are read stand for the number that is given together with any tokens before them
that stand for `x`. -/
def Extends (text : String) (scope : Scope) (l : Level) (x : Float) (tokens : List Token)
    (read : Float × List Token) : Prop :=
  ∀ before, Stands text scope l before x →
    ∃ used, tokens = used ++ read.2 ∧ Stands text scope l (before ++ used) read.1

/-- Two steps in a row succeed only if both do. -/
theorem bind_eq_ok {α β : Type} {a : Except EvalError α} {f : α → Except EvalError β} {b : β}
    (h : a.bind f = .ok b) : ∃ x, a = .ok x ∧ f x = .ok b := by
  cases a with
  | error e => cases h
  | ok x => exact ⟨x, rfl, h⟩

namespace Tier

variable (tier : Tier text scope)

/-- A tree for the tokens so far and one for the next part make a tree for both, since operators of
one level group to the left. -/
theorem stands_join {before right : List Token} {x y z : Float} {op : Operator}
    (hop : level op = tier.joined) (h : Stands text scope tier.joined before x)
    (hright : Stands text scope tier.part right y) (happly : Single.apply text op x y = .ok z) :
    Stands text scope tier.joined (before ++ .symbol (symbol op) :: right) z := by
  obtain ⟨a, ha, hx⟩ := h
  obtain ⟨b, hb, hy⟩ := hright
  refine ⟨.binary op a b, tier.join op hop ha hb, ?_⟩
  rw [Expr.value, hx, hy]
  exact happly

variable {n : Nat}
  (hpart : ∀ tokens read, tier.readPart n tokens = .ok read →
    Takes text scope tier.part tokens read)
  (hmore : ∀ x tokens read, tier.readMore n x tokens = .ok read →
    Extends text scope tier.joined x tokens read)

include hpart hmore

/-- All that a level reads has a tree, given that of its parts. -/
theorem takes_succ {tokens : List Token} {read : Float × List Token}
    (hread : tier.readAll (n + 1) tokens = .ok read) :
    Takes text scope tier.joined tokens read := by
  rw [tier.start] at hread
  obtain ⟨first, hfirst, hrest⟩ := bind_eq_ok hread
  obtain ⟨used, htokens, e, he, hx⟩ := hpart _ _ hfirst
  obtain ⟨more, hmore, hstands⟩ := hmore _ _ _ hrest used ⟨e, tier.single he, hx⟩
  refine ⟨used ++ more, ?_, hstands⟩
  rw [htokens, hmore, List.append_assoc]

theorem extends_succ {x : Float} {tokens : List Token} {read : Float × List Token}
    (hread : tier.readMore (n + 1) x tokens = .ok read) :
    Extends text scope tier.joined x tokens read := by
  intro before hbefore
  -- what came before is joined with the next part, and the rest is read on from there
  rcases continues_or_stops tier.joined tokens with ⟨op, tail, hop, rfl⟩ | hstops
  · rw [tier.step op hop] at hread
    obtain ⟨next, hnext, hread⟩ := bind_eq_ok hread
    obtain ⟨y, happly, hrest⟩ := bind_eq_ok hread
    obtain ⟨used, htail, hstands⟩ := hpart _ _ hnext
    obtain ⟨more, hmore, hall⟩ :=
      hmore _ _ _ hrest _ (tier.stands_join hop hbefore hstands happly)
    refine ⟨.symbol (symbol op) :: used ++ more, ?_, ?_⟩
    · rw [htail, hmore, List.cons_append, List.cons_append, List.append_assoc]
    · rwa [List.append_assoc] at hall
  · rw [tier.stop tokens hstops] at hread
    cases hread
    exact ⟨[], rfl, (List.append_nil before).symm ▸ hbefore⟩

end Tier

/-- With the given number of steps, all readers take derivable tokens. -/
structure SoundAt (text : String) (scope : Scope) (n : Nat) : Prop where
  sum : ∀ tokens read, readSum text scope n tokens = .ok read →
    Takes text scope .sum tokens read
  terms : ∀ x tokens read, readTerms text scope n x tokens = .ok read →
    Extends text scope .sum x tokens read
  product : ∀ tokens read, readProduct text scope n tokens = .ok read →
    Takes text scope .product tokens read
  factors : ∀ x tokens read, readFactors text scope n x tokens = .ok read →
    Extends text scope .product x tokens read
  signed : ∀ tokens read, readSigned text scope n tokens = .ok read →
    Takes text scope .signed tokens read
  operand : ∀ tokens read, readOperand text scope n tokens = .ok read →
    Takes text scope .operand tokens read

namespace SoundAt

variable {n : Nat} {tokens : List Token} {read : Float × List Token}

theorem signed_succ (h : SoundAt text scope n)
    (hread : readSigned text scope (n + 1) tokens = .ok read) :
    Takes text scope .signed tokens read := by
  rcases continues_or_stops .sum tokens with ⟨op, tail, hop, rfl⟩ | hstops
  · cases op with
    | minus =>
      rw [symbol, readSigned_minus] at hread
      obtain ⟨operand, hoperand, hnegated⟩ := bind_eq_ok hread
      cases hnegated
      obtain ⟨used, htail, e, he, hx⟩ := h.signed _ _ hoperand
      refine ⟨.symbol .minus :: used, congrArg _ htail, .negative e, he.negative, ?_⟩
      rw [Expr.value, hx]
      rfl
    | plus =>
      rw [symbol, readSigned] at hread
      obtain ⟨used, htail, e, he, hx⟩ := h.signed _ _ hread
      exact ⟨.symbol .plus :: used, congrArg _ htail, .positive e, he.positive, hx⟩
    | times => cases hop
    | divide => cases hop
  · rw [readSigned_of_stops hstops] at hread
    obtain ⟨used, htokens, e, he, hx⟩ := h.operand _ _ hread
    exact ⟨used, htokens, e, he.operand, hx⟩

/-- All that is read as an operand has a tree; in parentheses it is that of the sum inside. -/
theorem operand_succ (h : SoundAt text scope n)
    (hread : readOperand text scope (n + 1) tokens = .ok read) :
    Takes text scope .operand tokens read := by
  cases tokens with
  | nil => cases hread
  | cons token tail =>
    cases token with
    | int k =>
      cases hread
      exact ⟨[.int k], rfl, .int k, .int k, rfl⟩
    | real x =>
      cases hread
      exact ⟨[.real x], rfl, .real x, .real x, rfl⟩
    | text s => cases hread
    | name s =>
      rw [readOperand_name] at hread
      obtain ⟨x, hx, hfound⟩ := bind_eq_ok hread
      cases hfound
      exact ⟨[.name s], rfl, .name s, .name s, hx⟩
    | symbol s =>
      cases s with
      | openParen =>
        rw [readOperand_openParen] at hread
        obtain ⟨⟨x, rest⟩, hinner, hclose⟩ := bind_eq_ok hread
        obtain ⟨used, htail, e, he, hx⟩ := h.sum _ _ hinner
        obtain ⟨after, hrest, rfl⟩ := eq_of_close hclose
        refine ⟨.symbol .openParen :: used ++ [.symbol .closeParen], ?_, e, he.parenthesized, hx⟩
        simp only [htail, hrest, List.cons_append, List.append_assoc, List.nil_append]
      | _ => cases hread

end SoundAt

/-- Whatever is read is derivable and has the value that is given. -/
theorem soundAt (text : String) (scope : Scope) (n : Nat) : SoundAt text scope n := by
  induction n with
  | zero =>
    constructor <;> intros <;> contradiction
  | succ n ih =>
    exact
      { sum := fun _ _ => (sums text scope).takes_succ ih.product ih.terms
        terms := fun _ _ _ => (sums text scope).extends_succ ih.product ih.terms
        product := fun _ _ => (products text scope).takes_succ ih.signed ih.factors
        factors := fun _ _ _ => (products text scope).extends_succ ih.signed ih.factors
        signed := fun _ _ => ih.signed_succ
        operand := fun _ _ => ih.operand_succ }

/-! ## What is derivable is read -/

/-- With enough steps a reader takes the tokens, gives the value of the expression and leaves the
rest. -/
def ReadsOff (text : String) (scope : Scope) (reader : Nat → List Token → Reading) (slack : Nat)
    (l : Level) (tokens : List Token) (e : Expr) : Prop :=
  ∀ rest n, Stops l rest → 5 * (tokens ++ rest).length + slack ≤ n →
    reader n (tokens ++ rest) = (e.value text scope).map fun x => (x, rest)

namespace Tier

variable (tier : Tier text scope)

/-- With enough steps the tokens are taken as the beginning of what is joined, and there are enough
steps left to go on with the rest. -/
def ReadsOn (tokens : List Token) (e : Expr) : Prop :=
  ∀ rest n, Stops tier.part rest → 5 * (tokens ++ rest).length + tier.slack + 1 ≤ n →
    ∃ m, 5 * rest.length + 1 ≤ m ∧
      tier.readAll n (tokens ++ rest) = (e.value text scope).bind fun x => tier.readMore m x rest

/-- A part on its own is read before any operators that follow. -/
theorem readsOn_single {tokens : List Token} {e : Expr}
    (h : ReadsOff text scope tier.readPart tier.slack tier.part tokens e) :
    tier.ReadsOn tokens e := by
  intro rest n hstops hn
  obtain ⟨n, rfl⟩ : ∃ k, n = k + 1 := ⟨n - 1, by omega⟩
  refine ⟨n, ?_, ?_⟩
  · have hslack := tier.slack_pos
    rw [List.length_append] at hn
    omega
  · rw [tier.start, h rest n hstops (by omega)]
    cases e.value text scope with
    | error _ => rfl
    | ok x => rfl

/-- If the tokens up to an operator are read, then so are those up to the end of the next part. -/
theorem readsOn_join {left right : List Token} {a b : Expr} {op : Operator}
    (hop : level op = tier.joined) (ha : tier.ReadsOn left a)
    (hb : ReadsOff text scope tier.readPart tier.slack tier.part right b) :
    tier.ReadsOn (left ++ .symbol (symbol op) :: right) (.binary op a b) := by
  intro rest n hstops hn
  have hop' : level op ≠ tier.part := by
    rw [hop]
    exact tier.part_ne
  rw [List.append_assoc, List.cons_append] at hn ⊢
  -- the operator ends the left side, and is then passed together with the right side
  obtain ⟨m, hm, hleft⟩ := ha _ n (stops_symbol hop' (right ++ rest)) hn
  rw [List.length_cons] at hm
  obtain ⟨m, rfl⟩ : ∃ k, m = k + 1 := ⟨m - 1, by omega⟩
  have hslack := tier.slack_le
  have hright := hb rest m hstops (by omega)
  refine ⟨m, ?_, ?_⟩
  · rw [List.length_append] at hm
    omega
  · rw [hleft, Expr.value]
    cases a.value text scope with
    | error _ => rfl
    | ok x =>
      simp only [Except.bind, tier.step op hop, hright]
      cases b.value text scope with
      | error _ => rfl
      | ok y => rfl

/-- Where nothing more is to be joined, the tokens are taken as a whole. -/
theorem ReadsOn.readsOff {tier : Tier text scope} {tokens : List Token} {e : Expr}
    (h : tier.ReadsOn tokens e) {rest : List Token} {n : Nat} (hpart : Stops tier.part rest)
    (hjoined : Stops tier.joined rest)
    (hn : 5 * (tokens ++ rest).length + tier.slack + 1 ≤ n) :
    tier.readAll n (tokens ++ rest) = (e.value text scope).map fun x => (x, rest) := by
  obtain ⟨m, hm, hread⟩ := h rest n hpart hn
  obtain ⟨m, rfl⟩ : ∃ k, m = k + 1 := ⟨m - 1, by omega⟩
  rw [hread]
  cases e.value text scope with
  | error _ => rfl
  | ok x => exact tier.stop rest hjoined m x

end Tier

/-- No operator joins operands or signs. -/
theorem stops_signed (tokens : List Token) : Stops .signed tokens := by
  intro op hop
  cases op <;> cases hop

/-- An operand does not start with a sign. -/
theorem Derives.stops {tokens : List Token} {e : Expr} (h : Derives .operand tokens e)
    (rest : List Token) : Stops .sum (tokens ++ rest) := by
  intro op hop hhead
  cases op <;> cases hop <;> cases h <;> cases hhead

/-- What the reader of each level does with derivable tokens. -/
def Reads (text : String) (scope : Scope) : Level → List Token → Expr → Prop
  | .sum => (sums text scope).ReadsOn
  | .product => (products text scope).ReadsOn
  | .signed => ReadsOff text scope (readSigned text scope) 2 .signed
  | .operand => ReadsOff text scope (readOperand text scope) 1 .signed

/-- What has a tree is read as the value of the tree, given enough fuel, by induction on the
derivation. -/
theorem Derives.reads {l : Level} {tokens : List Token} {e : Expr} (h : Derives l tokens e) :
    Reads text scope l tokens e := by
  -- each reader calls the next with one step less, so the slack grows with the level
  induction h with
  | product h ih =>
    apply (sums text scope).readsOn_single
    intro rest n hstops hn
    exact Tier.ReadsOn.readsOff ih (stops_signed rest) hstops hn
  | add op hop ha hb iha ihb =>
    apply (sums text scope).readsOn_join hop iha
    intro rest n hstops hn
    exact Tier.ReadsOn.readsOff ihb (stops_signed rest) hstops hn
  | signed h ih => exact (products text scope).readsOn_single ih
  | multiply op hop ha hb iha ihb => exact (products text scope).readsOn_join hop iha ihb
  | operand h ih =>
    intro rest n hstops hn
    obtain ⟨n, rfl⟩ : ∃ k, n = k + 1 := ⟨n - 1, by omega⟩
    -- an operand starts with no sign, so the reader of signs hands it on
    rw [readSigned_of_stops (h.stops rest)]
    exact ih rest n hstops (by omega)
  | @negative tokens e h ih =>
    intro rest n hstops hn
    rw [List.cons_append, List.length_cons] at hn
    obtain ⟨n, rfl⟩ : ∃ k, n = k + 1 := ⟨n - 1, by omega⟩
    rw [List.cons_append, readSigned_minus, ih rest n hstops (by omega), Expr.value]
    cases e.value text scope with
    | error _ => rfl
    | ok x => rfl
  | positive h ih =>
    intro rest n hstops hn
    rw [List.cons_append, List.length_cons] at hn
    obtain ⟨n, rfl⟩ : ∃ k, n = k + 1 := ⟨n - 1, by omega⟩
    rw [List.cons_append, readSigned]
    exact ih rest n hstops (by omega)
  | int k =>
    intro rest n _ hn
    obtain ⟨n, rfl⟩ : ∃ k, n = k + 1 := ⟨n - 1, by omega⟩
    rfl
  | real x =>
    intro rest n _ hn
    obtain ⟨n, rfl⟩ : ∃ k, n = k + 1 := ⟨n - 1, by omega⟩
    rfl
  | name s =>
    intro rest n _ hn
    obtain ⟨n, rfl⟩ : ∃ k, n = k + 1 := ⟨n - 1, by omega⟩
    rw [List.singleton_append, readOperand_name, Expr.value]
    cases variableValue scope s with
    | error _ => rfl
    | ok x => rfl
  | @parenthesized tokens e h ih =>
    intro rest n hstops hn
    have hshape : .symbol .openParen :: tokens ++ [.symbol .closeParen] ++ rest =
        .symbol .openParen :: (tokens ++ .symbol .closeParen :: rest) := by
      simp only [List.cons_append, List.append_assoc, List.nil_append]
    rw [hshape, List.length_cons] at hn
    obtain ⟨n, rfl⟩ : ∃ k, n = k + 1 := ⟨n - 1, by omega⟩
    -- the closing parenthesis ends the sum inside
    have hsum : (sums text scope).ReadsOn tokens e := ih
    have hinner := hsum.readsOff (stops_closeParen _ rest) (stops_closeParen _ rest) (n := n)
      (by simp only [sums]; omega)
    rw [hshape, readOperand_openParen]
    refine (congrArg (fun reading => reading.bind (close text)) hinner).trans ?_
    cases e.value text scope with
    | error _ => rfl
    | ok x => rfl

/-- The value of derivable tokens is that of their expression, or the first problem met in it. -/
theorem Derives.sumValue_eq {tokens : List Token} {e : Expr} (h : Derives .sum tokens e) :
    sumValue text scope tokens = e.value text scope := by
  have hsum : (sums text scope).ReadsOn tokens e := h.reads
  have hread := hsum.readsOff (stops_nil _) (stops_nil _) (n := stepBound tokens)
    (by rw [List.append_nil, stepBound]; simp only [sums]; omega)
  rw [List.append_nil] at hread
  rw [sumValue]
  change readSum text scope (stepBound tokens) tokens = _ at hread
  rw [hread]
  cases e.value text scope with
  | error _ => rfl
  | ok x => rfl

/-- Tokens that have a value are derivable. -/
theorem stands_of_sumValue {tokens : List Token} {x : Float}
    (h : sumValue text scope tokens = .ok x) : Stands text scope .sum tokens x := by
  rw [sumValue] at h
  cases hread : readSum text scope (stepBound tokens) tokens with
  | error e =>
    rw [hread] at h
    cases h
  | ok read =>
    obtain ⟨y, rest⟩ := read
    obtain ⟨used, htokens, hstands⟩ := (soundAt text scope _).sum _ _ hread
    rw [hread] at h
    cases rest with
    | nil =>
      cases h
      rwa [htokens, List.append_nil]
    | cons token rest => cases h

/-- A text that is not quoted has the value of the tokens that it spells. -/
theorem evaluate_of_spells {text : List Char} {tokens : List Token}
    (hspells : Token.Spells (trim text) tokens) (hplain : unquote? (trim text) = none)
    (scope : Scope) :
    Drawscript.evaluate .precedence scope text =
      (sumValue (String.ofList (trim text)) scope tokens).map Value.ofFloat := by
  obtain ⟨lexemes, hlexemes, rfl⟩ := Token.tokenize_iff.2 hspells
  simp only [Drawscript.evaluate, hplain, evaluate, hlexemes]
  cases sumValue (String.ofList (trim text)) scope (lexemes.map (·.token)) with
  | error e => rfl
  | ok x => rfl

end Precedence

open Precedence

/-- The precedence mode accepts exactly its grammar. Whatever tokens a text has, if they are written
for an expression, then the result is the value of the expression, narrowed, or the first problem
met from left to right. And if there is a result, then the tokens are written for an expression of
which it is the value. -/
theorem evaluate_precedence {text : List Char} {lexemes : List Lexeme}
    (htokens : Token.tokenize text = .ok lexemes ∨ Token.tokenize (trim text) = .ok lexemes)
    (hplain : unquote? (trim text) = none) (scope : Scope) :
    let tokens := lexemes.map (·.token)
    let whole := String.ofList (trim text)
    (∀ e, Derives .sum tokens e →
      Drawscript.evaluate .precedence scope text = (e.value whole scope).map Value.ofFloat) ∧
    ∀ v, Drawscript.evaluate .precedence scope text = .ok v →
      ∃ e x, Derives .sum tokens e ∧ e.value whole scope = .ok x ∧ v = Value.ofFloat x := by
  intro tokens whole
  have hspells : Token.Spells (trim text) tokens := by
    rcases htokens with htext | htrimmed
    · exact (Token.tokenize_iff.1 ⟨lexemes, htext, rfl⟩).trim
    · exact Token.tokenize_iff.1 ⟨lexemes, htrimmed, rfl⟩
  rw [evaluate_of_spells hspells hplain]
  constructor
  · intro e he
    rw [he.sumValue_eq]
  · intro v hv
    obtain ⟨x, hx, hnarrow⟩ := bind_eq_ok hv
    obtain ⟨e, he, hvalue⟩ := stands_of_sumValue hx
    exact ⟨e, x, he, hvalue, (Except.ok.inj hnarrow).symm⟩

/-- A text with a division by zero before an unknown variable. -/
def faulty : List Char :=
  " -(2 - x) / y * z".toList

/-- Its tokens. -/
def faultyLexemes : List Lexeme :=
  [⟨.symbol .minus, 1, 2⟩, ⟨.symbol .openParen, 2, 3⟩, ⟨.int 2, 3, 4⟩, ⟨.symbol .minus, 5, 6⟩,
    ⟨.name "x", 7, 8⟩, ⟨.symbol .closeParen, 8, 9⟩, ⟨.symbol .divide, 10, 11⟩, ⟨.name "y", 12, 13⟩,
    ⟨.symbol .times, 14, 15⟩, ⟨.name "z", 16, 17⟩]

/-- The expression that they are written for. -/
def faultyExpr : Expr :=
  .binary .times (.binary .divide (.negative (.binary .minus (.int 2) (.name "x"))) (.name "y"))
    (.name "z")

theorem derives_faulty : Derives .sum (faultyLexemes.map (·.token)) faultyExpr := by
  have hdifference : Derives .sum [.int 2, .symbol .minus, .name "x"]
      (.binary .minus (.int 2) (.name "x")) :=
    .add .minus rfl (.product (.signed (.operand (.int 2)))) (.signed (.operand (.name "x")))
  have hquotient : Derives .product
      [.symbol .minus, .symbol .openParen, .int 2, .symbol .minus, .name "x", .symbol .closeParen,
        .symbol .divide, .name "y"]
      (.binary .divide (.negative (.binary .minus (.int 2) (.name "x"))) (.name "y")) :=
    .multiply .divide rfl (.signed (.negative (.operand (.parenthesized hdifference))))
      (.operand (.name "y"))
  exact .product (.multiply .times rfl hquotient (.operand (.name "z")))

/-- Variables for it. -/
def faultyScope : Scope :=
  ⟨[("x", .int 5), ("y", .int 0)]⟩

/-- The division is what is reported. -/
theorem evaluate_precedence_faulty :
    Token.tokenize faulty = .ok faultyLexemes ∧ unquote? (trim faulty) = none ∧
      Drawscript.evaluate .precedence faultyScope faulty =
        .error (.divisionByZero "-(2 - x) / y * z") := by
  have htokens : Token.tokenize faulty = .ok faultyLexemes := by cbv
  have hplain : unquote? (trim faulty) = none := by cbv
  have htext : String.ofList (trim faulty) = "-(2 - x) / y * z" := by decide +kernel
  have hzero : (Number.ofInt64 0).abs < tolerance := by decide +kernel
  have hx : variableValue faultyScope "x" = .ok (Number.ofInt64 5) := rfl
  have hy : variableValue faultyScope "y" = .ok (Number.ofInt64 0) := rfl
  refine ⟨htokens, hplain, ?_⟩
  rw [(evaluate_precedence (Or.inl htokens) hplain faultyScope).1 faultyExpr derives_faulty, htext]
  simp only [faultyExpr, Expr.value, hx, hy, Except.map, Except.bind, Single.apply, hzero, if_true]

end Drawscript
