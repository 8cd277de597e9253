import Drawscript.Stmt.Basic

/-!
# Statements inside statements

`insideAll` lists the statements of a block with all that stand in their bodies, at any depth; what
is strictly inside a statement is inside its `bodies` (`inside_eq_cons`). A block without a `call`
anywhere in it is `CallFree`, and one whose methods all have such bodies has `FlatMethods`. Both can
be decided by going through the list.
-/

set_option autoImplicit false

namespace Drawscript

mutual

/-- A statement and all statements in its bodies, at any depth. -/
def Stmt.inside : Stmt → List Stmt
  | .whileLoop place cond body => .whileLoop place cond body :: insideAll body
  | .forLoop place header body => .forLoop place header body :: insideAll body
  | .ifThen place cond thenBody => .ifThen place cond thenBody :: insideAll thenBody
  | .ifElse place cond thenBody elseBody =>
    .ifElse place cond thenBody elseBody :: (insideAll thenBody ++ insideAll elseBody)
  | .method place header lines body => .method place header lines body :: insideAll body
  | .call place name args => [.call place name args]
  | .command place cmd => [.command place cmd]

/-- The statements of a block and all statements in their bodies, at any depth. -/
def insideAll : List Stmt → List Stmt
  | [] => []
  | stmt :: rest => stmt.inside ++ insideAll rest

end

/-- The statements in the bodies of a statement. -/
def Stmt.bodies : Stmt → List Stmt
  | whileLoop _ _ body => body
  | forLoop _ _ body => body
  | ifThen _ _ thenBody => thenBody
  | ifElse _ _ thenBody elseBody => thenBody ++ elseBody
  | method _ _ _ body => body
  | call _ _ _ => []
  | command _ _ => []

/-- No statement of a block is a call, at any depth. -/
def CallFree (stmts : List Stmt) : Prop :=
  ∀ place name args, .call place name args ∉ insideAll stmts

/-- No method of a block has a call in its body, at any depth. -/
def FlatMethods (stmts : List Stmt) : Prop :=
  ∀ place header lines body, .method place header lines body ∈ insideAll stmts → CallFree body

/-- The statement is a call. -/
def Stmt.isCall : Stmt → Bool
  | call _ _ _ => true
  | _ => false

theorem callFree_iff {stmts : List Stmt} :
    ((insideAll stmts).all fun stmt => !stmt.isCall) = true ↔ CallFree stmts := by
  rw [List.all_eq_true]
  constructor
  · intro h place name args hmem
    exact Bool.false_ne_true (h _ hmem)
  · intro h stmt hmem
    cases stmt with
    | call place name args => exact absurd hmem (h place name args)
    | _ => rfl

instance (stmts : List Stmt) : Decidable (CallFree stmts) :=
  decidable_of_iff _ callFree_iff

/-- The statement is no method with a call in its body. -/
def Stmt.isFlat : Stmt → Bool
  | method _ _ _ body => decide (CallFree body)
  | _ => true

theorem flatMethods_iff {stmts : List Stmt} :
    (insideAll stmts).all Stmt.isFlat = true ↔ FlatMethods stmts := by
  rw [List.all_eq_true]
  constructor
  · intro h place header lines body hmem
    exact of_decide_eq_true (h _ hmem)
  · intro h stmt hmem
    cases stmt with
    | method place header lines body => exact decide_eq_true (h place header lines body hmem)
    | _ => rfl

instance (stmts : List Stmt) : Decidable (FlatMethods stmts) :=
  decidable_of_iff _ flatMethods_iff

theorem inside_subset_insideAll_cons (stmt : Stmt) (rest : List Stmt) :
    stmt.inside ⊆ insideAll (stmt :: rest) := by
  rw [insideAll]
  exact List.subset_append_left _ _

theorem insideAll_subset_insideAll_cons (stmt : Stmt) (rest : List Stmt) :
    insideAll rest ⊆ insideAll (stmt :: rest) := by
  rw [insideAll]
  exact List.subset_append_right _ _

theorem insideAll_append (first second : List Stmt) :
    insideAll (first ++ second) = insideAll first ++ insideAll second := by
  induction first with
  | nil => rw [List.nil_append, insideAll, List.nil_append]
  | cons stmt rest ih => rw [List.cons_append, insideAll, insideAll, ih, List.append_assoc]

theorem insideAll_singleton (stmt : Stmt) : insideAll [stmt] = stmt.inside := by
  rw [insideAll, insideAll, List.append_nil]

theorem not_mem_insideAll_nil {stmt : Stmt} : stmt ∉ insideAll [] := by
  rw [insideAll]
  exact List.not_mem_nil

/-- A statement stands before all that is inside its bodies. -/
theorem inside_eq_cons (stmt : Stmt) : stmt.inside = stmt :: insideAll stmt.bodies := by
  cases stmt with
  | whileLoop place cond body => rw [Stmt.inside, Stmt.bodies]
  | forLoop place header body => rw [Stmt.inside, Stmt.bodies]
  | ifThen place cond thenBody => rw [Stmt.inside, Stmt.bodies]
  | ifElse place cond thenBody elseBody => rw [Stmt.inside, Stmt.bodies, insideAll_append]
  | method place header lines body => rw [Stmt.inside, Stmt.bodies]
  | call place name args => rw [Stmt.inside, Stmt.bodies, insideAll]
  | command place cmd => rw [Stmt.inside, Stmt.bodies, insideAll]

theorem mem_inside_self (stmt : Stmt) : stmt ∈ stmt.inside := by
  cases stmt <;> (rw [Stmt.inside]; exact List.mem_cons_self)

/-- A statement is inside itself, so that only what stands in its bodies is left to look at. -/
theorem inside_subset_of_bodies {outer inner : Stmt} {within : List Stmt}
    (houter : outer.inside = outer :: within)
    (hwithin : inner ∈ within → inner.inside ⊆ within) (h : inner ∈ outer.inside) :
    inner.inside ⊆ outer.inside := by
  rcases List.mem_cons.1 (houter ▸ h) with rfl | hinner
  · exact List.Subset.refl _
  · rw [houter]
    exact List.subset_cons_of_subset _ (hwithin hinner)

-- What stands inside an inner statement stands inside the outer one.
mutual

/-- What is inside a statement inside another one is inside that one too. -/
theorem inside_trans : ∀ (stmt : Stmt) {inner : Stmt}, inner ∈ stmt.inside →
    inner.inside ⊆ stmt.inside
  | .whileLoop place cond body, _, h =>
    inside_subset_of_bodies (Stmt.inside.eq_1 place cond body) (insideAll_trans body) h
  | .forLoop place header body, _, h =>
    inside_subset_of_bodies (Stmt.inside.eq_2 place header body) (insideAll_trans body) h
  | .ifThen place cond thenBody, _, h =>
    inside_subset_of_bodies (Stmt.inside.eq_3 place cond thenBody) (insideAll_trans thenBody) h
  | .ifElse place cond thenBody elseBody, inner, h => by
    refine inside_subset_of_bodies (Stmt.inside.eq_4 place cond thenBody elseBody)
      (fun hinner => ?_) h
    rcases List.mem_append.1 hinner with hthen | helse
    · exact List.subset_append_of_subset_left _ (insideAll_trans thenBody hthen)
    · exact List.subset_append_of_subset_right _ (insideAll_trans elseBody helse)
  | .method place header lines body, _, h =>
    inside_subset_of_bodies (Stmt.inside.eq_5 place header lines body) (insideAll_trans body) h
  | .call place name args, _, h =>
    inside_subset_of_bodies (Stmt.inside.eq_6 place name args)
      (fun hinner => absurd hinner List.not_mem_nil) h
  | .command place cmd, _, h =>
    inside_subset_of_bodies (Stmt.inside.eq_7 place cmd)
      (fun hinner => absurd hinner List.not_mem_nil) h

/-- The same for statements in a row. -/
theorem insideAll_trans : ∀ (stmts : List Stmt) {inner : Stmt}, inner ∈ insideAll stmts →
    inner.inside ⊆ insideAll stmts
  | [], inner, h => by
    rw [insideAll] at h
    exact absurd h List.not_mem_nil
  | stmt :: rest, inner, h => by
    rw [insideAll] at h
    rcases List.mem_append.1 h with hstmt | hrest
    · exact List.Subset.trans (inside_trans stmt hstmt) (inside_subset_insideAll_cons stmt rest)
    · exact List.Subset.trans (insideAll_trans rest hrest)
        (insideAll_subset_insideAll_cons stmt rest)

end

/-- What stands in the bodies of a statement of a program stands in the program. -/
theorem bodies_subset_insideAll {program within : List Stmt} {stmt : Stmt}
    (hstmt : stmt.inside = stmt :: within) (h : stmt ∈ insideAll program) :
    within ⊆ insideAll program := by
  have hinside := insideAll_trans program h
  rw [hstmt] at hinside
  exact List.Subset.trans (List.subset_cons_self _ _) hinside

/-- A part of statements without calls has no calls. -/
theorem CallFree.mono {stmts stmts' : List Stmt} (h : CallFree stmts)
    (hsubset : insideAll stmts' ⊆ insideAll stmts) : CallFree stmts' :=
  fun place name args hcall => h place name args (hsubset hcall)

theorem FlatMethods.mono {stmts stmts' : List Stmt} (h : FlatMethods stmts)
    (hsubset : insideAll stmts' ⊆ insideAll stmts) : FlatMethods stmts' :=
  fun place header lines body hmethod => h place header lines body (hsubset hmethod)

/-- A method in a block without calls has no calls in its body. -/
theorem CallFree.flatMethods {stmts : List Stmt} (h : CallFree stmts) : FlatMethods stmts := by
  intro place header lines body hmethod
  exact h.mono (bodies_subset_insideAll (Stmt.inside.eq_5 place header lines body) hmethod)

end Drawscript
