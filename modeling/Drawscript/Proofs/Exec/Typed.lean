import Drawscript.Proofs.Exec.History
import Drawscript.Proofs.Store.Typed

/-!
# Runs keep the store typed

No step of a run makes a variable hold a text, brings an array out of its bounds or an element of
the wrong kind into it, or registers a method twice: every step keeps the store `Typed`
(`Store.Typed.next`). An empty store is typed, so all stores that an interpreter passes through are,
however it is used and however its runs end (`passesThrough_typed`).
-/

set_option autoImplicit false

namespace Drawscript

open Machine

variable {σ : Type}

/-! ## Commands and calls -/

namespace Store.Typed

theorem setAll {m : Machine σ} (h : m.store.Typed) {bindings : List (String × Value)}
    (hnumbers : ∀ binding ∈ bindings, binding.2.isNumber = true) :
    (m.setAll bindings).store.Typed := by
  obtain ⟨active, hstore, -⟩ := store_setAll bindings m
  have hscopes : (m.setAll bindings).store.scopes.All Scope.Numeric := all_setAll h.scopes hnumbers
  rw [hstore] at hscopes ⊢
  exact ⟨hscopes, h.arrays, h.methods⟩

/-- Only numbers are bound, and only typed arrays take the place of typed arrays. -/
theorem carryOut [Surface σ] {m : Machine σ} (h : m.store.Typed) (place : Place) {cmd : Command}
    {plan : Plan} (hsuits : plan.effect.Suits m.view cmd) :
    (m.carryOut place plan).machine.store.Typed := by
  obtain ⟨notices, effect⟩ := plan
  have hsaid : (m.sayAll place notices).store.Typed := h
  cases hsuits with
  | keep => exact hsaid
  | request _ request => exact (store_perform request (m.sayAll place notices)).symm ▸ hsaid
  | numbers _ hnumbers => exact hsaid.setAll hnumbers
  | found hfound =>
    rw [← peek_of_view rfl] at hfound
    exact hsaid.setAll (List.forall_mem_singleton.2 (h.isNumber_of_peek hfound))
  | declared hdeclared =>
    exact hsaid.setArrays (h.arrays.insert (Cells.typed_of_declared hdeclared))
  | replaced hreplaced =>
    refine hsaid.setArrays (h.arrays.modify fun cells hcells => ?_)
    -- the element was made for the array that is found under the name
    obtain ⟨cells', hcells', hadmits⟩ := admits_of_element hreplaced
    cases hcells.symm.trans hcells'
    exact (h.arrays.get? hcells).set _ hadmits

theorem command [Surface σ] {m : Machine σ} (h : m.store.Typed) (config : Config) (place : Place)
    (cmd : Command) : (m.command config place cmd).machine.store.Typed := by
  obtain ⟨plan, hplan⟩ := planned_command (σ := σ) config place cmd m.view
  obtain ⟨hsuits, -, hrun⟩ := hplan m rfl
  rw [hrun]
  exact h.carryOut place hsuits

theorem entered {m : Machine σ} (h : m.store.Typed) (config : Config) (place : Place)
    (name : String) (args : List String) (method : Method) :
    (m.entered config place name args method).store.Typed := by
  rw [store_entered]
  refine h.enter (all_bindParams config place (fun pair _ value hvalue => hvalue) ?_ m)
  exact Table.all_empty

theorem leaveOutcome {o : Outcome σ} (h : o.machine.store.Typed) (place : Place) (name : String) :
    (o.leave place name).machine.store.Typed := by
  cases o with
  | done m => exact h.leave.set name (h.isNumber_left name)
  | stopped e m => exact h.leave.set name (h.isNumber_left name)

/-! ## Steps -/

/-- Every step keeps the store typed. -/
theorem next [Surface σ] (config : Config) (s s' : Stage σ) (h : s.machine.store.Typed)
    (hnext : s.next? config = some s') : s'.machine.store.Typed := by
  cases moves_of_next? hnext with
  | goOn task rest m =>
    have hm : m.store.Typed := h
    have hdoes := task.step_does config m
    generalize task.step config m = after at hdoes
    cases hdoes with
    | leave place name => exact leaveOutcome (o := .done m) hm place name
    | enter place stmts henters => exact hm.entered config place _ _ _
    | register place header lines body stmts notice => exact hm.register ⟨header, lines, body⟩
    | command place cmd stmts => exact hm.command config place cmd
    | round place var stop step body counter made => exact hm.set var (isNumber_ofFloat counter)
    | endFor place var stop step body counter made notices => exact hm.remove var
    | look place notices htask htasks hplace => exact hm
  | giveUp task rest e m =>
    by_cases htask : task.isLeave = true
    · -- a call is left also when the run is stopped inside it
      obtain ⟨place, name, rfl⟩ := eq_leave_of_isLeave htask
      exact leaveOutcome (o := .stopped e m) h place name
    · rw [giveUp_of_not_leave (Bool.eq_false_iff.2 htask)]
      exact h

end Store.Typed

/-! ## Interpreters -/

/-- However an interpreter is used, at every point of every run and between the runs no variable of
a scope that it holds is a text, every array has between one and `maxArraySize` elements of its own
kind, and the names of the methods are distinct. -/
theorem passesThrough_typed {config : Config} {store : Store}
    (h : Interpreter.PassesThrough config store) : store.Typed :=
  h.invariant Store.typed_empty Store.Typed.next

/-- Statements that fill an array, read it, and call a method. -/
def stocked : List Stmt :=
  let place : Place := ⟨1, ⟨0, 0⟩⟩
  [.command place (.declareArray "int" "a" "2"), .command place (.poke "a" "1" "7"),
    .command place (.peek "x" "a" "1"),
    .method place ⟨"f", .int, ["n"]⟩ [] [.command place (.assign "f" "n + x")],
    .call place "f" ["x * 2"]]

/-- The stage of the run of these statements at which the method is entered. -/
def stockedCall : Stage Canvas :=
  ((Stage.start stocked ⟨.empty .singleSlot, [], { width := 640, height := 480 }, []⟩).steps
    { evalMode := .precedence, scopeMode := .singleSlot } 5).2

/-- Inside the call two scopes are held, with a variable each, and the store is typed. -/
theorem passesThrough_typed_stocked :
    (stockedCall.machine.store.scopes.held.map fun scope => scope.entries.map Prod.fst) =
        [["n"], ["x"]] ∧
      (stockedCall.machine.store.arrays.get? "a").map Cells.size = some 2 ∧
      stockedCall.machine.store.methods.map Method.name = ["f"] ∧
      stockedCall.machine.store.Typed := by
  have hleads : Leads { evalMode := .precedence, scopeMode := .singleSlot }
      (.start stocked ⟨.empty .singleSlot, [], ({ width := 640, height := 480 } : Canvas), []⟩)
      stockedCall :=
    ⟨_, path_steps _ 5 _⟩
  refine ⟨by decide +kernel, by decide +kernel, by decide +kernel, ?_⟩
  exact passesThrough_typed (.execute .new stocked _ hleads)

end Drawscript
