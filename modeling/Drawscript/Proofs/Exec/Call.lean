import Drawscript.Proofs.Machine.Query
import Drawscript.Proofs.Table

/-!
# What a call does

A call is either rejected, and then all that it does is to report why (`Rejects.call_eq`), or it
enters a method: the arguments are evaluated, the body runs with the parameters as its variables,
and the caller's variables come back (`Enters.call_eq`). One of the two is the case
(`rejects_or_enters`).
-/

set_option autoImplicit false

namespace Drawscript

open Machine

variable {σ : Type}

/-- The call of a name with arguments is rejected for a cause: no method answers to the name, the
number of arguments is wrong, or too many calls are running. -/
inductive Rejects (config : Config) (m : Machine σ) (name : String) (args : List String) :
    ResolutionError → Prop
  | unknown (hfound : m.store.method? name = none) :
      Rejects config m name args (.unknownMethod name)
  | arity {method : Method} (hfound : m.store.method? name = some method)
      (harity : method.header.params.length ≠ args.length) :
      Rejects config m name args
        (.arityMismatch method.name method.header.params.length args.length)
  | depth {method : Method} (hfound : m.store.method? name = some method)
      (harity : method.header.params.length = args.length)
      (hdepth : config.maxCallDepth ≤ m.frames.length) :
      Rejects config m name args (.callDepthExceeded method.name config.maxCallDepth)

/-- The call of a name with arguments enters a method. -/
structure Enters (config : Config) (m : Machine σ) (name : String) (args : List String)
    (method : Method) : Prop where
  found : m.store.method? name = some method
  arity : method.header.params.length = args.length
  depth : m.frames.length < config.maxCallDepth

/-- A call is rejected or enters a method. -/
theorem rejects_or_enters (config : Config) (m : Machine σ) (name : String) (args : List String) :
    (∃ cause, Rejects config m name args cause) ∨ ∃ method, Enters config m name args method := by
  cases hfound : m.store.method? name with
  | none => exact Or.inl ⟨_, .unknown hfound⟩
  | some method =>
    by_cases harity : method.header.params.length = args.length
    · by_cases hdepth : config.maxCallDepth ≤ m.frames.length
      · exact Or.inl ⟨_, .depth hfound harity hdepth⟩
      · exact Or.inr ⟨method, hfound, harity, Nat.lt_of_not_le hdepth⟩
    · exact Or.inl ⟨_, .arity hfound harity⟩

/-- The machine on which the body of a method runs. -/
def Machine.entered (config : Config) (place : Place) (name : String) (args : List String)
    (method : Method) (m : Machine σ) : Machine σ :=
  let bound := bindParams config place (method.header.params.zip args) {} m
  bound.2.enterCall method.name name bound.1

theorem entered_eq (config : Config) (place : Place) (name : String) (args : List String)
    (method : Method) (m : Machine σ) :
    ∃ scope notices, m.entered config place name args method =
      (m.sayAll place notices).enterCall method.name name scope := by
  obtain ⟨answer, hanswer⟩ :=
    isQuery_bindParams (σ := σ) config place (method.header.params.zip args) {}
  refine ⟨(answer m.store.scope).1, (answer m.store.scope).2, ?_⟩
  have hbound := hanswer m
  simp only at hbound
  simp only [entered, hbound]

/-- The store on which the body runs is that of the caller, with the scope of the parameters
entered. -/
theorem store_entered (config : Config) (place : Place) (name : String) (args : List String)
    (method : Method) (m : Machine σ) :
    (m.entered config place name args method).store =
      m.store.enter (bindParams config place (method.header.params.zip args) {} m).1 := by
  obtain ⟨answer, hanswer⟩ :=
    isQuery_bindParams (σ := σ) config place (method.header.params.zip args) {}
  have hbound := hanswer m
  simp only at hbound
  simp only [entered, enterCall, hbound, sayAll_store]

/-- Each parameter is bound to a number, whatever its argument is. -/
theorem all_bindParams {P : String → Value → Prop} (config : Config) (place : Place)
    {pairs : List (String × String)}
    (hpairs : ∀ pair ∈ pairs, ∀ value : Value, value.isNumber = true → P pair.1 value)
    {scope : Scope} (hscope : Table.All P scope) (m : Machine σ) :
    Table.All P (bindParams config place pairs scope m).1 := by
  induction pairs generalizing scope m with
  | nil => exact hscope
  | cons pair rest ih =>
    obtain ⟨hpair, hrest⟩ := List.forall_mem_cons.1 hpairs
    have hnumber := isNumber_evalNumber config.evalMode place pair.2 m
    rw [bindParams]
    exact ih hrest (hscope.insert (hpair _ hnumber)) _

theorem entered_congr {config config' : Config} (hmode : config'.evalMode = config.evalMode)
    (place : Place) (name : String) (args : List String) (method : Method) (m : Machine σ) :
    m.entered config' place name args method = m.entered config place name args method := by
  simp only [entered, bindParams_congr hmode]

/-! ## The end of a call -/

/-- The result of a call is read from the scope that is left. -/
theorem leaveCall_fst (m : Machine σ) (name : String) :
    (m.leaveCall name).1 =
      (m.store.scopes.leave.1.bind fun scope => scope.get? name).getD (.int 0) := rfl

/-- The scopes after a call are those taken back, with the result bound to the name. -/
theorem leaveCall_scopes (m : Machine σ) (name : String) :
    (m.leaveCall name).2.store.scopes = m.store.scopes.leave.2.set name (m.leaveCall name).1 := rfl

/-- The end of a call, from the end of the body. -/
def Outcome.leave (place : Place) (name : String) : Outcome σ → Outcome σ
  | .done m =>
    .done ((m.leaveCall name).2.note place
      (name ++ " returned " ++ (m.leaveCall name).1.display))
  | .stopped e m => .stopped e (m.leaveCall name).2

section

variable {config : Config} {m : Machine σ} {name : String} {args : List String}

theorem Rejects.call_eq {cause : ResolutionError} (h : Rejects config m name args cause)
    (runMethod : List Stmt → Machine σ → Outcome σ) (place : Place) :
    m.call config runMethod place name args = .done (m.report place (.resolution cause)) := by
  unfold Machine.call
  cases h with
  | unknown hfound => rw [hfound]
  | arity hfound harity =>
    rw [hfound]
    exact if_pos harity
  | depth hfound harity hdepth =>
    rw [hfound]
    exact (if_neg (not_not.2 harity)).trans (if_pos hdepth)

theorem Enters.call_eq {method : Method} (h : Enters config m name args method)
    (runMethod : List Stmt → Machine σ → Outcome σ) (place : Place) :
    m.call config runMethod place name args =
      (runMethod method.body (m.entered config place name args method)).leave place name := by
  unfold Machine.call
  rw [h.found]
  -- the checks of arity and depth come before the arguments are evaluated
  refine (if_neg (not_not.2 h.arity)).trans ((if_neg (Nat.not_le.2 h.depth)).trans ?_)
  unfold Machine.entered
  generalize bindParams config place (method.header.params.zip args) {} m = bound
  obtain ⟨scope, before⟩ := bound
  dsimp only
  cases runMethod method.body (before.enterCall method.name name scope) with
  | done after => rfl
  | stopped e after => rfl

/-- Whether a call is rejected depends on the methods and the number of running calls. -/
theorem Rejects.congr {m' : Machine σ} {cause : ResolutionError}
    (h : Rejects config m name args cause) (hmethods : m.store.methods = m'.store.methods)
    (hframes : m.frames.length = m'.frames.length) : Rejects config m' name args cause := by
  have hmethod : m'.store.method? name = m.store.method? name := by
    rw [Store.method?, Store.method?, hmethods]
  cases h with
  | unknown hfound => exact .unknown (hmethod.trans hfound)
  | arity hfound harity => exact .arity (hmethod.trans hfound) harity
  | depth hfound harity hdepth => exact .depth (hmethod.trans hfound) harity (hframes ▸ hdepth)

theorem Enters.congr {m' : Machine σ} {method : Method} (h : Enters config m name args method)
    (hmethods : m.store.methods = m'.store.methods)
    (hframes : m.frames.length = m'.frames.length) : Enters config m' name args method where
  found := by
    rw [Store.method?, ← hmethods]
    exact h.found
  arity := h.arity
  depth := hframes ▸ h.depth

end

end Drawscript
