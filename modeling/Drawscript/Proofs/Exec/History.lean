import Drawscript.Interpreter
import Drawscript.Proofs.Exec.Steps

/-!
# The history of an interpreter

An interpreter is used again and again: it runs the programs of source texts, runs statements on the
store that it has, and forgets everything, in any order and each time with a surface of any kind.
The stores that it passes through on the way are the ones that it has between two uses, and the ones
at the stages of each run (`Interpreter.PassesThrough`). What holds of an empty store and is kept by
every step holds of all of them (`PassesThrough.invariant`).
-/

set_option autoImplicit false

namespace Drawscript

namespace Interpreter

/-- The interpreter that a configuration starts with, after any number of uses. -/
inductive Used (config : Config) : Interpreter → Prop
  | new : Used config (.new config)
  | run {σ : Type} [Surface σ] {interpreter : Interpreter} (h : Used config interpreter)
      (source : String) (surface : σ) :
      Used config (interpreter.run source surface).interpreter
  | execute {σ : Type} [Surface σ] {interpreter : Interpreter} (h : Used config interpreter)
      (stmts : List Stmt) (surface : σ) :
      Used config (interpreter.execute stmts surface).interpreter
  | reset {interpreter : Interpreter} (h : Used config interpreter) :
      Used config interpreter.reset

/-- The stores that an interpreter has in the course of its uses: between two of them, and at every
stage of a run. -/
inductive PassesThrough (config : Config) : Store → Prop
  | between {interpreter : Interpreter} (h : Used config interpreter) :
      PassesThrough config interpreter.store
  | run {σ : Type} [Surface σ] {interpreter : Interpreter} (h : Used config interpreter)
      (source : String) (surface : σ) {s : Stage σ}
      (hs : Leads interpreter.config
        (.start (Parsed.ofSource source).stmts
          { store := interpreter.reset.store, surface := surface }) s) :
      PassesThrough config s.machine.store
  | execute {σ : Type} [Surface σ] {interpreter : Interpreter} (h : Used config interpreter)
      (stmts : List Stmt) (surface : σ) {s : Stage σ}
      (hs : Leads interpreter.config
        (.start stmts { store := interpreter.store, surface := surface }) s) :
      PassesThrough config s.machine.store

/-! ## Invariants of the store -/

section

variable {σ : Type} [Surface σ] {P : Store → Prop}

/-- What every step keeps holds of the store at all stages that the steps lead to. -/
theorem store_of_leads {config : Config}
    (hstep : ∀ s s' : Stage σ, P s.machine.store → s.next? config = some s' → P s'.machine.store)
    {s s' : Stage σ} (h : Leads config s s') (hs : P s.machine.store) : P s'.machine.store := by
  obtain ⟨visited, hpath⟩ := h
  exact (hpath.invariant (P := fun s => P s.machine.store) hstep hs).2

/-- The end of running statements is the last stage of the run. -/
theorem leads_outcome (interpreter : Interpreter) (stmts : List Stmt) (surface : σ) :
    Leads interpreter.config (.start stmts { store := interpreter.store, surface := surface })
      ⟨[], interpreter.outcome stmts surface⟩ :=
  leads_runBody interpreter.config interpreter.config.maxCallDepth stmts _ []
    (Nat.le_add_right _ _)

end

section

variable {P : Store → Prop} (hempty : ∀ mode, P (.empty mode))
  (hstep : ∀ {σ : Type} [Surface σ] (config : Config) (s s' : Stage σ),
    P s.machine.store → s.next? config = some s' → P s'.machine.store)

include hempty hstep

theorem Used.invariant {config : Config} {interpreter : Interpreter}
    (h : Used config interpreter) : P interpreter.store := by
  induction h with
  | new => exact hempty config.scopeMode
  | run _ source surface ih =>
    exact store_of_leads (hstep _) (leads_outcome _ (Parsed.ofSource source).stmts surface)
      (hempty _)
  | execute _ stmts surface ih =>
    exact store_of_leads (hstep _) (leads_outcome _ stmts surface) ih
  | reset _ ih => exact hempty _

/-- What holds of an empty store and is kept by every step holds of all stores that an interpreter
passes through. -/
theorem PassesThrough.invariant {config : Config} {store : Store}
    (h : PassesThrough config store) : P store := by
  cases h with
  | between h => exact h.invariant hempty hstep
  | run h source surface hs =>
    -- a run starts from an empty store, whatever the interpreter was used for
    exact store_of_leads (hstep _) hs (hempty _)
  | execute h stmts surface hs =>
    exact store_of_leads (hstep _) hs (h.invariant hempty hstep)

end

end Interpreter

end Drawscript
