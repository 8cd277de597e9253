import Drawscript.Proofs.Store.Scopes
import Drawscript.Store.Basic

/-!
# Room for one kept scope

In single-slot mode at most one scope is kept beside the active one: entering a scope puts the
active one in the place of the kept one, and leaving a scope frees the place. Scopes that are so are
`Slotted`, and stay so whatever is done to the store (`Store.slotted_applyAll`). There is always an
active scope to look a variable up in, and one to leave.
-/

set_option autoImplicit false

namespace Drawscript

namespace Scopes

/-- In single-slot mode at most one scope is kept. -/
structure Slotted (scopes : Scopes) : Prop where
  mode : scopes.mode = .singleSlot
  kept : scopes.kept.length ≤ 1

/-- A store with a single slot has one level of variables or two. -/
theorem slotted_iff {scopes : Scopes} :
    scopes.Slotted ↔ scopes.mode = .singleSlot ∧ (scopes.depth = 1 ∨ scopes.depth = 2) := by
  constructor
  · rintro ⟨hmode, hkept⟩
    rw [depth]
    exact ⟨hmode, by omega⟩
  · rintro ⟨hmode, hdepth⟩
    rw [depth] at hdepth
    exact ⟨hmode, by omega⟩

namespace Slotted

variable {scopes : Scopes}

theorem activate (h : scopes.Slotted) (active : Scope) :
    Slotted { scopes with active := active } :=
  ⟨h.mode, h.kept⟩

/-- The scope that was active is the one that is kept. -/
theorem kept_enter (h : scopes.Slotted) (scope : Scope) :
    (scopes.enter scope).kept = [scopes.active] := by
  have hlength : scopes.kept.dropLast.length = 0 := by
    rw [List.length_dropLast]
    have := h.kept
    omega
  show scopes.keep = [scopes.active]
  rw [keep, h.mode]
  exact congrArg (List.cons _) (List.length_eq_zero_iff.1 hlength)

/-- Entering a call in a call overwrites the slot, and makes no third level. -/
theorem enter (h : scopes.Slotted) (scope : Scope) : (scopes.enter scope).Slotted :=
  ⟨h.mode, by rw [h.kept_enter]; exact Nat.le_refl 1⟩

/-- What is left is the active scope, also when none is kept that could take its place. -/
theorem left (h : scopes.Slotted) : scopes.leave.1 = some scopes.active := by
  cases hkept : scopes.kept with
  | nil => rw [leave, hkept, h.mode]
  | cons first kept => rw [leave_of_kept hkept]

/-- After leaving, no scope is kept. -/
theorem kept_leave (h : scopes.Slotted) : scopes.leave.2.kept = [] := by
  cases hkept : scopes.kept with
  | nil => rw [(leave_of_kept_nil hkept).1, hkept]
  | cons first kept =>
    have hlength := h.kept
    rw [hkept, List.length_cons] at hlength
    have hnone : kept.length = 0 := by omega
    rw [leave_of_kept hkept]
    exact List.length_eq_zero_iff.1 hnone

theorem leave (h : scopes.Slotted) : scopes.leave.2.Slotted := by
  refine ⟨?_, by rw [h.kept_leave]; exact Nat.zero_le 1⟩
  cases hkept : scopes.kept with
  | nil => rw [(leave_of_kept_nil hkept).1, h.mode]
  | cons first kept =>
    rw [leave_of_kept hkept]
    exact h.mode

end Slotted

end Scopes

namespace Store

/-! ## Operations -/

/-- What can be done to a store. -/
inductive Op where
  | set (name : String) (value : Value)
  | remove (name : String)
  | enter (scope : Scope)
  | leave
  | declareArray (name kind : String) (size : Int64)
  | poke (name : String) (index : Int64) (value : Value)
  | register (method : Method)
  | reset

/-- The store after an operation. One that is refused changes nothing. -/
def apply (store : Store) : Op → Store
  | .set name value => store.set name value
  | .remove name => store.remove name
  | .enter scope => store.enter scope
  | .leave => store.leave.2
  | .declareArray name kind size =>
    match store.declareArray name kind size with
    | .ok (_, after) => after
    | .error _ => store
  | .poke name index value =>
    match store.poke name index value with
    | .ok (_, after) => after
    | .error _ => store
  | .register method => store.register method
  | .reset => store.reset

/-- The store after operations, one after the other. -/
def applyAll (store : Store) (ops : List Op) : Store :=
  ops.foldl apply store

theorem scopes_declareArray {store after : Store} {name kind : String} {size : Int64}
    {cells : Cells} (h : store.declareArray name kind size = .ok (cells, after)) :
    after.scopes = store.scopes := by
  rw [declareArray] at h
  cases hkind : ElementKind.ofName? kind with
  | none => simp only [hkind, reduceCtorEq] at h
  | some kind =>
    simp only [hkind] at h
    split_ifs at h
    cases h
    rfl

theorem scopes_poke {store after : Store} {name : String} {index : Int64} {value element : Value}
    (h : store.poke name index value = .ok (element, after)) : after.scopes = store.scopes := by
  rw [poke] at h
  cases helement : store.element name index value with
  | error cause => simp only [helement, reduceCtorEq] at h
  | ok found =>
    simp only [helement] at h
    cases h
    rfl

/-- No operation takes a store with a single slot out of this mode or to a third level. -/
theorem slotted_apply {store : Store} (h : store.scopes.Slotted) (op : Op) :
    (store.apply op).scopes.Slotted := by
  cases op with
  | set name value => exact h.activate _
  | remove name => exact h.activate _
  | enter scope => exact h.enter scope
  | leave => exact h.leave
  | declareArray name kind size =>
    rw [apply]
    cases hdeclared : store.declareArray name kind size with
    | error e => exact h
    | ok result => exact (scopes_declareArray hdeclared).symm ▸ h
  | poke name index value =>
    rw [apply]
    cases hpoked : store.poke name index value with
    | error cause => exact h
    | ok result => exact (scopes_poke hpoked).symm ▸ h
  | register method => exact h
  | reset => exact ⟨h.mode, Nat.zero_le 1⟩

/-- Operations in any order leave at most one scope kept. -/
theorem slotted_applyAll {store : Store} (h : store.scopes.Slotted) (ops : List Op) :
    (store.applyAll ops).scopes.Slotted := by
  induction ops generalizing store with
  | nil => exact h
  | cons op rest ih => exact ih (slotted_apply h op)

end Store

end Drawscript
