import Drawscript.Store.Scopes
import Mathlib.Tactic

/-!
# The scopes held

The active scope and the kept ones are the scopes held. Entering a scope adds it to them and leaving
one takes it away, so a property of all scopes held (`Scopes.All`) is kept by both. Which scopes are
kept depends on the mode: `getElem?_keep` says where a scope is found after another was entered.
-/

set_option autoImplicit false

namespace Drawscript.Scopes

/-- The scopes held, the active one first. -/
def held (scopes : Scopes) : List Scope :=
  scopes.active :: scopes.kept

/-- A scope that is entered goes on top of those held. In single-slot mode only the one that was
active is sure to be kept. -/
theorem getElem?_keep {scopes : Scopes} {n : Nat} (h : scopes.mode = .stack ∨ n = 0) :
    scopes.keep[n]? = scopes.held[n]? := by
  unfold keep
  cases hmode : scopes.mode with
  | stack => rfl
  | singleSlot =>
    rw [hmode] at h
    obtain rfl : n = 0 := h.resolve_left ScopeMode.noConfusion
    rfl

theorem keep_subset_held (scopes : Scopes) : scopes.keep ⊆ scopes.held := by
  unfold keep held
  cases scopes.mode with
  | stack => exact List.Subset.refl _
  | singleSlot => exact List.cons_subset_cons _ (List.dropLast_subset _)

theorem leave_of_kept {scopes : Scopes} {first : Scope} {kept : List Scope}
    (h : scopes.kept = first :: kept) :
    scopes.leave = (some scopes.active, { scopes with active := first, kept := kept }) := by
  rw [leave, h]

/-- Without a kept scope, the active one stays. -/
theorem leave_of_kept_nil {scopes : Scopes} (h : scopes.kept = []) :
    scopes.leave.2 = scopes ∧ ∀ scope, scopes.leave.1 = some scope → scope = scopes.active := by
  rw [leave, h]
  cases scopes.mode with
  | stack => exact ⟨rfl, fun scope hscope => by cases hscope⟩
  | singleSlot => exact ⟨rfl, fun scope hscope => (Option.some.inj hscope).symm⟩

/-! ## Properties of all scopes held -/

/-- All scopes held have a property. -/
def All (P : Scope → Prop) (scopes : Scopes) : Prop :=
  ∀ scope ∈ scopes.held, P scope

namespace All

variable {P : Scope → Prop} {scopes : Scopes}

theorem active (h : scopes.All P) : P scopes.active :=
  h scopes.active List.mem_cons_self

/-- Another scope takes the place of the active one. -/
theorem activate (h : scopes.All P) {scope : Scope} (hscope : P scope) :
    All P { scopes with active := scope } := by
  intro scope' hscope'
  rcases List.mem_cons.1 hscope' with rfl | hkept
  · exact hscope
  · exact h scope' (List.mem_cons_of_mem _ hkept)

theorem enter (h : scopes.All P) {scope : Scope} (hscope : P scope) :
    (scopes.enter scope).All P := by
  intro scope' hscope'
  rcases List.mem_cons.1 hscope' with rfl | hkept
  · exact hscope
  · exact h scope' (scopes.keep_subset_held hkept)

theorem leave (h : scopes.All P) : scopes.leave.2.All P := by
  intro scope hscope
  cases hkept : scopes.kept with
  | nil =>
    rw [(leave_of_kept_nil hkept).1] at hscope
    exact h scope hscope
  | cons first kept =>
    -- the scope kept last becomes the active one, and the others stay
    rw [leave_of_kept hkept] at hscope
    refine h scope (List.mem_cons_of_mem _ ?_)
    rw [hkept]
    exact hscope

/-- The scope that is left was held. -/
theorem left (h : scopes.All P) {scope : Scope} (hleft : scopes.leave.1 = some scope) :
    P scope := by
  cases hkept : scopes.kept with
  | nil =>
    rw [(leave_of_kept_nil hkept).2 scope hleft]
    exact h.active
  | cons first kept =>
    rw [leave_of_kept hkept] at hleft
    cases hleft
    exact h.active

end All

end Drawscript.Scopes
