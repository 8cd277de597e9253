import Drawscript.Canvas.Basic
import Drawscript.Proofs.Exec.RunLaw
import Drawscript.Proofs.Table

/-!
# Scopes and frames across a run

A run gives back the running calls as it found them, and in stack mode also the kept scopes
(`runBody_keeps`). So a call in stack mode can change its caller's variables in one place only: the
variable under the name by which the method was called (`Enters.scopes_call`).
-/

set_option autoImplicit false

namespace Drawscript

open Machine

variable {σ : Type}

/-- What a run does not change: how scopes are kept, the running calls, and in stack mode the kept
scopes. -/
structure Keeps (m m' : Machine σ) : Prop where
  mode : m'.store.scopes.mode = m.store.scopes.mode
  frames : m'.frames = m.frames
  kept : m.store.scopes.mode = .stack → m'.store.scopes.kept = m.store.scopes.kept

namespace Keeps

theorem refl (m : Machine σ) : Keeps m m :=
  ⟨rfl, rfl, fun _ => rfl⟩

theorem trans {m₁ m₂ m₃ : Machine σ} (h : Keeps m₁ m₂) (h' : Keeps m₂ m₃) : Keeps m₁ m₃ where
  mode := h'.mode.trans h.mode
  frames := h'.frames.trans h.frames
  kept hstack := (h'.kept (h.mode.trans hstack)).trans (h.kept hstack)

/-- A body that keeps the scopes and frames which its call has set up hands the caller's scopes
back, with the result bound to the name of the call. -/
theorem scopes_leaveCall {m m' : Machine σ} {method name : String} {scope : Scope}
    (h : Keeps (m.enterCall method name scope) m') (hstack : m.store.scopes.mode = .stack) :
    (m'.leaveCall name).2.store.scopes = m.store.scopes.set name (m'.leaveCall name).1 := by
  have hmode : m'.store.scopes.mode = .stack := h.mode.trans hstack
  -- the caller's scope lies on top of the kept ones, where leaving the call finds it
  have hkept : m'.store.scopes.kept = m.store.scopes.active :: m.store.scopes.kept := by
    rw [h.kept hstack]
    simp only [enterCall, Store.enter, Scopes.enter, Scopes.keep, hstack]
  simp only [leaveCall, Store.leave, Store.set, Scopes.set, Scopes.leave, hkept, hmode, hstack]

/-- Leaving a call never changes how scopes are kept. -/
theorem mode_leaveCall (m : Machine σ) (name : String) :
    (m.leaveCall name).2.store.scopes.mode = m.store.scopes.mode := by
  simp only [leaveCall, Store.leave, Store.set, Scopes.set, Scopes.leave]
  cases m.store.scopes.kept with
  | cons scope kept => rfl
  | nil =>
    cases hmode : m.store.scopes.mode with
    | stack => exact hmode
    | singleSlot => exact hmode

theorem leaveCall {m m' : Machine σ} {method name : String} {scope : Scope}
    (h : Keeps (m.enterCall method name scope) m') : Keeps m (m'.leaveCall name).2 where
  mode := (mode_leaveCall m' name).trans h.mode
  frames := by
    have hframes : (m'.leaveCall name).2.frames = m'.frames.tail := rfl
    rw [hframes, h.frames]
    rfl
  kept hstack := by
    rw [h.scopes_leaveCall hstack]
    rfl

end Keeps

theorem runLaw_keeps [Surface σ] :
    RunLaw fun (m : Machine σ) (o : Outcome σ) => Keeps m o.machine where
  done m := Keeps.refl m
  seq h h' := Keeps.trans h h'
  say m _ _ := ⟨rfl, rfl, fun _ => rfl⟩
  set m _ _ := ⟨rfl, rfl, fun _ => rfl⟩
  remove m _ := ⟨rfl, rfl, fun _ => rfl⟩
  setArrays m _ := ⟨rfl, rfl, fun _ => rfl⟩
  register m _ := ⟨rfl, rfl, fun _ => rfl⟩
  perform m request := by
    unfold Machine.perform
    generalize Surface.perform request m.surface = answer
    obtain ⟨refusal, surface⟩ := answer
    cases refusal with
    | none => exact ⟨rfl, rfl, fun _ => rfl⟩
    | some e => exact ⟨rfl, rfl, fun _ => rfl⟩
  finish _ _ _ h := Keeps.leaveCall h
  abort _ _ _ h := Keeps.leaveCall h

theorem runBody_keeps [Surface σ] (config : Config) (room : Nat) (stmts : List Stmt)
    (m : Machine σ) : Keeps m (runBody config room stmts m).machine :=
  runLaw_keeps.runBody config room stmts m

/-! ## Calls -/

section

variable [Surface σ] {config : Config} {m : Machine σ} {name : String} {args : List String}

/-- A rejected call leaves the store as it was. -/
theorem Rejects.store_call {cause : ResolutionError} (h : Rejects config m name args cause)
    (room : Nat) (place : Place) :
    (runBody config room [.call place name args] m).machine.store = m.store := by
  rw [runBody_eq_runAll, runAll_singleton, Stmt.run, h.call_eq]
  rfl

/-- A call that enters a method in stack mode gives its caller's scopes back, with the result bound
to the name of the call, also if the surface stops it. -/
theorem Enters.scopes_call {method : Method} (h : Enters config m name args method)
    (hstack : m.store.scopes.mode = .stack) (room : Nat) (place : Place) :
    ∃ value, (runBody config room [.call place name args] m).machine.store.scopes =
      m.store.scopes.set name value := by
  obtain ⟨scope, notices, hentered⟩ := entered_eq config place name args method m
  have hkeeps := runLaw_keeps.runMethod config room method.body
    (m.entered config place name args method)
  rw [runBody_eq_runAll, runAll_singleton, Stmt.run, h.call_eq]
  generalize runMethod config room method.body (m.entered config place name args method) = ending
    at hkeeps ⊢
  rw [hentered] at hkeeps
  -- a body that the surface has stopped hands the scopes back as well
  cases ending with
  | done after => exact ⟨_, hkeeps.scopes_leaveCall hstack⟩
  | stopped e after => exact ⟨_, hkeeps.scopes_leaveCall hstack⟩

end

/-- In stack mode a run leaves the number of scopes, the running calls and every kept scope as they
were, whether it is done or stopped. A call on its own leaves the active scope as it was but for the
variable under the name of the call, and the whole store if the call is rejected. -/
theorem runBody_scopes_of_stack [Surface σ] (config : Config) (room : Nat) (stmts : List Stmt)
    (m : Machine σ) (hstack : m.store.scopes.mode = .stack) :
    let after := (runBody config room stmts m).machine
    (after.store.scopes.depth = m.store.scopes.depth ∧ after.frames = m.frames ∧
      after.store.scopes.kept = m.store.scopes.kept) ∧
    ∀ place name args, stmts = [.call place name args] →
      (∀ method, Enters config m name args method →
        ∃ value, after.store.scopes.active = m.store.scopes.active.insert name value) ∧
      (∀ other, other ≠ name → after.store.get? other = m.store.get? other) ∧
      (∀ cause, Rejects config m name args cause → after.store = m.store) := by
  intro after
  have hkeeps : Keeps m after := runBody_keeps config room stmts m
  have hkept := hkeeps.kept hstack
  refine ⟨⟨?_, hkeeps.frames, hkept⟩, ?_⟩
  · rw [Scopes.depth, Scopes.depth, hkept]
  · rintro place name args rfl
    refine ⟨fun method henters => ?_, fun other hother => ?_, fun cause hrejects => ?_⟩
    · obtain ⟨value, hscopes⟩ := henters.scopes_call hstack room place
      exact ⟨value, congrArg Scopes.active hscopes⟩
    · -- any other variable: a rejected call sets none, and an entered one sets `name` alone
      rcases rejects_or_enters config m name args with ⟨cause, hrejects⟩ | ⟨method, henters⟩
      · exact congrArg (fun store => store.get? other) (hrejects.store_call room place)
      · obtain ⟨value, hscopes⟩ := henters.scopes_call hstack room place
        calc after.store.get? other
            = (m.store.scopes.set name value).get? other :=
              congrArg (fun scopes => scopes.get? other) hscopes
          _ = m.store.get? other := Table.get?_insert_of_ne m.store.scopes.active value hother
    · exact hrejects.store_call room place

/-- A machine in the middle of a call, with a method that calls itself. -/
def midCall : Machine Canvas where
  store :=
    { scopes := { mode := .stack, active := ⟨[("n", .int 2)]⟩, kept := [⟨[("x", .int 7)]⟩] }
      methods := [⟨⟨"f", .int, ["n"]⟩, [], [.call ⟨2, ⟨19, 27⟩⟩ "f" ["n"]]⟩] }
  frames := [⟨"f", "f"⟩]
  surface := { width := 640, height := 480 }

theorem enters_midCall :
    Enters {} midCall "F" ["n"]
      ⟨⟨"f", .int, ["n"]⟩, [], [.call ⟨2, ⟨19, 27⟩⟩ "f" ["n"]]⟩ :=
  ⟨by rfl, rfl, by decide⟩

/-- Inside a call, the method is called once more by a name in another case. -/
theorem runBody_scopes_midCall :
    midCall.store.scopes.mode = .stack ∧
      (runBody {} 256 [.call ⟨4, ⟨30, 38⟩⟩ "F" ["n"]] midCall).machine.store.scopes.depth = 2 ∧
      (runBody {} 256 [.call ⟨4, ⟨30, 38⟩⟩ "F" ["n"]] midCall).machine.frames = [⟨"f", "f"⟩] ∧
      ∃ value,
        (runBody {} 256 [.call ⟨4, ⟨30, 38⟩⟩ "F" ["n"]] midCall).machine.store.scopes.active =
          (⟨[("n", .int 2)]⟩ : Scope).insert "F" value :=
  have hrun := runBody_scopes_of_stack {} 256 [.call ⟨4, ⟨30, 38⟩⟩ "F" ["n"]] midCall rfl
  ⟨rfl, hrun.1.1, hrun.1.2.1, (hrun.2 _ _ _ rfl).1 _ enters_midCall⟩

end Drawscript
