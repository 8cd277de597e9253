import Drawscript.Canvas.Basic
import Drawscript.Proofs.Exec.Lockstep
import Drawscript.Proofs.Table

/-!
# Methods do not see their caller's variables

While a body runs, the scopes that were held before the call can be told apart by nobody. Two
machines are alike up to `n` if they agree on everything but the scopes kept below the last `n` and
on what happened before; a call made from alike machines works one level deeper and comes back. So
the bodies of one method, called from machines with whatever variables, run in lockstep
(`lockstep_alike`), and the two calls end in the same way with the same result
(`call_eq_of_args`).

Both modes are covered at once. In single-slot mode a nested call may lose the scope of an outer
one, but which scopes are lost depends on their number alone.
-/

set_option autoImplicit false

namespace Drawscript

open Machine

variable {σ : Type}

namespace Scopes

/-- The scopes agree but for those kept beyond the last `n`, of which the numbers agree. -/
structure Alike (n : Nat) (s₁ s₂ : Scopes) : Prop where
  mode : s₁.mode = s₂.mode
  active : s₁.active = s₂.active
  kept : s₁.kept.take n = s₂.kept.take n
  length : s₁.kept.length = s₂.kept.length

theorem length_keep {s₁ s₂ : Scopes} (hmode : s₁.mode = s₂.mode)
    (hlength : s₁.kept.length = s₂.kept.length) : s₁.keep.length = s₂.keep.length := by
  unfold keep
  rw [hmode]
  cases s₂.mode with
  | stack => rw [List.length_cons, List.length_cons, hlength]
  | singleSlot => simp only [List.length_cons, List.length_dropLast, hlength]

namespace Alike

variable {n : Nat} {s₁ s₂ : Scopes}

theorem set (h : Alike n s₁ s₂) (name : String) (value : Value) :
    Alike n (s₁.set name value) (s₂.set name value) :=
  ⟨h.mode, congrArg (fun scope => scope.insert name value) h.active, h.kept, h.length⟩

theorem remove (h : Alike n s₁ s₂) (name : String) : Alike n (s₁.remove name) (s₂.remove name) :=
  ⟨h.mode, congrArg (fun scope => scope.erase name) h.active, h.kept, h.length⟩

/-- Entering a scope puts the active one before the last scopes kept. If one is lost for it, it is
the first kept, on both sides. -/
theorem enter (h : Alike n s₁ s₂) (scope : Scope) :
    Alike (n + 1) (s₁.enter scope) (s₂.enter scope) where
  mode := h.mode
  active := rfl
  kept := by
    show s₁.keep.take (n + 1) = s₂.keep.take (n + 1)
    unfold keep
    rw [h.mode, h.active]
    cases s₂.mode with
    | stack => rw [List.take_succ_cons, List.take_succ_cons, h.kept]
    | singleSlot =>
      -- which of the last `n` survive the loss depends on how many are kept
      have htake (kept : List Scope) :
          kept.dropLast.take n = (kept.take n).take (kept.length - 1) := by
        rw [List.dropLast_eq_take, List.take_take, List.take_take, Nat.min_comm]
      rw [List.take_succ_cons, List.take_succ_cons, htake, htake, h.kept, h.length]
  length := length_keep h.mode h.length

/-- The numbers of kept scopes agree, so that both sides take one back or none. -/
theorem leave_fst (h : Alike n s₁ s₂) : s₁.leave.1 = s₂.leave.1 := by
  have hlength := h.length
  unfold Scopes.leave
  rcases hkept₁ : s₁.kept with _ | ⟨scope₁, rest₁⟩ <;>
    rcases hkept₂ : s₂.kept with _ | ⟨scope₂, rest₂⟩ <;>
    rw [hkept₁, hkept₂] at hlength
  · dsimp only
    rw [h.mode]
    cases s₂.mode with
    | stack => rfl
    | singleSlot => exact congrArg some h.active
  · cases hlength
  · cases hlength
  · exact congrArg some h.active

theorem leave (h : Alike (n + 1) s₁ s₂) : Alike n s₁.leave.2 s₂.leave.2 := by
  have hkept := h.kept
  have hlength := h.length
  unfold Scopes.leave
  rcases hkept₁ : s₁.kept with _ | ⟨scope₁, rest₁⟩ <;>
    rcases hkept₂ : s₂.kept with _ | ⟨scope₂, rest₂⟩ <;>
    rw [hkept₁, hkept₂] at hlength
  · -- nothing is kept, so nothing is taken back
    have hstay : Alike n s₁ s₂ := ⟨h.mode, h.active, by rw [hkept₁, hkept₂], h.length⟩
    dsimp only
    rw [h.mode]
    cases s₂.mode with
    | stack => exact hstay
    | singleSlot => exact hstay
  · cases hlength
  · cases hlength
  · rw [hkept₁, hkept₂, List.take_succ_cons, List.take_succ_cons, List.cons.injEq] at hkept
    exact ⟨h.mode, hkept.1, hkept.2, Nat.succ.inj hlength⟩

end Alike

end Scopes

/-- The machines agree but for the kept scopes beyond the last `n`, and for the events that lie in
the past. -/
structure Alike (past₁ past₂ : List Event) (n : Nat) (m₁ m₂ : Machine σ) : Prop where
  scopes : m₁.store.scopes.Alike n m₂.store.scopes
  arrays : m₁.store.arrays = m₂.store.arrays
  methods : m₁.store.methods = m₂.store.methods
  frames : m₁.frames = m₂.frames
  surface : m₁.surface = m₂.surface
  events : ∃ news, m₁.events = news ++ past₁ ∧ m₂.events = news ++ past₂

theorem Alike.event {past₁ past₂ : List Event} {n : Nat} {m₁ m₂ : Machine σ}
    (h : Alike past₁ past₂ n m₁ m₂) (event : Event) :
    ∃ news, event :: m₁.events = news ++ past₁ ∧ event :: m₂.events = news ++ past₂ := by
  obtain ⟨news, h₁, h₂⟩ := h.events
  exact ⟨event :: news, congrArg (event :: ·) h₁, congrArg (event :: ·) h₂⟩

/-- The result of a call depends on the scope of the method alone. -/
theorem Alike.result {past₁ past₂ : List Event} {n : Nat} {m₁ m₂ : Machine σ}
    (h : Alike past₁ past₂ n m₁ m₂) (name : String) :
    (m₁.leaveCall name).1 = (m₂.leaveCall name).1 := by
  rw [leaveCall_fst, leaveCall_fst, h.scopes.leave_fst]

/-- Alike machines are taken through the same steps. -/
theorem lockstep_alike [Surface σ] (config : Config) (past₁ past₂ : List Event) :
    Lockstep config (Alike past₁ past₂ : Nat → Machine σ → Machine σ → Prop) where
  view h := by
    unfold Machine.view Store.scope
    rw [h.scopes.active, h.arrays, h.frames]
  methods h := h.methods
  frames h := congrArg List.length h.frames
  say _ _ h := ⟨h.scopes, h.arrays, h.methods, h.frames, h.surface, h.event _⟩
  set name value h :=
    ⟨h.scopes.set name value, h.arrays, h.methods, h.frames, h.surface, h.events⟩
  remove name h := ⟨h.scopes.remove name, h.arrays, h.methods, h.frames, h.surface, h.events⟩
  setArrays arrays h := ⟨h.scopes, rfl, h.methods, h.frames, h.surface, h.events⟩
  register method h :=
    ⟨h.scopes, h.arrays, congrArg (Methods.register method) h.methods, h.frames, h.surface,
      h.events⟩
  perform request h := by
    unfold Machine.perform
    rw [h.surface]
    rcases Surface.perform request _ with ⟨_ | e, surface⟩
    · exact .done ⟨h.scopes, h.arrays, h.methods, h.frames, rfl, h.event _⟩
    · exact .stopped e ⟨h.scopes, h.arrays, h.methods, h.frames, rfl, h.event _⟩
  enter method name scope _ h :=
    ⟨h.scopes.enter scope, h.arrays, h.methods, congrArg (List.cons _) h.frames, h.surface,
      h.events⟩
  leave name h := by
    have hresult := h.result name
    refine ⟨hresult, ?_, h.arrays, h.methods, congrArg List.tail h.frames, h.surface, h.events⟩
    rw [leaveCall_scopes, leaveCall_scopes, hresult]
    exact h.scopes.leave.set name _

/-! ## Calls -/

/-- Parameters are bound to the same values, with the same reports, if the arguments have the same
values and errors. -/
theorem bindParams_eq_of_args (config : Config) (place : Place) (pairs : List (String × String))
    (scope : Scope) (m₁ m₂ : Machine σ)
    (hargs : ∀ pair ∈ pairs, numberOf config.evalMode m₁.store.scope pair.2.toList =
      numberOf config.evalMode m₂.store.scope pair.2.toList) :
    ∃ bound notices, bindParams config place pairs scope m₁ = (bound, m₁.sayAll place notices) ∧
      bindParams config place pairs scope m₂ = (bound, m₂.sayAll place notices) := by
  induction pairs generalizing scope m₁ m₂ with
  | nil => exact ⟨scope, [], rfl, rfl⟩
  | cons pair rest ih =>
    obtain ⟨param, arg⟩ := pair
    have harg := hargs (param, arg) List.mem_cons_self
    rw [bindParams, bindParams, evalNumber_eq, evalNumber_eq, harg]
    generalize numberOf config.evalMode m₂.store.scope arg.toList = yielded
    obtain ⟨value, errors⟩ := yielded
    simp only [reportAll_eq_sayAll]
    -- reports leave the scope as it is, so that the rest is evaluated in the scopes of `hargs`
    obtain ⟨bound, notices, h₁, h₂⟩ := ih (scope.insert param value) (m₁.sayAll place _)
      (m₂.sayAll place _) fun pair hpair => hargs pair (List.mem_cons_of_mem _ hpair)
    exact ⟨bound, _, h₁.trans (by rw [sayAll_append]), h₂.trans (by rw [sayAll_append])⟩

/-- Two steps have the same effect outside the variables: they are refused for the same reason or
not at all, they report and request the same things, and they leave the same surface, arrays and
methods. -/
structure SameEffect (m₁ m₂ : Machine σ) (o₁ o₂ : Outcome σ) : Prop where
  refusal : o₁.refusal? = o₂.refusal?
  events : ∃ news, o₁.machine.events = news ++ m₁.events ∧ o₂.machine.events = news ++ m₂.events
  surface : o₁.machine.surface = o₂.machine.surface
  arrays : o₁.machine.store.arrays = o₂.machine.store.arrays
  methods : o₁.machine.store.methods = o₂.machine.store.methods

/-- A call that ends alike in the method has the same effect and binds the same result. -/
theorem Outcome.Rel.leave_alike {n : Nat} {m₁ m₂ : Machine σ} {o₁ o₂ : Outcome σ}
    (h : Outcome.Rel (Alike m₁.events m₂.events n) o₁ o₂) (place : Place) (name : String) :
    SameEffect m₁ m₂ (o₁.leave place name) (o₂.leave place name) ∧
      ∃ value, (o₁.leave place name).machine.store.get? name = some value ∧
        (o₂.leave place name).machine.store.get? name = some value := by
  cases h with
  | @done after₁ after₂ h =>
    have hresult := h.result name
    refine ⟨⟨rfl, ?_, h.surface, h.arrays, h.methods⟩, (after₁.leaveCall name).1, ?_, ?_⟩
    · unfold Outcome.leave
      dsimp only
      rw [hresult]
      exact h.event _
    · exact Table.get?_insert_self _ name _
    · rw [hresult]
      exact Table.get?_insert_self _ name _
  | @stopped after₁ after₂ e h =>
    refine ⟨⟨rfl, h.events, h.surface, h.arrays, h.methods⟩, (after₁.leaveCall name).1, ?_, ?_⟩
    · exact Table.get?_insert_self _ name _
    · rw [h.result name]
      exact Table.get?_insert_self _ name _

/-- The bodies of a method called with the same arguments start alike. -/
theorem alike_entered (config : Config) (place : Place) (name : String) (args : List String)
    (method : Method) (m₁ m₂ : Machine σ) (hmode : m₁.store.scopes.mode = m₂.store.scopes.mode)
    (hdepth : m₁.store.scopes.depth = m₂.store.scopes.depth) (hframes : m₁.frames = m₂.frames)
    (harrays : m₁.store.arrays = m₂.store.arrays) (hmethods : m₁.store.methods = m₂.store.methods)
    (hsurface : m₁.surface = m₂.surface)
    (hargs : ∀ arg ∈ args, numberOf config.evalMode m₁.store.scope arg.toList =
      numberOf config.evalMode m₂.store.scope arg.toList) :
    Alike m₁.events m₂.events 0 (m₁.entered config place name args method)
      (m₂.entered config place name args method) := by
  obtain ⟨scope, notices, hbound₁, hbound₂⟩ :=
    bindParams_eq_of_args config place (method.header.params.zip args) {} m₁ m₂
      fun pair hpair => hargs pair.2 (List.of_mem_zip hpair).2
  unfold Machine.entered
  rw [hbound₁, hbound₂]
  refine ⟨⟨hmode, rfl, rfl, ?_⟩, harrays, hmethods, congrArg (List.cons _) hframes, hsurface,
    _, rfl, rfl⟩
  exact Scopes.length_keep hmode (Nat.succ.inj hdepth)

/-- A call with the same arguments, made from two machines that differ in nothing but the contents
of their scopes, has the same effect, and binds the same value to its name unless it is rejected, in
which case it leaves the store of either machine as it was. -/
theorem call_eq_of_args [Surface σ] (config : Config) (room : Nat) (place : Place) (name : String)
    (args : List String) (m₁ m₂ : Machine σ)
    (hmode : m₁.store.scopes.mode = m₂.store.scopes.mode)
    (hdepth : m₁.store.scopes.depth = m₂.store.scopes.depth) (hframes : m₁.frames = m₂.frames)
    (harrays : m₁.store.arrays = m₂.store.arrays) (hmethods : m₁.store.methods = m₂.store.methods)
    (hsurface : m₁.surface = m₂.surface)
    (hargs : ∀ arg ∈ args, numberOf config.evalMode m₁.store.scope arg.toList =
      numberOf config.evalMode m₂.store.scope arg.toList) :
    let o₁ := m₁.call config (runMethod config room) place name args
    let o₂ := m₂.call config (runMethod config room) place name args
    SameEffect m₁ m₂ o₁ o₂ ∧
      (∀ method, Enters config m₁ name args method →
        ∃ value, o₁.machine.store.get? name = some value ∧
          o₂.machine.store.get? name = some value) ∧
      (∀ cause, Rejects config m₁ name args cause →
        o₁.machine.store = m₁.store ∧ o₂.machine.store = m₂.store) := by
  intro o₁ o₂
  have hrunning := congrArg List.length hframes
  have hrejected : ∀ cause, Rejects config m₁ name args cause →
      o₁ = .done (m₁.report place (.resolution cause)) ∧
        o₂ = .done (m₂.report place (.resolution cause)) := fun cause h =>
    ⟨h.call_eq _ place, (h.congr hmethods hrunning).call_eq _ place⟩
  have hentered : ∀ method, Enters config m₁ name args method →
      SameEffect m₁ m₂ o₁ o₂ ∧ ∃ value, o₁.machine.store.get? name = some value ∧
        o₂.machine.store.get? name = some value := by
    intro method h
    have hstart := alike_entered config place name args method m₁ m₂ hmode hdepth hframes harrays
      hmethods hsurface hargs
    -- the scopes of the callers lie below level 0, out of reach of the body
    have hbody :=
      (lockstep_alike config m₁.events m₂.events).runMethod room 0 method.body _ _ hstart
    have hleave := hbody.leave_alike place name
    rw [← h.call_eq, ← (h.congr hmethods hrunning).call_eq] at hleave
    exact hleave
  refine ⟨?_, fun method h => (hentered method h).2, fun cause h => ?_⟩
  · rcases rejects_or_enters config m₁ name args with ⟨cause, h⟩ | ⟨method, h⟩
    · obtain ⟨h₁, h₂⟩ := hrejected cause h
      rw [h₁, h₂]
      exact ⟨rfl, ⟨[_], rfl, rfl⟩, hsurface, harrays, hmethods⟩
    · exact (hentered method h).1
  · obtain ⟨h₁, h₂⟩ := hrejected cause h
    rw [h₁, h₂]
    exact ⟨rfl, rfl⟩

/-- A machine with the given variables, one scope kept, and a method that draws and answers. -/
def caller (active kept : Scope) : Machine Canvas where
  store :=
    { scopes := { mode := .singleSlot, active := active, kept := [kept] }
      methods := [⟨⟨"f", .int, ["n"]⟩, [], [.command ⟨2, ⟨13, 21⟩⟩ (.draw .circle "n"),
        .command ⟨3, ⟨22, 29⟩⟩ (.assign "f" "n*n")]⟩] }
  surface := { width := 640, height := 480 }

/-- A caller with a variable and one without call the method with `2 + 1`. -/
theorem call_eq_of_args_caller :
    ∃ value,
      ((caller ⟨[("x", .int 7)]⟩ ⟨[("n", .int 1)]⟩).call {} (runMethod {} 256)
        ⟨5, ⟨41, 53⟩⟩ "f" ["2 + 1"]).machine.store.get? "f" = some value ∧
      ((caller {} {}).call {} (runMethod {} 256)
        ⟨5, ⟨41, 53⟩⟩ "f" ["2 + 1"]).machine.store.get? "f" = some value := by
  have harg : substitute ⟨[("x", .int 7)]⟩ "2 + 1".toList = substitute {} "2 + 1".toList := by
    simp [substitute, replaceWord, replaceFrom]
  refine (call_eq_of_args {} 256 ⟨5, ⟨41, 53⟩⟩ "f" ["2 + 1"] (caller ⟨[("x", .int 7)]⟩
    ⟨[("n", .int 1)]⟩) (caller {} {}) rfl rfl rfl rfl rfl rfl ?_).2.1 _ ⟨rfl, rfl, by decide⟩
  rw [List.forall_mem_singleton]
  have htrim : Text.trim "2 + 1".toList = "2 + 1".toList := by decide
  have hunquote : Text.unquote? "2 + 1".toList = none := by decide
  simp only [numberOf, Condition.valueOf, evaluate, htrim, hunquote, Single.evaluate, caller,
    Store.scope, harg]

end Drawscript
