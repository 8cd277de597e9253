import Drawscript.Proofs.Exec.Limits
import Drawscript.Proofs.Exec.Lockstep
import Drawscript.Proofs.Exec.Steps
import Drawscript.Proofs.Store.Methods

/-!
# Calls that do not nest

With room for one kept scope a call can be made, but no call from inside it. As long as no call
starts inside another one, the one kept scope is all that is needed, and single-slot mode does what
stack mode does (`run_singleSlot_eq_stack`). There are two reasons why calls may not nest. The limit
may allow one running call only; then the two modes go in lockstep (`lockstep_twin`). Or no method
of the program may have a call in its body; then no more than one call is ever running, as an
invariant of the stages of the run shows (`Stage.Shallow`), and the limit of one call would change
nothing.
-/

set_option autoImplicit false

namespace Drawscript

open Machine

variable {σ : Type}

/-! ## Two modes in lockstep -/

/-- The machine with its scopes kept in another mode. -/
def Machine.inMode (mode : ScopeMode) (m : Machine σ) : Machine σ :=
  { m with store := { m.store with scopes := { m.store.scopes with mode := mode } } }

/-- Machines that differ in their mode alone, the second in stack mode and with a kept scope for
each of its `n` running calls. -/
structure Twin (n : Nat) (m₁ m₂ : Machine σ) : Prop where
  eq : m₁ = m₂.inMode .singleSlot
  stack : m₂.store.scopes.mode = .stack
  kept : m₂.store.scopes.kept.length = n
  frames : m₂.frames.length = n

theorem Twin.agree {n : Nat} {m₁ m₂ : Machine σ} (h : Twin n m₁ m₂) :
    m₁.diagnostics = m₂.diagnostics ∧ m₁.surface = m₂.surface ∧ m₁.store.scope = m₂.store.scope ∧
      m₁.store.arrays = m₂.store.arrays ∧ m₁.store.methods = m₂.store.methods ∧
      m₁.store.scopes.depth = m₂.store.scopes.depth := by
  obtain ⟨rfl, -, -, -⟩ := h
  exact ⟨rfl, rfl, rfl, rfl, rfl, rfl⟩

/-- Without a running call, to keep a scope is the same in both modes. -/
theorem Twin.enter {n : Nat} {m₁ m₂ : Machine σ} (h : Twin n m₁ m₂) (hn : n = 0)
    (method name : String) (scope : Scope) :
    Twin (n + 1) (m₁.enterCall method name scope) (m₂.enterCall method name scope) := by
  obtain ⟨rfl, hstack, hkept, hframes⟩ := h
  have hempty : m₂.store.scopes.kept = [] := List.length_eq_zero_iff.1 (hkept.trans hn)
  refine ⟨?_, hstack, ?_, congrArg (· + 1) hframes⟩
  · simp only [enterCall, inMode, Store.enter, Scopes.enter, Scopes.keep, hstack, hempty,
      List.dropLast_nil]
  · simp only [enterCall, Store.enter, Scopes.enter, Scopes.keep, hstack, List.length_cons, hkept]

/-- With a kept scope, to take it back is the same in both modes. -/
theorem Twin.leave {n : Nat} {m₁ m₂ : Machine σ} (h : Twin (n + 1) m₁ m₂) (name : String) :
    (m₁.leaveCall name).1 = (m₂.leaveCall name).1 ∧
      Twin n (m₁.leaveCall name).2 (m₂.leaveCall name).2 := by
  obtain ⟨rfl, hstack, hkept, hframes⟩ := h
  obtain ⟨scope, kept, hcons⟩ := List.exists_cons_of_length_eq_add_one hkept
  have hlength : kept.length = n := by
    rw [hcons] at hkept
    exact Nat.succ.inj hkept
  refine ⟨?_, ?_, ?_, ?_, ?_⟩
  · simp only [leaveCall, inMode, Store.leave, Scopes.leave, hcons]
  · simp only [leaveCall, inMode, Store.leave, Store.set, Scopes.set, Scopes.leave, hcons]
  · simp only [leaveCall, Store.leave, Store.set, Scopes.set, Scopes.leave, hcons, hstack]
  · simp only [leaveCall, Store.leave, Store.set, Scopes.set, Scopes.leave, hcons, hlength]
  · simp only [leaveCall, List.length_tail, hframes, Nat.add_sub_cancel]

/-- If at most one call may be running, the two modes go in lockstep. -/
theorem lockstep_twin [Surface σ] {config : Config} (hdepth : config.maxCallDepth ≤ 1) :
    Lockstep config (Twin : Nat → Machine σ → Machine σ → Prop) where
  view h := by rw [h.eq]; rfl
  methods h := by rw [h.eq]; rfl
  frames h := by rw [h.eq]; rfl
  say place notice h := by
    obtain ⟨rfl, hstack, hkept, hframes⟩ := h
    exact ⟨rfl, hstack, hkept, hframes⟩
  set name value h := by
    obtain ⟨rfl, hstack, hkept, hframes⟩ := h
    exact ⟨rfl, hstack, hkept, hframes⟩
  remove name h := by
    obtain ⟨rfl, hstack, hkept, hframes⟩ := h
    exact ⟨rfl, hstack, hkept, hframes⟩
  setArrays arrays h := by
    obtain ⟨rfl, hstack, hkept, hframes⟩ := h
    exact ⟨rfl, hstack, hkept, hframes⟩
  register method h := by
    obtain ⟨rfl, hstack, hkept, hframes⟩ := h
    exact ⟨rfl, hstack, hkept, hframes⟩
  perform {n m₁ m₂} request h := by
    obtain ⟨rfl, hstack, hkept, hframes⟩ := h
    have hsurface : (m₂.inMode .singleSlot).surface = m₂.surface := rfl
    unfold Machine.perform
    rw [hsurface]
    rcases Surface.perform request m₂.surface with ⟨_ | e, surface⟩
    · exact .done ⟨rfl, hstack, hkept, hframes⟩
    · exact .stopped e ⟨rfl, hstack, hkept, hframes⟩
  enter {n m₁ m₂} method name scope hroom h := by
    refine h.enter ?_ method name scope
    have hframes : m₁.frames.length = n := by rw [h.eq]; exact h.frames
    omega
  leave name h := h.leave name

theorem methods_command [Surface σ] (config : Config) (place : Place) (cmd : Command)
    (m : Machine σ) :
    (m.command config place cmd).machine.store.methods = m.store.methods := by
  obtain ⟨active, arrays, hstore, -⟩ := store_command config place cmd m
  rw [hstore]

theorem methods_leave (place : Place) (name : String) (o : Outcome σ) :
    (o.leave place name).machine.store.methods = o.machine.store.methods := by
  cases o with
  | done m => rfl
  | stopped e m => rfl

/-! ## Runs without nested calls -/

/-- A stage of a run without nested calls: no method, known or still to be registered, has a call in
its body, and above the end of a call there are no calls to be made. -/
structure Stage.Shallow (s : Stage σ) : Prop where
  methods : ∀ method ∈ s.machine.store.methods, CallFree method.body
  flat : ∀ task ∈ s.tasks, FlatMethods task.block
  above : s.tasks.Pairwise fun task below => below.isLeave = true → CallFree task.block

namespace Stage.Shallow

theorem rest {task : Task} {rest : List Task} {o o' : Outcome σ}
    (h : Stage.Shallow ⟨task :: rest, o⟩)
    (hmethods : o'.machine.store.methods = o.machine.store.methods) :
    Stage.Shallow ⟨rest, o'⟩ where
  methods method hmethod := h.methods method (hmethods ▸ hmethod)
  flat task' htask' := h.flat task' (List.mem_cons_of_mem task htask')
  above := (List.pairwise_cons.1 h.above).2

/-- A task gives way to its parts. -/
theorem parts {task : Task} {tasks rest : List Task} {o o' : Outcome σ}
    (h : Stage.Shallow ⟨task :: rest, o⟩) (htasks : ∀ task' ∈ tasks, task'.PartOf task)
    (hmethods : ∀ method ∈ o'.machine.store.methods, CallFree method.body) :
    Stage.Shallow ⟨tasks ++ rest, o'⟩ where
  methods := hmethods
  flat := by
    obtain ⟨hflat, hrest⟩ := List.forall_mem_cons.1 h.flat
    exact List.forall_mem_append.2
      ⟨fun task' htask' => hflat.mono (htasks task' htask').block, hrest⟩
  above := by
    obtain ⟨htask, hrest⟩ := List.pairwise_cons.1 h.above
    refine List.pairwise_append.2 ⟨?_, hrest, fun task' htask' below hbelow hleave => ?_⟩
    · -- none of the parts is the end of a call
      refine List.pairwise_of_forall_mem_list fun task' _ below hbelow hleave => ?_
      rw [(htasks below hbelow).isLeave] at hleave
      cases hleave
    · exact (htask below hbelow hleave).mono (htasks task' htask').block

/-- A call is made only if no other call is to be left. -/
theorem calls_eq_zero {place : Place} {name : String} {args : List String} {stmts : List Stmt}
    {rest : List Task} {o : Outcome σ}
    (h : Stage.Shallow ⟨.stmts (.call place name args :: stmts) :: rest, o⟩) :
    Stage.calls ⟨.stmts (.call place name args :: stmts) :: rest, o⟩ = 0 := by
  have hrest : rest.filter Task.isLeave = [] := by
    refine List.filter_eq_nil_iff.2 fun below hbelow hleave => ?_
    refine (List.pairwise_cons.1 h.above).1 below hbelow hleave place name args ?_
    exact inside_subset_insideAll_cons _ stmts (mem_inside_self _)
  exact congrArg List.length hrest

/-- The body of a method has no calls, and so can be put above the end of its call. -/
theorem enter {config : Config} {m : Machine σ} {place : Place} {name : String}
    {args : List String} {stmts : List Stmt} {rest : List Task} {method : Method}
    (h : Stage.Shallow ⟨.stmts (.call place name args :: stmts) :: rest, .done m⟩)
    (henters : Enters config m name args method) :
    Stage.Shallow ⟨[.stmts method.body, .leave place name, .stmts stmts] ++ rest,
      .done (m.entered config place name args method)⟩ := by
  have hfree : CallFree method.body := h.methods method (Methods.mem_of_find? henters.found)
  have hmethods : (m.entered config place name args method).store.methods = m.store.methods := by
    obtain ⟨scope, notices, hentered⟩ := entered_eq config place name args method m
    rw [hentered]
    rfl
  have hnil : CallFree [] := fun _ _ _ hcall => absurd hcall List.not_mem_nil
  have hpart : (Task.stmts stmts).PartOf (.stmts (.call place name args :: stmts)) :=
    Task.partOf_stmts_cons _ stmts
  have hstmts : Stage.Shallow ⟨[.stmts stmts] ++ rest,
      .done (m.entered config place name args method)⟩ :=
    h.parts (List.forall_mem_singleton.2 hpart)
      fun method' hmethod' => h.methods method' (hmethods ▸ hmethod')
  refine ⟨hstmts.methods, ?_, ?_⟩
  · exact List.forall_mem_cons.2 ⟨hfree.flatMethods, List.forall_mem_cons.2
      ⟨hnil.flatMethods, hstmts.flat⟩⟩
  · exact List.pairwise_cons.2 ⟨fun _ _ _ => hfree, List.pairwise_cons.2
      ⟨fun _ _ _ => hnil, hstmts.above⟩⟩

/-- Every step keeps a run shallow. -/
theorem next [Surface σ] {config : Config} {s s' : Stage σ} (h : s.Shallow)
    (hnext : s.next? config = some s') : s'.Shallow := by
  cases moves_of_next? hnext with
  | goOn task rest m =>
    have hdoes := task.step_does config m
    generalize task.step config m = after at hdoes
    -- for the statements that are over in one step
    have hblock {stmt : Stmt} {stmts : List Stmt} (o : Outcome σ)
        (hs : Stage.Shallow ⟨.stmts (stmt :: stmts) :: rest, .done m⟩)
        (hmethods : ∀ method ∈ o.machine.store.methods, CallFree method.body) :
        Stage.Shallow ⟨[.stmts stmts] ++ rest, o⟩ :=
      hs.parts (List.forall_mem_singleton.2 (Task.partOf_stmts_cons stmt stmts)) hmethods
    cases hdoes with
    | leave place name => exact h.rest (methods_leave place name (.done m))
    | enter place stmts henters => exact h.enter henters
    | register place header lines body stmts notice =>
      refine hblock _ h fun method hmethod => ?_
      rcases Methods.mem_register hmethod with rfl | hknown
      · exact (List.forall_mem_cons.1 h.flat).1 place header lines body
          (inside_subset_insideAll_cons _ stmts (mem_inside_self _))
      · exact h.methods method hknown
    | command place cmd stmts =>
      refine hblock _ h fun method hmethod => h.methods method ?_
      rw [methods_command] at hmethod
      exact hmethod
    | round place var stop step body counter made =>
      exact h.parts (Task.partOf_forLoop place var stop step body counter made) h.methods
    | endFor place var stop step body counter made notices => exact h.rest rfl
    | look place notices htask htasks hplace => exact h.parts htasks h.methods
  | giveUp task rest e m =>
    by_cases htask : task.isLeave = true
    · obtain ⟨place, name, rfl⟩ := eq_leave_of_isLeave htask
      exact h.rest (methods_leave place name (.stopped e m))
    · rw [giveUp_of_not_leave (Bool.eq_false_iff.2 htask)]
      exact h.rest rfl

/-- The next stage is the same for all limits on nested calls that allow a call at all. -/
theorem next?_withLimits [Surface σ] {config : Config} {s : Stage σ} (h : s.Shallow)
    (hover : s.Over []) (hdepth : 1 ≤ config.maxCallDepth) :
    s.next? (config.withLimits config.maxIterations 1) = s.next? config := by
  refine Stage.next?_congr fun task rest m hs => ?_
  subst hs
  refine Task.step_congr (evalMode_withLimits config config.maxIterations 1) rfl m task
    fun place name args stmts htask => ?_
  subst htask
  have hframes : m.frames.length = 0 := by
    obtain ⟨inner, hlength, hinner⟩ := hover
    have hinner : m.frames = inner ++ [] := hinner
    rw [hinner, List.append_nil, hlength, h.calls_eq_zero]
  have hone : (config.withLimits config.maxIterations 1).maxCallDepth = 1 := rfl
  simp only [startCall, entered_withLimits, hone, hframes, Nat.not_le.2 hdepth,
    Nat.not_le.2 Nat.zero_lt_one, if_false]

end Stage.Shallow

/-- A program whose methods have no calls in their bodies runs as it would if one call at most could
be running. -/
theorem runBody_of_flatMethods [Surface σ] {config : Config} {stmts : List Stmt} {m : Machine σ}
    (hflat : FlatMethods stmts) (hmethods : m.store.methods = []) (hframes : m.frames = [])
    (hdepth : 1 ≤ config.maxCallDepth) :
    runBody (config.withLimits config.maxIterations 1) 1 stmts m =
      runBody config config.maxCallDepth stmts m := by
  refine runBody_eq_of_next? (P := fun s => s.Shallow ∧ s.Over []) ?_ ?_ stmts m ?_
    (Nat.le_add_right _ _) (Nat.le_add_right _ _)
  · rintro s s' ⟨hshallow, hover⟩ hnext
    exact ⟨hshallow.next hnext, hover.next hnext⟩
  · rintro s ⟨hshallow, hover⟩
    exact hshallow.next?_withLimits hover hdepth
  · refine ⟨⟨fun method hmethod => ?_, List.forall_mem_singleton.2 hflat, ?_⟩, [], rfl, hframes⟩
    · have hnone : method ∈ m.store.methods := hmethod
      rw [hmethods] at hnone
      exact absurd hnone List.not_mem_nil
    · exact List.pairwise_singleton _ _

/-! ## Programs -/

/-- Without nested calls, the two modes lead to outcomes that differ in the mode alone. -/
theorem runBody_twin [Surface σ] {config : Config} {stmts : List Stmt} {m₁ m₂ : Machine σ}
    (h : Twin 0 m₁ m₂) (hmethods : m₂.store.methods = [])
    (hcalls : config.maxCallDepth ≤ 1 ∨ FlatMethods stmts) :
    Outcome.Rel (Twin 0) (runBody config config.maxCallDepth stmts m₁)
      (runBody config config.maxCallDepth stmts m₂) := by
  rcases Nat.lt_or_ge 1 config.maxCallDepth with hdeep | hdepth
  · have hflat : FlatMethods stmts := hcalls.resolve_left (Nat.not_le.2 hdeep)
    have hframes₂ : m₂.frames = [] := List.length_eq_zero_iff.1 h.frames
    have hframes₁ : m₁.frames = [] := by rw [h.eq]; exact hframes₂
    have hmethods₁ : m₁.store.methods = [] := by rw [h.eq]; exact hmethods
    rw [← runBody_of_flatMethods hflat hmethods₁ hframes₁ hdeep.le,
      ← runBody_of_flatMethods hflat hmethods hframes₂ hdeep.le]
    exact (lockstep_twin (Nat.le_refl 1)).runBody 1 0 stmts m₁ m₂ h
  · exact (lockstep_twin hdepth).runBody config.maxCallDepth 0 stmts m₁ m₂ h

theorem Outcome.Rel.ends {n : Nat} {o₁ o₂ : Outcome σ} (h : Outcome.Rel (Twin n) o₁ o₂) :
    o₁.refusal? = o₂.refusal? ∧ Twin n o₁.machine o₂.machine := by
  cases h with
  | done htwin => exact ⟨rfl, htwin⟩
  | stopped e htwin => exact ⟨rfl, htwin⟩

/-- If one call at most may be running, or no method of the program has a call in its body, a
program runs alike in the two modes: it ends in the same way, with the same diagnostics and surface,
and with the same variables, arrays, methods and number of scopes. -/
theorem run_singleSlot_eq_stack [Surface σ] (config : Config) (slot stack : Store)
    (hslot : slot.scopes.mode = .singleSlot) (hstack : stack.scopes.mode = .stack)
    (source : String) (surface : σ)
    (hcalls : config.maxCallDepth ≤ 1 ∨ FlatMethods (Parsed.ofSource source).stmts) :
    let result := Interpreter.run ⟨{ config with scopeMode := .singleSlot }, slot⟩ source surface
    let result' := Interpreter.run ⟨{ config with scopeMode := .stack }, stack⟩ source surface
    result.error = result'.error ∧ result.diagnostics = result'.diagnostics ∧
      result.surface = result'.surface ∧
      result.interpreter.store.scope = result'.interpreter.store.scope ∧
      result.interpreter.store.arrays = result'.interpreter.store.arrays ∧
      result.interpreter.store.methods = result'.interpreter.store.methods ∧
      result.interpreter.store.scopes.depth = result'.interpreter.store.scopes.depth := by
  intro result result'
  have htwin : Twin 0 { store := slot.reset, surface := surface }
      { store := stack.reset, surface := surface } := by
    refine ⟨?_, hstack, rfl, rfl⟩
    simp only [inMode, Store.reset, Scopes.reset, hslot]
  have hslotRun := runBody_scopeMode config .singleSlot (Parsed.ofSource source).stmts
    { store := slot.reset, surface := surface } (Nat.le_add_right config.maxCallDepth 0)
  have hstackRun := runBody_scopeMode config .stack (Parsed.ofSource source).stmts
    { store := stack.reset, surface := surface } (Nat.le_add_right config.maxCallDepth 0)
  have hrel := runBody_twin htwin rfl hcalls
  rw [← hslotRun, ← hstackRun] at hrel
  obtain ⟨herror, htwin'⟩ := hrel.ends
  obtain ⟨hdiagnostics, hrest⟩ := htwin'.agree
  exact ⟨herror, congrArg ((Parsed.ofSource source).diagnostics ++ ·) hdiagnostics, hrest⟩

/-- The loop calls a method whose body has no calls, with room for many. -/
theorem run_singleSlot_eq_stack_looped :
    FlatMethods (Parsed.ofSource looped).stmts ∧
    (Interpreter.run (Interpreter.new { scopeMode := .singleSlot }) looped
        ({ width := 640, height := 480 } : Canvas)).diagnostics =
      (Interpreter.run (Interpreter.new { scopeMode := .stack }) looped
        ({ width := 640, height := 480 } : Canvas)).diagnostics := by
  have hflat : FlatMethods (Parsed.ofSource looped).stmts := by
    decide +kernel
  exact ⟨hflat, (run_singleSlot_eq_stack {} _ _ rfl rfl looped _ (Or.inr hflat)).2.1⟩

end Drawscript
