import Drawscript.Proofs.Exec.History
import Drawscript.Proofs.Store.Slots

/-!
# The slot of a run

A run in single-slot mode that starts without a kept scope never has more than one. A call may find
the slot taken or free when it starts and when it ends: a call inside its body takes the slot over
and leaves it free, so that there is nothing to take back when the call itself ends. Its end frees
the slot in any case, and outside of all calls the slot is therefore free (`Stage.Slotted`). Every
step keeps it so, also once the surface has stopped the run.
-/

set_option autoImplicit false

namespace Drawscript

open Machine

variable {σ : Type}

/-- At most one scope is kept, and none if no call is to be left. -/
structure Stage.Slotted (s : Stage σ) : Prop where
  scopes : s.machine.store.scopes.Slotted
  free : s.calls = 0 → s.machine.store.scopes.kept = []

namespace Stage.Slotted

/-! ## Steps -/

/-- A step that neither enters nor leaves a call does not touch the slot. -/
theorem goOn {task : Task} {tasks rest : List Task} {o o' : Outcome σ}
    (h : Stage.Slotted ⟨task :: rest, o⟩) (htask : task.isLeave = false)
    (htasks : ∀ task' ∈ tasks, task'.isLeave = false)
    (hmode : o'.machine.store.scopes.mode = o.machine.store.scopes.mode)
    (hkept : o'.machine.store.scopes.kept = o.machine.store.scopes.kept) :
    Stage.Slotted ⟨tasks ++ rest, o'⟩ := by
  have hroom : o'.machine.store.scopes.kept.length ≤ 1 := hkept ▸ h.scopes.kept
  refine ⟨⟨hmode.trans h.scopes.mode, hroom⟩, fun hcalls => hkept.trans (h.free ?_)⟩
  -- as many calls are to be left as before
  exact (callsLeft_cons htask rest).trans ((callsLeft_append htasks rest).symm.trans hcalls)

/-- To leave a call is to free the slot. -/
theorem leave {place : Place} {name : String} {rest : List Task} {o : Outcome σ}
    (h : Stage.Slotted ⟨.leave place name :: rest, o⟩) :
    Stage.Slotted ⟨rest, o.leave place name⟩ := by
  have hslotted : o.machine.store.scopes.Slotted := h.scopes
  cases o with
  | done m => exact ⟨hslotted.leave.activate _, fun _ => hslotted.kept_leave⟩
  | stopped e m => exact ⟨hslotted.leave.activate _, fun _ => hslotted.kept_leave⟩

theorem enter {config : Config} {m : Machine σ} {place : Place} {name : String}
    {args : List String} {stmts : List Stmt} {rest : List Task}
    (h : Stage.Slotted ⟨.stmts (.call place name args :: stmts) :: rest, .done m⟩)
    (method : Method) :
    Stage.Slotted ⟨[.stmts method.body, .leave place name, .stmts stmts] ++ rest,
      .done (m.entered config place name args method)⟩ := by
  have hslotted : m.store.scopes.Slotted := h.scopes
  constructor
  · show (m.entered config place name args method).store.scopes.Slotted
    rw [store_entered]
    exact hslotted.enter _
  · exact fun hcalls => absurd hcalls (Nat.succ_ne_zero _)

/-- Every step keeps the slot. -/
theorem next [Surface σ] {config : Config} {s s' : Stage σ} (h : s.Slotted)
    (hnext : s.next? config = some s') : s'.Slotted := by
  cases moves_of_next? hnext with
  | goOn task rest m =>
    have hdoes := task.step_does config m
    generalize task.step config m = after at hdoes
    cases hdoes with
    | leave place name => exact h.leave
    | enter place stmts henters => exact h.enter _
    | register place header lines body stmts notice =>
      exact h.goOn rfl (List.forall_mem_singleton.2 rfl) rfl rfl
    | command place cmd stmts =>
      obtain ⟨active, arrays, hstore, -⟩ := store_command config place cmd m
      refine h.goOn rfl (List.forall_mem_singleton.2 rfl) ?_ ?_ <;> rw [hstore] <;> rfl
    | round place var stop step body counter made =>
      have hparts := Task.partOf_forLoop place var stop step body counter made
      exact h.goOn rfl (fun task htask => (hparts task htask).isLeave) rfl rfl
    | endFor place var stop step body counter made notices =>
      exact h.goOn rfl (List.forall_mem_nil _) rfl rfl
    | look place notices htask htasks hplace =>
      exact h.goOn (isLeave_of_looks htask) (fun task' htask' => (htasks task' htask').isLeave)
        rfl rfl
  | giveUp task rest e m =>
    by_cases htask : task.isLeave = true
    · obtain ⟨place, name, rfl⟩ := eq_leave_of_isLeave htask
      exact h.leave
    · have hplain := Bool.eq_false_iff.2 htask
      rw [giveUp_of_not_leave hplain]
      exact h.goOn hplain (List.forall_mem_nil _) rfl rfl

/-! ## Runs -/

theorem of_leads [Surface σ] {config : Config} {s s' : Stage σ} (h : s.Slotted)
    (hleads : Leads config s s') : s'.Slotted := by
  obtain ⟨visited, hpath⟩ := hleads
  exact (hpath.invariant (P := Stage.Slotted) (fun _ _ hs hnext => hs.next hnext) h).2

end Stage.Slotted

theorem slotted_start {m : Machine σ} (stmts : List Stmt)
    (hmode : m.store.scopes.mode = .singleSlot) (hdepth : m.store.scopes.depth = 1) :
    (Stage.start stmts m).Slotted where
  scopes := Scopes.slotted_iff.2 ⟨hmode, Or.inl hdepth⟩
  free _ := List.length_eq_zero_iff.1 (Nat.succ.inj hdepth)

/-- A run in single-slot mode that starts with one scope has one or two scopes at every point, and
whenever it leaves a call it leaves a scope. At the end it has one scope again, whether it was
stopped or not. In single-slot mode one or two scopes stay one or two scopes whatever is done to the
store, and the first of them is the active one. -/
theorem execute_singleSlot [Surface σ] (interpreter : Interpreter)
    (hmode : interpreter.store.scopes.mode = .singleSlot)
    (hdepth : interpreter.store.scopes.depth = 1) (stmts : List Stmt) (surface : σ) :
    (∀ s : Stage σ, Leads interpreter.config
        (.start stmts { store := interpreter.store, surface := surface }) s →
      (s.machine.store.scopes.depth = 1 ∨ s.machine.store.scopes.depth = 2) ∧
      ∀ place name rest, s.tasks = .leave place name :: rest →
        s.machine.store.leave.1 = some s.machine.store.scope) ∧
    (interpreter.execute stmts surface).interpreter.store.scopes.depth = 1 ∧
    ∀ store : Store, store.scopes.mode = .singleSlot →
      store.scopes.depth = 1 ∨ store.scopes.depth = 2 → ∀ ops : List Store.Op,
        let after := store.applyAll ops
        (after.scopes.held.length = 1 ∨ after.scopes.held.length = 2) ∧
          after.scopes.held.head? = some after.scope := by
  have hstart := slotted_start (m := { store := interpreter.store, surface := surface }) stmts
    hmode hdepth
  refine ⟨fun s hs => ?_, ?_, fun store hsingle hheld ops => ?_⟩
  · have hslotted := (hstart.of_leads hs).scopes
    exact ⟨(Scopes.slotted_iff.1 hslotted).2, fun place name rest _ => hslotted.left⟩
  · -- the end of the run is a stage without tasks, so that no call is to be left
    have hend := (hstart.of_leads (interpreter.leads_outcome stmts surface)).free rfl
    exact congrArg (fun kept => kept.length + 1) hend
  · have hslotted := Store.slotted_applyAll (Scopes.slotted_iff.2 ⟨hsingle, hheld⟩) ops
    exact ⟨(Scopes.slotted_iff.1 hslotted).2, rfl⟩

/-- Statements with a call inside a call. -/
def chained : List Stmt :=
  let place : Place := ⟨1, ⟨0, 0⟩⟩
  [.method place ⟨"g", .int, []⟩ [] [], .method place ⟨"f", .int, []⟩ [] [.call place "g" []],
    .call place "f" []]

/-- An interpreter in single-slot mode. -/
def singleSlotted : Interpreter :=
  .new { scopeMode := .singleSlot }

/-- The stage of the run of these statements at which the outer call is left. -/
def chainedEnd : Stage Canvas :=
  ((Stage.start chained
    ⟨singleSlotted.store, [], { width := 640, height := 480 }, []⟩).steps singleSlotted.config 7).2

theorem tasks_chainedEnd :
    ∃ place name rest, chainedEnd.tasks = .leave place name :: rest := by
  have hleaves : (chainedEnd.tasks.head?.map Task.isLeave) = some true := by decide +kernel
  obtain ⟨task, hhead, hleave⟩ := Option.map_eq_some_iff.1 hleaves
  obtain ⟨rest, htasks⟩ := List.head?_eq_some_iff.1 hhead
  obtain ⟨place, name, rfl⟩ := eq_leave_of_isLeave hleave
  exact ⟨place, name, rest, htasks⟩

/-- The inner call has freed the slot, so that one scope is held when the outer call is left, and
there is a scope to leave all the same. -/
theorem execute_singleSlot_chained :
    singleSlotted.store.scopes.mode = .singleSlot ∧ singleSlotted.store.scopes.depth = 1 ∧
      (∃ place name rest, chainedEnd.tasks = .leave place name :: rest) ∧
      chainedEnd.machine.store.scopes.depth = 1 ∧
      chainedEnd.machine.store.leave.1 = some chainedEnd.machine.store.scope ∧
      (singleSlotted.execute chained
        ({ width := 640, height := 480 } : Canvas)).interpreter.store.scopes.depth = 1 ∧
      (let after := (Store.empty .singleSlot).applyAll [.enter {}, .enter {}, .leave, .leave]
       after.scopes.held.head? = some after.scope) := by
  obtain ⟨hpoints, hend, hops⟩ := execute_singleSlot singleSlotted rfl rfl chained
    ({ width := 640, height := 480 } : Canvas)
  obtain ⟨place, name, rest, htasks⟩ := tasks_chainedEnd
  have hleads : Leads singleSlotted.config
      (.start chained ⟨singleSlotted.store, [], ({ width := 640, height := 480 } : Canvas), []⟩)
      chainedEnd :=
    ⟨_, path_steps _ 7 _⟩
  refine ⟨rfl, rfl, tasks_chainedEnd, by decide +kernel, ?_, hend, ?_⟩
  · exact (hpoints chainedEnd hleads).2 place name rest htasks
  · exact (hops (.empty .singleSlot) rfl (Or.inl rfl) [.enter {}, .enter {}, .leave, .leave]).2

end Drawscript
