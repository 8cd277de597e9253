import Drawscript.Proofs.Exec.Nesting

/-!
# Where the code of a run comes from

A run makes no code of its own. Its tasks stand for statements of the program that it was started
with, and so do the methods that it registers, whose bodies become tasks again when they are called
(`Stage.From`). Every step keeps this (`Stage.From.next`), so that whatever is known of all
statements of a program is known of every statement that a run comes to, at any depth of calls.
-/

set_option autoImplicit false

namespace Drawscript

open Machine

variable {σ : Type}

/-- At a stage, all that is left to do and all methods come from the program. -/
structure Stage.From (program : List Stmt) (s : Stage σ) : Prop where
  tasks : ∀ task ∈ s.tasks, task.From program
  methods : ∀ method ∈ s.machine.store.methods,
    ∃ place, .method place method.header method.lines method.body ∈ insideAll program

/-- The statement that a task goes on with is one of the program. -/
theorem Task.From.stmt {program : List Stmt} {task : Task} (h : task.From program) {place : Place}
    (hplace : task.place? = some place) : ∃ stmt ∈ insideAll program, stmt.place = place := by
  cases task with
  | stmts rest =>
    cases rest with
    | nil => cases hplace
    | cons stmt rest =>
      refine ⟨stmt, h ?_, Option.some.inj hplace⟩
      exact inside_subset_insideAll_cons stmt rest (mem_inside_self stmt)
  | whileLoop place' cond body made => exact ⟨_, h, Option.some.inj hplace⟩
  | forLoop place' var stop step body counter made =>
    obtain ⟨header, -, hmem⟩ := h
    exact ⟨_, hmem, Option.some.inj hplace⟩
  | leave place' name =>
    obtain ⟨args, hmem⟩ := h
    exact ⟨_, hmem, Option.some.inj hplace⟩

/-- The first of some statements of a program is one of it. -/
theorem Task.From.head {program : List Stmt} {stmt : Stmt} {rest : List Stmt}
    (h : (Task.stmts (stmt :: rest)).From program) : stmt ∈ insideAll program :=
  h (inside_subset_insideAll_cons stmt rest (mem_inside_self stmt))

namespace Stage.From

variable {program : List Stmt}

theorem start {m : Machine σ} (hmethods : m.store.methods = []) :
    (Stage.start program m).From program where
  tasks := List.forall_mem_singleton.2 (List.Subset.refl _)
  methods method hmethod := by
    have hnone : method ∈ m.store.methods := hmethod
    rw [hmethods] at hnone
    exact absurd hnone List.not_mem_nil

/-- The first task gives way to others from the program, and the methods stay. -/
theorem replace {task : Task} {rest tasks : List Task} {o o' : Outcome σ}
    (h : Stage.From program ⟨task :: rest, o⟩) (htasks : ∀ task' ∈ tasks, task'.From program)
    (hmethods : o'.machine.store.methods = o.machine.store.methods) :
    Stage.From program ⟨tasks ++ rest, o'⟩ where
  tasks := List.forall_mem_append.2 ⟨htasks, (List.forall_mem_cons.1 h.tasks).2⟩
  methods method hmethod := h.methods method (hmethods ▸ hmethod)

/-- Every step keeps to the code of the program. -/
theorem next [Surface σ] {config : Config} {s s' : Stage σ} (h : s.From program)
    (hnext : s.next? config = some s') : s'.From program := by
  cases moves_of_next? hnext with
  | goOn task rest m =>
    have htask : task.From program := (List.forall_mem_cons.1 h.tasks).1
    have hstmts {stmt : Stmt} {stmts : List Stmt}
        (hfrom : (Task.stmts (stmt :: stmts)).From program) : (Task.stmts stmts).From program :=
      (Task.partOf_stmts_cons stmt stmts).origin program hfrom
    have hdoes := task.step_does config m
    generalize task.step config m = after at hdoes
    cases hdoes with
    | leave place name =>
      exact h.replace (List.forall_mem_nil _) (methods_leave place name (.done m))
    | @enter name args method place stmts henters =>
      -- the body of the method is in the program, because the method is
      obtain ⟨place', hmethod⟩ := h.methods method (Methods.mem_of_find? henters.found)
      have hbody : (Task.stmts method.body).From program :=
        bodies_subset_insideAll (Stmt.inside.eq_5 place' method.header method.lines method.body)
          hmethod
      have hleave : (Task.leave place name).From program := ⟨args, htask.head⟩
      refine h.replace (List.forall_mem_cons.2 ⟨hbody, List.forall_mem_cons.2
        ⟨hleave, List.forall_mem_singleton.2 (hstmts htask)⟩⟩) ?_
      obtain ⟨scope, notices, hentered⟩ := entered_eq config place name args method m
      rw [hentered]
      rfl
    | register place header lines body stmts notice =>
      refine ⟨List.forall_mem_cons.2 ⟨hstmts htask, (List.forall_mem_cons.1 h.tasks).2⟩, ?_⟩
      intro method hmethod
      rcases Methods.mem_register hmethod with rfl | hknown
      · exact ⟨place, htask.head⟩
      · exact h.methods method hknown
    | command place cmd stmts =>
      exact h.replace (List.forall_mem_singleton.2 (hstmts htask))
        (methods_command config place cmd m)
    | round place var stop step body counter made =>
      refine h.replace (fun task' htask' => ?_) rfl
      exact (Task.partOf_forLoop place var stop step body counter made task' htask').origin
        program htask
    | endFor place var stop step body counter made notices =>
      exact h.replace (List.forall_mem_nil _) rfl
    | look place notices hlooks htasks hplace =>
      exact h.replace (fun task' htask' => (htasks task' htask').origin program htask) rfl
  | giveUp task rest e m =>
    have hrest {o : Outcome σ} (hmethods : o.machine.store.methods = m.store.methods) :
        Stage.From program ⟨rest, o⟩ :=
      h.replace (List.forall_mem_nil _) hmethods
    by_cases hleave : task.isLeave = true
    · obtain ⟨place, name, rfl⟩ := eq_leave_of_isLeave hleave
      exact hrest (methods_leave place name (.stopped e m))
    · rw [giveUp_of_not_leave (Bool.eq_false_iff.2 hleave)]
      exact hrest rfl

end Stage.From

end Drawscript
