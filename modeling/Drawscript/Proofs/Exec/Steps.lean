import Drawscript.Proofs.Exec.Scoping
import Drawscript.Proofs.Stmt.Inside

/-!
# Runs step by step

A run is taken apart into single steps here. Between two steps it is a `Stage`: the tasks that it
has begun and not finished, the innermost first, and the outcome of the last step. A step
(`Stage.next?`) looks at the first task alone. It may put statements, a loop or a call before the
others, and nothing in its definition bounds the length of a run: a loop counts its rounds upwards,
and a body is entered as often as calls ask for it.

`leads_runBody` says that these steps lead from the start of a run to the outcome that `runBody`
computes, provided that `runBody` has room for the calls that the limit still allows. A statement
about every point of a run is one about the stages on a `Path`.
-/

set_option autoImplicit false

namespace Drawscript

open Machine

variable {σ : Type}

/-- Something that a run has begun and not finished. -/
inductive Task where
  /-- Statements that are still to be run. -/
  | stmts (rest : List Stmt)
  /-- A `while` loop that has made some rounds. -/
  | whileLoop (place : Place) (cond : String) (body : List Stmt) (made : Nat)
  /-- A `for` loop that has made some rounds, with its next counter. -/
  | forLoop (place : Place) (var : String) (stop step : Float) (body : List Stmt) (counter : Float)
      (made : Nat)
  /-- A call that is to be left. -/
  | leave (place : Place) (name : String)

/-- A run between two steps. -/
structure Stage (σ : Type) where
  /-- The tasks, the innermost first. -/
  tasks : List Task
  /-- How the last step ended. -/
  outcome : Outcome σ

/-! ## Steps -/

/-- Start a call: the body and then the end of the call are left to do, unless the call is
rejected. -/
def Machine.startCall (config : Config) (place : Place) (name : String) (args : List String)
    (m : Machine σ) : List Task × Outcome σ :=
  match m.store.method? name with
  | none => ([], .done (m.report place (.resolution (.unknownMethod name))))
  | some method =>
    let params := method.header.params
    if params.length ≠ args.length then
      ([], .done (m.report place
        (.resolution (.arityMismatch method.name params.length args.length))))
    else if config.maxCallDepth ≤ m.frames.length then
      ([], .done (m.report place
        (.resolution (.callDepthExceeded method.name config.maxCallDepth))))
    else
      ([.stmts method.body, .leave place name],
        .done (m.entered config place name args method))

/-- Start a statement: what it leaves to do, and the outcome so far. -/
def Stmt.start [Surface σ] (config : Config) (m : Machine σ) : Stmt → List Task × Outcome σ
  | .whileLoop place cond body => ([.whileLoop place cond body 0], .done m)
  | .forLoop place header body =>
    let ((start, stop, step), after) := m.forRange config place header
    if step.abs < tolerance then ([], .done (after.report place (.parse .zeroStep)))
    else ([.forLoop place header.var stop step body start 0], .done after)
  | .ifThen place cond thenBody =>
    let (holds, after) := m.test config.evalMode place cond
    (if holds then [.stmts thenBody] else [], .done after)
  | .ifElse place cond thenBody elseBody =>
    let (holds, after) := m.test config.evalMode place cond
    ([.stmts (if holds then thenBody else elseBody)], .done after)
  | .method place header lines body =>
    let count := header.params.length
    let m := m.note place ("method " ++ header.name ++ s!" registered with {count} parameter(s)")
    ([], .done { m with store := m.store.register ⟨header, lines, body⟩ })
  | .call place name args => m.startCall config place name args
  | .command place cmd => ([], m.command config place cmd)

/-- Go on with a task: what it leaves to do, and the outcome so far. -/
def Task.step [Surface σ] (config : Config) (m : Machine σ) : Task → List Task × Outcome σ
  | .stmts [] => ([], .done m)
  | .stmts (stmt :: rest) =>
    let (tasks, outcome) := stmt.start config m
    (tasks ++ [.stmts rest], outcome)
  | .whileLoop place cond body made =>
    let (holds, after) := m.test config.evalMode place cond
    if holds then
      if made = config.maxIterations then
        ([], .done (after.warn place s!"while loop stopped after {made} iterations"))
      else ([.stmts body, .whileLoop place cond body (made + 1)], .done after)
    else ([], .done after)
  | .forLoop place var stop step body counter made =>
    if inRange counter stop step then
      if made = config.maxIterations then
        ([], .done ((m.warn place s!"for loop stopped after {made} iterations").remove var))
      else
        ([.stmts body, .forLoop place var stop step body (counter + step) (made + 1)],
          .done (m.set var (Value.ofFloat counter)))
    else ([], .done (m.remove var))
  | .leave place name => ([], (Outcome.done m).leave place name)

/-- Give a task up, once the surface has stopped the run. A call is left all the same. -/
def Task.giveUp (outcome : Outcome σ) : Task → Outcome σ
  | .leave place name => outcome.leave place name
  | _ => outcome

/-! ## Calls -/

section

variable {config : Config}

/-- A call that is rejected is over with its report. -/
theorem Rejects.startCall_eq {m : Machine σ} {name : String} {args : List String}
    {cause : ResolutionError} (h : Rejects config m name args cause) (place : Place) :
    m.startCall config place name args = ([], .done (m.report place (.resolution cause))) := by
  unfold Machine.startCall
  cases h with
  | unknown hfound => rw [hfound]
  | arity hfound harity =>
    rw [hfound]
    exact if_pos harity
  | depth hfound harity hdepth =>
    rw [hfound]
    exact (if_neg (not_not.2 harity)).trans (if_pos hdepth)

/-- A call that is entered leaves two tasks: its body, and then to leave it. -/
theorem Enters.startCall_eq {m : Machine σ} {name : String} {args : List String} {method : Method}
    (h : Enters config m name args method) (place : Place) :
    m.startCall config place name args =
      ([.stmts method.body, .leave place name],
        .done (m.entered config place name args method)) := by
  unfold Machine.startCall
  rw [h.found]
  exact (if_neg (not_not.2 h.arity)).trans (if_neg (Nat.not_le.2 h.depth))

theorem length_frames_entered (config : Config) (place : Place) (name : String) (args : List String)
    (method : Method) (m : Machine σ) :
    (m.entered config place name args method).frames.length = m.frames.length + 1 := by
  obtain ⟨scope, notices, hentered⟩ := entered_eq config place name args method m
  rw [hentered]
  rfl

/-- The step of a call that enters a method. -/
theorem Enters.step_eq [Surface σ] {m : Machine σ} {name : String} {args : List String}
    {method : Method} (h : Enters config m name args method) (place : Place) (rest : List Stmt) :
    (Task.stmts (.call place name args :: rest)).step config m =
      ([.stmts method.body, .leave place name, .stmts rest],
        .done (m.entered config place name args method)) := by
  rw [Task.step, Stmt.start, h.startCall_eq]
  rfl

end

/-! ## What a step can do -/

/-- The task is the end of a call. -/
def Task.isLeave : Task → Bool
  | .leave _ _ => true
  | _ => false

/-- The next step of the task changes nothing but the reports: all that it can do to the machine
otherwise is to enter a call. -/
def Task.looks : Task → Bool
  | .stmts (.command _ _ :: _) => false
  | .stmts (.method _ _ _ _ :: _) => false
  | .stmts _ => true
  | .whileLoop _ _ _ _ => true
  | .forLoop _ _ _ _ _ _ _ => false
  | .leave _ _ => false

/-- The statements that a task may still run, those in the bodies of called methods apart. -/
def Task.block : Task → List Stmt
  | .stmts rest => rest
  | .whileLoop _ _ body _ => body
  | .forLoop _ _ _ _ body _ _ => body
  | .leave _ _ => []

/-- The place of the statement that the task goes on with. -/
def Task.place? : Task → Option Place
  | .stmts [] => none
  | .stmts (stmt :: _) => some stmt.place
  | .whileLoop place _ _ _ => some place
  | .forLoop place _ _ _ _ _ _ => some place
  | .leave place _ => some place

/-- The task comes from a program: it stands for statements of it. -/
def Task.From (program : List Stmt) : Task → Prop
  | .stmts rest => insideAll rest ⊆ insideAll program
  | .whileLoop place cond body _ => .whileLoop place cond body ∈ insideAll program
  | .forLoop place var _ _ body _ _ =>
    ∃ header : ForHeader, header.var = var ∧ .forLoop place header body ∈ insideAll program
  | .leave place name => ∃ args, .call place name args ∈ insideAll program

/-- A task is part of another: no end of a call, with no statements that the other has not, and from
every program that the other comes from. -/
structure Task.PartOf (task whole : Task) : Prop where
  isLeave : task.isLeave = false
  block : insideAll task.block ⊆ insideAll whole.block
  origin : ∀ program, whole.From program → task.From program

theorem Task.partOf_stmts_cons (stmt : Stmt) (rest : List Stmt) :
    (Task.stmts rest).PartOf (.stmts (stmt :: rest)) where
  isLeave := rfl
  block := insideAll_subset_insideAll_cons stmt rest
  origin _ h := List.Subset.trans (insideAll_subset_insideAll_cons stmt rest) h

/-- A round of a `for` loop leaves the body and the loop itself to do. -/
theorem Task.partOf_forLoop (place : Place) (var : String) (stop step : Float) (body : List Stmt)
    (counter : Float) (made : Nat) :
    ∀ task ∈ [Task.stmts body, .forLoop place var stop step body (counter + step) (made + 1)],
      task.PartOf (.forLoop place var stop step body counter made) := by
  have hbody : (Task.stmts body).PartOf (.forLoop place var stop step body counter made) :=
    ⟨rfl, List.Subset.refl _, fun program ⟨header, _, hmem⟩ =>
      bodies_subset_insideAll (Stmt.inside.eq_2 place header body) hmem⟩
  have hloop : (Task.forLoop place var stop step body (counter + step) (made + 1)).PartOf
      (.forLoop place var stop step body counter made) :=
    ⟨rfl, List.Subset.refl _, fun program h => h⟩
  exact List.forall_mem_cons.2 ⟨hbody, List.forall_mem_singleton.2 hloop⟩

/-- The ways of a step: it leaves or enters a call, registers a method, runs a command, begins a
round of a `for` loop or ends one, or else it only reports and looks at what is to be done next.
What it reports belongs to the place of its statement. -/
inductive Task.Does [Surface σ] (config : Config) (m : Machine σ) :
    Task → List Task × Outcome σ → Prop
  | leave (place : Place) (name : String) :
      Does config m (.leave place name) ([], (Outcome.done m).leave place name)
  | enter {name : String} {args : List String} {method : Method} (place : Place) (rest : List Stmt)
      (henters : Enters config m name args method) :
      Does config m (.stmts (.call place name args :: rest))
        ([.stmts method.body, .leave place name, .stmts rest],
          .done (m.entered config place name args method))
  | register (place : Place) (header : MethodHeader) (lines : List Line) (body rest : List Stmt)
      (notice : Notice) :
      Does config m (.stmts (.method place header lines body :: rest))
        ([.stmts rest], .done { m.say place notice with
          store := m.store.register ⟨header, lines, body⟩ })
  | command (place : Place) (cmd : Command) (rest : List Stmt) :
      Does config m (.stmts (.command place cmd :: rest))
        ([.stmts rest], m.command config place cmd)
  | round (place : Place) (var : String) (stop step : Float) (body : List Stmt) (counter : Float)
      (made : Nat) :
      Does config m (.forLoop place var stop step body counter made)
        ([.stmts body, .forLoop place var stop step body (counter + step) (made + 1)],
          .done (m.set var (Value.ofFloat counter)))
  | endFor (place : Place) (var : String) (stop step : Float) (body : List Stmt) (counter : Float)
      (made : Nat) (notices : List Notice) :
      Does config m (.forLoop place var stop step body counter made)
        ([], .done ((m.sayAll place notices).remove var))
  | look {task : Task} {tasks : List Task} (place : Place) (notices : List Notice)
      (htask : task.looks = true) (htasks : ∀ task' ∈ tasks, task'.PartOf task)
      (hplace : notices = [] ∨ task.place? = some place) :
      Does config m task (tasks, .done (m.sayAll place notices))

section

variable [Surface σ] (config : Config) (m : Machine σ)

/-- What a statement leaves to do is part of it, unless it enters a call. -/
theorem Stmt.start_does (stmt : Stmt) (rest : List Stmt) :
    (Task.stmts (stmt :: rest)).Does config m
      ((stmt.start config m).1 ++ [.stmts rest], (stmt.start config m).2) := by
  have hrest := Task.partOf_stmts_cons stmt rest
  have hstmt : stmt.inside ⊆ insideAll (stmt :: rest) := inside_subset_insideAll_cons stmt rest
  have hbody {task : Task} (hleave : task.isLeave = false)
      (hblock : insideAll task.block ⊆ stmt.inside)
      (horigin : ∀ program, stmt ∈ insideAll program → task.From program) :
      task.PartOf (.stmts (stmt :: rest)) :=
    ⟨hleave, List.Subset.trans hblock hstmt,
      fun program h => horigin program (h (hstmt (mem_inside_self stmt)))⟩
  -- most statements only look: they report, and go on with the rest or with one part first
  have hlook (notices : List Notice) (hlooks : (Task.stmts (stmt :: rest)).looks = true) :
      (Task.stmts (stmt :: rest)).Does config m
        ([] ++ [.stmts rest], .done (m.sayAll stmt.place notices)) :=
    .look stmt.place notices hlooks (List.forall_mem_singleton.2 hrest) (Or.inr rfl)
  have hgo {task : Task} (notices : List Notice)
      (hlooks : (Task.stmts (stmt :: rest)).looks = true)
      (hpart : task.PartOf (.stmts (stmt :: rest))) :
      (Task.stmts (stmt :: rest)).Does config m
        ([task] ++ [.stmts rest], .done (m.sayAll stmt.place notices)) :=
    .look stmt.place notices hlooks
      (List.forall_mem_cons.2 ⟨hpart, List.forall_mem_singleton.2 hrest⟩) (Or.inr rfl)
  cases stmt with
  | whileLoop place cond body =>
    refine hgo [] rfl (hbody rfl ?_ fun program h => h)
    rw [Stmt.inside]
    exact List.subset_cons_self _ _
  | forLoop place header body =>
    obtain ⟨⟨start, stop, step⟩, notices, hrange⟩ := (isQuery_forRange config place header).apply m
    rw [Stmt.start, hrange]
    by_cases hzero : step.abs < tolerance
    · simp only [if_pos hzero]
      rw [report, say_sayAll]
      exact hlook _ rfl
    · simp only [if_neg hzero]
      refine hgo notices rfl (hbody rfl ?_ fun program h => ⟨header, rfl, h⟩)
      rw [Stmt.inside]
      exact List.subset_cons_self _ _
  | ifThen place cond thenBody =>
    obtain ⟨_ | _, notices, htest⟩ := (isQuery_test config.evalMode place cond).apply m
    all_goals rw [Stmt.start, htest]
    · exact hlook notices rfl
    · have hthen : insideAll thenBody ⊆ (Stmt.ifThen place cond thenBody).inside := by
        rw [Stmt.inside]
        exact List.subset_cons_self _ _
      exact hgo notices rfl (hbody rfl hthen fun program h =>
        List.Subset.trans hthen (insideAll_trans program h))
  | ifElse place cond thenBody elseBody =>
    obtain ⟨_ | _, notices, htest⟩ := (isQuery_test config.evalMode place cond).apply m
    all_goals rw [Stmt.start, htest]
    · have helse : insideAll elseBody ⊆ (Stmt.ifElse place cond thenBody elseBody).inside := by
        rw [Stmt.inside]
        exact List.subset_cons_of_subset _ (List.subset_append_right _ _)
      exact hgo notices rfl (hbody rfl helse fun program h =>
        List.Subset.trans helse (insideAll_trans program h))
    · have hthen : insideAll thenBody ⊆ (Stmt.ifElse place cond thenBody elseBody).inside := by
        rw [Stmt.inside]
        exact List.subset_cons_of_subset _ (List.subset_append_left _ _)
      exact hgo notices rfl (hbody rfl hthen fun program h =>
        List.Subset.trans hthen (insideAll_trans program h))
  | method place header lines body => exact .register place header lines body rest _
  | call place name args =>
    rw [Stmt.start]
    rcases rejects_or_enters config m name args with ⟨cause, hrejects⟩ | ⟨method, henters⟩
    · rw [hrejects.startCall_eq]
      exact hlook [.problem (.resolution cause)] rfl
    · rw [henters.startCall_eq]
      exact .enter place rest henters
  | command place cmd => exact .command place cmd rest

/-- Every step does one of the things listed in `Task.Does`. -/
theorem Task.step_does (task : Task) : task.Does config m (task.step config m) := by
  cases task with
  | leave place name => exact .leave place name
  | stmts stmts =>
    cases stmts with
    | nil => exact .look ⟨0, ⟨0, 0⟩⟩ [] rfl (List.forall_mem_nil _) (Or.inl rfl)
    | cons stmt rest => exact stmt.start_does config m rest
  | whileLoop place cond body made =>
    obtain ⟨_ | _, notices, htest⟩ := (isQuery_test config.evalMode place cond).apply m
    all_goals rw [Task.step, htest]
    · exact .look place notices rfl (List.forall_mem_nil _) (Or.inr rfl)
    · by_cases hmade : made = config.maxIterations
      · simp only [if_true, if_pos hmade]
        rw [warn, say_sayAll]
        exact .look place _ rfl (List.forall_mem_nil _) (Or.inr rfl)
      · simp only [if_true, if_neg hmade]
        have hbody : (Task.stmts body).PartOf (.whileLoop place cond body made) :=
          ⟨rfl, List.Subset.refl _, fun program h =>
            bodies_subset_insideAll (Stmt.inside.eq_1 place cond body) h⟩
        have hloop : (Task.whileLoop place cond body (made + 1)).PartOf
            (.whileLoop place cond body made) :=
          ⟨rfl, List.Subset.refl _, fun program h => h⟩
        exact .look place notices rfl
          (List.forall_mem_cons.2 ⟨hbody, List.forall_mem_singleton.2 hloop⟩) (Or.inr rfl)
  | forLoop place var stop step body counter made =>
    rw [Task.step]
    by_cases hrange : inRange counter stop step = true
    · by_cases hmade : made = config.maxIterations
      · simp only [if_pos hrange, if_pos hmade]
        exact .endFor place var stop step body counter made [.warning _]
      · simp only [if_pos hrange, if_neg hmade]
        exact .round place var stop step body counter made
    · simp only [if_neg hrange]
      exact .endFor place var stop step body counter made []

theorem isLeave_of_looks {task : Task} (h : task.looks = true) : task.isLeave = false := by
  cases task with
  | leave place name => cases h
  | stmts stmts => rfl
  | whileLoop place cond body made => rfl
  | forLoop place var stop step body counter made => rfl

/-- A step leaves a call, or enters one, or else it obeys every law of runs and leaves no call to be
left. -/
theorem RunLaw.step_cases {R : Machine σ → Outcome σ → Prop} (law : RunLaw R) (task : Task) :
    (∃ place name, task = .leave place name) ∨
    (∃ place name args rest method, task = .stmts (.call place name args :: rest) ∧
      Enters config m name args method) ∨
    (task.isLeave = false ∧ R m (task.step config m).2 ∧
      ∀ task' ∈ (task.step config m).1, task'.isLeave = false) := by
  have hdoes := task.step_does config m
  generalize task.step config m = next at hdoes
  cases hdoes with
  | leave place name => exact Or.inl ⟨place, name, rfl⟩
  | enter place rest henters => exact Or.inr (Or.inl ⟨place, _, _, rest, _, rfl, henters⟩)
  | register place header lines body rest notice =>
    exact Or.inr (Or.inr ⟨rfl,
      law.seq (law.say m place notice) (law.register _ ⟨header, lines, body⟩),
      List.forall_mem_singleton.2 rfl⟩)
  | command place cmd rest =>
    exact Or.inr (Or.inr ⟨rfl, law.command config place cmd m, List.forall_mem_singleton.2 rfl⟩)
  | round place var stop step body counter made =>
    exact Or.inr (Or.inr ⟨rfl, law.set m var _,
      List.forall_mem_cons.2 ⟨rfl, List.forall_mem_singleton.2 rfl⟩⟩)
  | endFor place var stop step body counter made notices =>
    exact Or.inr (Or.inr ⟨rfl, law.seq (law.sayAll place notices m) (law.remove _ var),
      List.forall_mem_nil _⟩)
  | look place notices htask htasks hplace =>
    exact Or.inr (Or.inr ⟨isLeave_of_looks htask, law.sayAll place notices m,
      fun task' htask' => (htasks task' htask').isLeave⟩)

end

/-! ## Stages and paths -/

namespace Stage

/-- The machine at a stage. -/
def machine (s : Stage σ) : Machine σ :=
  s.outcome.machine

/-- The next stage, unless the run is over. -/
def next? [Surface σ] (config : Config) (s : Stage σ) : Option (Stage σ) :=
  match s.tasks, s.outcome with
  | [], _ => none
  | task :: rest, .done m =>
    let (tasks, outcome) := task.step config m
    some ⟨tasks ++ rest, outcome⟩
  | task :: rest, .stopped e m => some ⟨rest, task.giveUp (.stopped e m)⟩

/-- The start of a run of statements. -/
def start (stmts : List Stmt) (m : Machine σ) : Stage σ :=
  ⟨[.stmts stmts], .done m⟩

end Stage

/-- A step goes on with the first task, or gives it up. -/
inductive Stage.Moves [Surface σ] (config : Config) : Stage σ → Stage σ → Prop
  | goOn (task : Task) (rest : List Task) (m : Machine σ) :
      Moves config ⟨task :: rest, .done m⟩ ⟨(task.step config m).1 ++ rest, (task.step config m).2⟩
  | giveUp (task : Task) (rest : List Task) (e : CanvasError) (m : Machine σ) :
      Moves config ⟨task :: rest, .stopped e m⟩ ⟨rest, task.giveUp (.stopped e m)⟩

/-- Every step from one stage to the next is one of the moves. -/
theorem moves_of_next? [Surface σ] {config : Config} {s s' : Stage σ}
    (hnext : s.next? config = some s') : s.Moves config s' := by
  obtain ⟨tasks, outcome⟩ := s
  cases tasks with
  | nil => cases hnext
  | cons task rest =>
    cases outcome with
    | done m =>
      obtain rfl := Option.some.inj hnext
      exact .goOn task rest m
    | stopped e m =>
      obtain rfl := Option.some.inj hnext
      exact .giveUp task rest e m

/-- Steps lead from a stage to another, through the stages visited on the way. -/
inductive Path [Surface σ] (config : Config) : Stage σ → List (Stage σ) → Stage σ → Prop
  | refl (s : Stage σ) : Path config s [] s
  | step {s s' last : Stage σ} {visited : List (Stage σ)} (hnext : s.next? config = some s')
      (hpath : Path config s' visited last) : Path config s (s :: visited) last

section

variable [Surface σ] {config : Config}

theorem Path.trans {s s' s'' : Stage σ} {visited visited' : List (Stage σ)}
    (h : Path config s visited s') (h' : Path config s' visited' s'') :
    Path config s (visited ++ visited') s'' := by
  induction h with
  | refl s => exact h'
  | step hnext _ ih => exact .step hnext (ih h')

/-- The stages of up to `n` steps, and the stage after them. -/
def Stage.steps (config : Config) : Nat → Stage σ → List (Stage σ) × Stage σ
  | 0, s => ([], s)
  | n + 1, s =>
    match s.next? config with
    | none => ([], s)
    | some s' => (s :: (s'.steps config n).1, (s'.steps config n).2)

/-- Counting steps gives a path. -/
theorem path_steps (config : Config) (n : Nat) (s : Stage σ) :
    Path config s (s.steps config n).1 (s.steps config n).2 := by
  induction n generalizing s with
  | zero => exact .refl s
  | succ n ih =>
    rw [Stage.steps]
    cases hnext : s.next? config with
    | none => exact .refl s
    | some s' => exact .step hnext (ih s')

/-- A run that is over has gone one way only. -/
theorem Path.unique {s : Stage σ} {visited visited' : List (Stage σ)} {o o' : Outcome σ}
    (h : Path config s visited ⟨[], o⟩) (h' : Path config s visited' ⟨[], o'⟩) :
    visited = visited' ∧ o = o' := by
  generalize hlast : (⟨[], o⟩ : Stage σ) = last at h
  induction h generalizing visited' with
  | refl s =>
    subst hlast
    cases h' with
    | refl => exact ⟨rfl, rfl⟩
    | step hnext _ => cases hnext
  | step hnext _ ih =>
    cases h' with
    | refl => cases hnext
    | step hnext' hpath' =>
      cases hnext.symm.trans hnext'
      obtain ⟨rfl, rfl⟩ := ih hpath' hlast
      exact ⟨rfl, rfl⟩

/-- What every step keeps holds all along a path. -/
theorem Path.invariant {P : Stage σ → Prop}
    (hstep : ∀ s s', P s → s.next? config = some s' → P s') {s last : Stage σ}
    {visited : List (Stage σ)} (h : Path config s visited last) (hs : P s) :
    (∀ s' ∈ visited, P s') ∧ P last := by
  induction h with
  | refl s => exact ⟨fun s' hs' => absurd hs' List.not_mem_nil, hs⟩
  | step hnext _ ih =>
    obtain ⟨hvisited, hlast⟩ := ih (hstep _ _ hs hnext)
    exact ⟨List.forall_mem_cons.2 ⟨hs, hvisited⟩, hlast⟩

end

/-! ## Running calls -/

/-- The number of calls that are to be left. -/
def callsLeft (tasks : List Task) : Nat :=
  (tasks.filter Task.isLeave).length

/-- The number of calls that are to be left at a stage. -/
def Stage.calls (s : Stage σ) : Nat :=
  callsLeft s.tasks

/-- Above some running calls there are just those that are to be left. -/
def Stage.Over (base : List Frame) (s : Stage σ) : Prop :=
  ∃ inner, inner.length = s.calls ∧ s.machine.frames = inner ++ base

theorem callsLeft_append {tasks : List Task} (htasks : ∀ task ∈ tasks, task.isLeave = false)
    (rest : List Task) : callsLeft (tasks ++ rest) = callsLeft rest := by
  have hnone : tasks.filter Task.isLeave = [] :=
    List.filter_eq_nil_iff.2 fun task htask => Bool.eq_false_iff.1 (htasks task htask)
  rw [callsLeft, List.filter_append, hnone, List.nil_append, callsLeft]

theorem callsLeft_cons {task : Task} (htask : task.isLeave = false) (rest : List Task) :
    callsLeft (task :: rest) = callsLeft rest :=
  callsLeft_append (List.forall_mem_singleton.2 htask) rest

theorem giveUp_of_not_leave {task : Task} (htask : task.isLeave = false) (o : Outcome σ) :
    task.giveUp o = o := by
  cases task with
  | leave place name => cases htask
  | stmts stmts => rfl
  | whileLoop place cond body made => rfl
  | forLoop place var stop step body counter made => rfl

theorem eq_leave_of_isLeave {task : Task} (htask : task.isLeave = true) :
    ∃ place name, task = .leave place name := by
  cases task with
  | leave place name => exact ⟨place, name, rfl⟩
  | stmts stmts => cases htask
  | whileLoop place cond body made => cases htask
  | forLoop place var stop step body counter made => cases htask

theorem Stage.Over.leave {base : List Frame} {place : Place} {name : String} {rest : List Task}
    {o : Outcome σ} (h : Stage.Over base ⟨.leave place name :: rest, o⟩) :
    Stage.Over base ⟨rest, o.leave place name⟩ := by
  obtain ⟨inner, hlength, hframes⟩ := h
  cases inner with
  | nil => cases hlength
  | cons frame inner =>
    refine ⟨inner, Nat.succ.inj hlength, ?_⟩
    cases o with
    | done m => exact congrArg List.tail hframes
    | stopped e m => exact congrArg List.tail hframes

/-- A step keeps the calls that were running before the run under those that it has entered. -/
theorem Stage.Over.next [Surface σ] {config : Config} {base : List Frame} {s s' : Stage σ}
    (h : s.Over base) (hnext : s.next? config = some s') : s'.Over base := by
  cases moves_of_next? hnext with
  | goOn task rest m =>
    rcases runLaw_keeps.step_cases config m task with
      ⟨place, name, rfl⟩ | ⟨place, name, args, stmts, method, rfl, henters⟩ |
      ⟨htask, hkeeps, htasks⟩
    · exact h.leave
    · obtain ⟨inner, hlength, hframes⟩ := h
      obtain ⟨scope, notices, hentered⟩ := entered_eq config place name args method m
      rw [henters.step_eq, hentered]
      exact ⟨⟨method.name, name⟩ :: inner, congrArg (· + 1) hlength,
        congrArg (List.cons (⟨method.name, name⟩ : Frame)) hframes⟩
    · obtain ⟨inner, hlength, hframes⟩ := h
      have hcalls := (callsLeft_cons htask rest).trans (callsLeft_append htasks rest).symm
      exact ⟨inner, hlength.trans hcalls, hkeeps.frames.trans hframes⟩
  | giveUp task rest e m =>
    by_cases htask : task.isLeave = true
    · obtain ⟨place, name, rfl⟩ := eq_leave_of_isLeave htask
      exact h.leave
    · have hplain := Bool.eq_false_iff.2 htask
      obtain ⟨inner, hlength, hframes⟩ := h
      rw [giveUp_of_not_leave hplain]
      exact ⟨inner, hlength.trans (callsLeft_cons hplain rest), hframes⟩

/-- Steps lead from a stage to another. -/
def Leads [Surface σ] (config : Config) (s s' : Stage σ) : Prop :=
  ∃ visited, Path config s visited s'

namespace Leads

variable [Surface σ] {config : Config} {s s' s'' : Stage σ}

theorem refl (s : Stage σ) : Leads config s s :=
  ⟨[], .refl s⟩

theorem head (hnext : s.next? config = some s') (h : Leads config s' s'') :
    Leads config s s'' := by
  obtain ⟨visited, hpath⟩ := h
  exact ⟨s :: visited, .step hnext hpath⟩

theorem trans (h : Leads config s s') (h' : Leads config s' s'') : Leads config s s'' := by
  obtain ⟨visited, hpath⟩ := h
  obtain ⟨visited', hpath'⟩ := h'
  exact ⟨visited ++ visited', hpath.trans hpath'⟩

/-- A step of the first task, and then the way from what it has left to do. -/
theorem task {task : Task} {rest : List Task} {m : Machine σ}
    (h : Leads config ⟨(task.step config m).1 ++ rest, (task.step config m).2⟩ s') :
    Leads config ⟨task :: rest, .done m⟩ s' :=
  head rfl h

/-- A run that is stopped gives the next task up, and one that is not goes on with it. -/
theorem andThen {task : Task} {rest : List Task} {o : Outcome σ} {next : Machine σ → Outcome σ}
    (hgiveUp : ∀ o : Outcome σ, task.giveUp o = o)
    (hnext : ∀ m, o = .done m → Leads config ⟨task :: rest, .done m⟩ ⟨rest, next m⟩) :
    Leads config ⟨task :: rest, o⟩ ⟨rest, o.andThen next⟩ := by
  cases o with
  | done m => exact hnext m rfl
  | stopped e m =>
    have hnext : Stage.next? config ⟨task :: rest, .stopped e m⟩ = some ⟨rest, .stopped e m⟩ := by
      rw [Stage.next?]
      dsimp only
      rw [hgiveUp]
    exact head hnext (refl _)

end Leads

/-! ## The steps of a run -/

section

variable [Surface σ] (config : Config)

/-- With `n` running calls, the steps of the statements lead to what the run yields. -/
def Completes (n : Nat) (stmts : List Stmt) (run : Machine σ → Outcome σ) : Prop :=
  ∀ m rest, m.frames.length = n → Leads config ⟨.stmts stmts :: rest, .done m⟩ ⟨rest, run m⟩

variable {config} {n : Nat} {body : List Stmt} {run : Machine σ → Outcome σ}

/-- The rounds made and the rounds left make up the limit. -/
theorem Completes.whileLoop (hbody : Completes config n body run)
    (hkeeps : ∀ m, (run m).machine.frames = m.frames) (place : Place) (cond : String)
    (rest : List Task) {made rounds : Nat} (hrounds : made + rounds = config.maxIterations)
    (m : Machine σ) (hn : m.frames.length = n) :
    Leads config ⟨.whileLoop place cond body made :: rest, .done m⟩
      ⟨rest, m.whileLoop config place cond run rounds⟩ := by
  induction rounds generalizing made m with
  | zero =>
    obtain rfl : made = config.maxIterations := hrounds
    refine .task ?_
    rw [whileLoop_zero, branch, Task.step]
    rcases m.test config.evalMode place cond with ⟨_ | _, after⟩
    · exact .refl _
    · simp only [if_true]
      exact .refl _
  | succ rounds ih =>
    have hmade : made ≠ config.maxIterations := by omega
    have htest := runLaw_keeps.query (isQuery_test (σ := σ) config.evalMode place cond) m
    refine .task ?_
    rw [whileLoop_succ, branch, Task.step]
    generalize m.test config.evalMode place cond = tested at htest
    obtain ⟨_ | _, after⟩ := tested
    · exact .refl _
    · simp only [if_true, if_neg hmade]
      have hafter : after.frames.length = n := (congrArg List.length htest.frames).trans hn
      refine (hbody after _ hafter).trans (.andThen (fun _ => rfl) fun m' hm' => ?_)
      -- the next round starts with as many running calls as this one
      have hframes := hkeeps after
      rw [hm'] at hframes
      exact ih (by omega) m' ((congrArg List.length hframes).trans hafter)

theorem Completes.forRounds (hbody : Completes config n body run)
    (hkeeps : ∀ m, (run m).machine.frames = m.frames) (place : Place) (var : String)
    (stop step : Float) (rest : List Task) {made rounds : Nat}
    (hrounds : made + rounds = config.maxIterations) (counter : Float) (m : Machine σ)
    (hn : m.frames.length = n) :
    Leads config ⟨.forLoop place var stop step body counter made :: rest, .done m⟩
      ⟨rest, (m.forRounds config place var stop step run rounds counter).andThen
        fun m => .done (m.remove var)⟩ := by
  induction rounds generalizing made counter m with
  | zero =>
    obtain rfl : made = config.maxIterations := hrounds
    refine .task ?_
    rw [Machine.forRounds, Task.step]
    by_cases hrange : inRange counter stop step = true
    · simp only [if_pos hrange, if_true]
      exact .refl _
    · simp only [if_neg hrange]
      exact .refl _
  | succ rounds ih =>
    have hmade : made ≠ config.maxIterations := by omega
    refine .task ?_
    rw [forRounds_succ, Task.step]
    by_cases hrange : inRange counter stop step = true
    · simp only [if_pos hrange, if_neg hmade]
      have hround := hbody (m.set var (Value.ofFloat counter))
        (.forLoop place var stop step body (counter + step) (made + 1) :: rest) hn
      have hframes := hkeeps (m.set var (Value.ofFloat counter))
      refine hround.trans ?_
      generalize run (m.set var (Value.ofFloat counter)) = ending at hframes ⊢
      cases ending with
      | done m' => exact ih (by omega) (counter + step) m' ((congrArg List.length hframes).trans hn)
      | stopped e m' => exact .head rfl (.refl _)
    · simp only [if_neg hrange]
      exact .refl _

/-! ## Calls and statements -/

variable {runMethod : List Stmt → Machine σ → Outcome σ}

/-- The tasks that a call leaves lead to the outcome of the call, if the bodies of methods
complete. -/
theorem leads_call (hmethod : n < config.maxCallDepth →
      ∀ body, Completes config (n + 1) body (runMethod body))
    (place : Place) (name : String) (args : List String) (rest : List Task) (m : Machine σ)
    (hn : m.frames.length = n) :
    Leads config
      ⟨(m.startCall config place name args).1 ++ rest, (m.startCall config place name args).2⟩
      ⟨rest, m.call config runMethod place name args⟩ := by
  rcases rejects_or_enters config m name args with ⟨cause, hrejects⟩ | ⟨method, henters⟩
  · rw [hrejects.startCall_eq, hrejects.call_eq]
    exact .refl _
  · rw [henters.startCall_eq, henters.call_eq]
    have hbody := hmethod (hn ▸ henters.depth) method.body
      (m.entered config place name args method) (.leave place name :: rest)
      ((length_frames_entered config place name args method m).trans (congrArg (· + 1) hn))
    refine hbody.trans ?_
    -- a call is left whether its body is done or stopped
    cases runMethod method.body (m.entered config place name args method) with
    | done after => exact .head rfl (.refl _)
    | stopped e after => exact .head rfl (.refl _)

mutual

/-- The tasks that a statement leaves lead to its outcome, if the bodies of methods complete. -/
theorem leads_stmt (hkeeps : ∀ body m, Keeps m (runMethod body m).machine)
    (hmethod : n < config.maxCallDepth → ∀ body, Completes config (n + 1) body (runMethod body)) :
    ∀ (stmt : Stmt) (rest : List Task) (m : Machine σ), m.frames.length = n →
      Leads config ⟨(stmt.start config m).1 ++ rest, (stmt.start config m).2⟩
        ⟨rest, stmt.run config runMethod m⟩
  | .whileLoop place cond body, rest, m, hn => by
    rw [Stmt.start, Stmt.run]
    exact (completes_runAll hkeeps hmethod body).whileLoop
      (fun m => (runLaw_keeps.runAll config hkeeps body m).frames) place cond rest
      (Nat.zero_add _) m hn
  | .forLoop place header body, rest, m, hn => by
    have hrange := runLaw_keeps.query (isQuery_forRange (σ := σ) config place header) m
    rw [Stmt.start, Stmt.run, forLoop_eq]
    generalize m.forRange config place header = range at hrange
    obtain ⟨⟨start, stop, step⟩, after⟩ := range
    by_cases hzero : step.abs < tolerance
    · simp only [if_pos hzero]
      exact .refl _
    · simp only [if_neg hzero]
      exact (completes_runAll hkeeps hmethod body).forRounds
        (fun m => (runLaw_keeps.runAll config hkeeps body m).frames) place header.var stop step rest
        (Nat.zero_add _) start after ((congrArg List.length hrange.frames).trans hn)
  | .ifThen place cond thenBody, rest, m, hn => by
    have htest := runLaw_keeps.query (isQuery_test (σ := σ) config.evalMode place cond) m
    rw [Stmt.start, Stmt.run]
    generalize m.test config.evalMode place cond = tested at htest
    obtain ⟨_ | _, after⟩ := tested
    · exact .refl _
    · exact completes_runAll hkeeps hmethod thenBody after rest
        ((congrArg List.length htest.frames).trans hn)
  | .ifElse place cond thenBody elseBody, rest, m, hn => by
    have htest := runLaw_keeps.query (isQuery_test (σ := σ) config.evalMode place cond) m
    rw [Stmt.start, Stmt.run]
    generalize m.test config.evalMode place cond = tested at htest
    obtain ⟨_ | _, after⟩ := tested
    · exact completes_runAll hkeeps hmethod elseBody after rest
        ((congrArg List.length htest.frames).trans hn)
    · exact completes_runAll hkeeps hmethod thenBody after rest
        ((congrArg List.length htest.frames).trans hn)
  | .method place header lines body, rest, m, _ => by
    rw [Stmt.start, Stmt.run]
    exact .refl _
  | .call place name args, rest, m, hn => by
    rw [Stmt.start, Stmt.run]
    exact leads_call hmethod place name args rest m hn
  | .command place cmd, rest, m, _ => by
    rw [Stmt.start, Stmt.run]
    exact .refl _

/-- Statements in a row complete if the bodies of methods do. -/
theorem completes_runAll (hkeeps : ∀ body m, Keeps m (runMethod body m).machine)
    (hmethod : n < config.maxCallDepth → ∀ body, Completes config (n + 1) body (runMethod body)) :
    ∀ stmts : List Stmt, Completes config n stmts (runAll config runMethod stmts)
  | [] => fun m rest _ => by
    rw [runAll]
    exact .task (.refl _)
  | stmt :: stmts => fun m rest hn => by
    have hframes := (runLaw_keeps.stmt config hkeeps stmt m).frames
    rw [runAll_cons]
    refine .task ?_
    rw [Task.step]
    simp only [List.append_assoc, List.singleton_append]
    refine (leads_stmt hkeeps hmethod stmt (.stmts stmts :: rest) m hn).trans
      (.andThen (fun _ => rfl) fun m' hm' => ?_)
    rw [hm'] at hframes
    exact completes_runAll hkeeps hmethod stmts m' rest ((congrArg List.length hframes).trans hn)

end

end

/-- The steps of a run lead to its outcome, by induction on the room for nested calls. The room has
to be enough for the calls that the limit still allows. -/
theorem leads_runBody [Surface σ] (config : Config) (room : Nat) (stmts : List Stmt)
    (m : Machine σ) (rest : List Task) (hroom : config.maxCallDepth ≤ room + m.frames.length) :
    Leads config ⟨.stmts stmts :: rest, .done m⟩ ⟨rest, runBody config room stmts m⟩ := by
  induction room generalizing stmts m rest with
  | zero =>
    rw [runBody_eq_runAll]
    refine completes_runAll (runLaw_keeps.runMethod config 0) (fun hn => ?_) stmts m rest rfl
    -- the calls that are running have used up the depth: no body is entered
    omega
  | succ room ih =>
    rw [runBody_eq_runAll]
    refine completes_runAll (runLaw_keeps.runMethod config (room + 1)) (fun _ body => ?_) stmts m
      rest rfl
    intro m' rest' hm'
    exact ih body m' rest' (by omega)

/-- The way of a run to its end says what it computes. -/
theorem runBody_eq_of_path [Surface σ] {config : Config} {room : Nat} {stmts : List Stmt}
    {m : Machine σ} (hroom : config.maxCallDepth ≤ room + m.frames.length)
    {visited : List (Stage σ)} {o : Outcome σ}
    (hpath : Path config (.start stmts m) visited ⟨[], o⟩) : runBody config room stmts m = o := by
  obtain ⟨visited', hpath'⟩ := leads_runBody config room stmts m [] hroom
  exact (hpath'.unique hpath).2

/-! ## Two configurations -/

section

variable [Surface σ] {config config' : Config} {P : Stage σ → Prop}

/-- If two configurations make the same steps from all stages of a kind that is never left, then a
path for one is a path for the other. -/
theorem Path.congr (hkept : ∀ s s', P s → s.next? config = some s' → P s')
    (hsame : ∀ s, P s → s.next? config' = s.next? config) {s last : Stage σ}
    {visited : List (Stage σ)} (h : Path config s visited last) (hs : P s) :
    Path config' s visited last := by
  induction h with
  | refl s => exact .refl s
  | step hnext _ ih => exact .step ((hsame _ hs).trans hnext) (ih (hkept _ _ hs hnext))

/-- Two configurations run statements alike if they agree on every step from the stages of an
invariant. -/
theorem runBody_eq_of_next? (hkept : ∀ s s', P s → s.next? config = some s' → P s')
    (hsame : ∀ s, P s → s.next? config' = s.next? config) (stmts : List Stmt) (m : Machine σ)
    (hstart : P (.start stmts m)) {room room' : Nat}
    (hroom : config.maxCallDepth ≤ room + m.frames.length)
    (hroom' : config'.maxCallDepth ≤ room' + m.frames.length) :
    runBody config' room' stmts m = runBody config room stmts m := by
  obtain ⟨visited, hpath⟩ := leads_runBody config room stmts m [] hroom
  exact runBody_eq_of_path hroom' (hpath.congr hkept hsame hstart)

/-- The step of a task depends on the mode of evaluation, the limit on rounds, and the start of a
call. -/
theorem Task.step_congr (hmode : config'.evalMode = config.evalMode)
    (hrounds : config'.maxIterations = config.maxIterations) (m : Machine σ) (task : Task)
    (hcall : ∀ place name args rest, task = .stmts (.call place name args :: rest) →
      m.startCall config' place name args = m.startCall config place name args) :
    task.step config' m = task.step config m := by
  cases task with
  | leave place name => rfl
  | whileLoop place cond body made => simp only [Task.step, hmode, hrounds]
  | forLoop place var stop step body counter made => simp only [Task.step, hrounds]
  | stmts stmts =>
    cases stmts with
    | nil => rfl
    | cons stmt rest =>
      have hstart : stmt.start config' m = stmt.start config m := by
        cases stmt with
        | whileLoop place cond body => rfl
        | forLoop place header body =>
          have hrange : m.forRange config' place header = m.forRange config place header := by
            simp only [forRange, forStep_congr hmode, hmode]
          simp only [Stmt.start, hrange]
        | ifThen place cond thenBody => simp only [Stmt.start, hmode]
        | ifElse place cond thenBody elseBody => simp only [Stmt.start, hmode]
        | method place header lines body => rfl
        | call place name args => exact hcall place name args rest rfl
        | command place cmd =>
          exact congrArg (fun o => ([], o)) (command_congr hmode place cmd m)
      simp only [Task.step, hstart]

theorem Stage.next?_congr {s : Stage σ}
    (hsame : ∀ task rest m, s = ⟨task :: rest, .done m⟩ →
      task.step config' m = task.step config m) :
    s.next? config' = s.next? config := by
  obtain ⟨tasks, outcome⟩ := s
  cases tasks with
  | nil => rfl
  | cons task rest =>
    cases outcome with
    | done m => simp only [Stage.next?, hsame task rest m rfl]
    | stopped e m => rfl

/-- A run does not depend on how its configuration would have the scopes kept: that is a matter of
the machine. -/
theorem runBody_scopeMode (config : Config) (mode : ScopeMode) (stmts : List Stmt) (m : Machine σ)
    {room : Nat} (hroom : config.maxCallDepth ≤ room + m.frames.length) :
    runBody { config with scopeMode := mode } room stmts m = runBody config room stmts m := by
  have hmode : ({ config with scopeMode := mode } : Config).evalMode = config.evalMode := rfl
  refine runBody_eq_of_next? (P := fun _ => True) (fun _ _ _ _ => trivial) (fun s _ => ?_) stmts m
    trivial hroom hroom
  refine Stage.next?_congr fun task rest m _ => ?_
  refine Task.step_congr hmode rfl m task fun place name args _ _ => ?_
  simp only [startCall, entered_congr hmode]

end

end Drawscript
