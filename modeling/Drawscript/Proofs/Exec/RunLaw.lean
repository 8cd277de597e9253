import Drawscript.Proofs.Exec.Call
import Drawscript.Proofs.Exec.Flow
import Drawscript.Proofs.Exec.Plan

/-!
# Laws of runs

A law relates the machine before a run to the outcome of the run. A run of statements is made of a
few elementary changes to the machine, one after the other, and of calls, which make some variables
active for the time of a body. A law that holds of the elementary changes, of two runs one after the
other, and of a call whenever it holds of the body (`RunLaw`) holds of every run
(`RunLaw.runBody`), whatever the limits, and whether the run is done or stopped by the surface.
-/

set_option autoImplicit false

namespace Drawscript

open Machine

variable {σ α : Type}

/-- A relation between a machine and the outcome of a run that every elementary change respects. -/
structure RunLaw [Surface σ] (R : Machine σ → Outcome σ → Prop) : Prop where
  done : ∀ m, R m (.done m)
  seq : ∀ {m m' : Machine σ} {o : Outcome σ}, R m (.done m') → R m' o → R m o
  say : ∀ m place notice, R m (.done (m.say place notice))
  set : ∀ m name value, R m (.done (m.set name value))
  remove : ∀ m name, R m (.done (m.remove name))
  setArrays : ∀ m arrays, R m (.done (m.setArrays arrays))
  register : ∀ m method, R m (.done { m with store := m.store.register method })
  perform : ∀ m request, R m (m.perform request)
  finish : ∀ {m m' : Machine σ} (method name : String) (scope : Scope),
    R (m.enterCall method name scope) (.done m') → R m (.done (m'.leaveCall name).2)
  abort : ∀ {m m' : Machine σ} {e : CanvasError} (method name : String) (scope : Scope),
    R (m.enterCall method name scope) (.stopped e m') → R m (.stopped e (m'.leaveCall name).2)

namespace RunLaw

variable [Surface σ] {R : Machine σ → Outcome σ → Prop}

/-! ## Commands -/

theorem sayAll (law : RunLaw R) (place : Place) (notices : List Notice) (m : Machine σ) :
    R m (.done (m.sayAll place notices)) := by
  induction notices generalizing m with
  | nil => exact law.done m
  | cons notice rest ih =>
    rw [sayAll_cons]
    exact law.seq (law.say m place notice) (ih _)

theorem setAll (law : RunLaw R) (bindings : List (String × Value)) (m : Machine σ) :
    R m (.done (m.setAll bindings)) := by
  induction bindings generalizing m with
  | nil => exact law.done m
  | cons binding rest ih => exact law.seq (law.set m binding.1 binding.2) (ih _)

/-- A law holds of whatever a plan brings about: reports first, then its effect. -/
theorem carryOut (law : RunLaw R) (place : Place) (plan : Plan) (m : Machine σ) :
    R m (m.carryOut place plan) := by
  have hsay := law.sayAll place plan.notices m
  unfold Machine.carryOut
  cases plan.effect with
  | keep => exact hsay
  | bind bindings => exact law.seq hsay (law.setAll bindings _)
  | arrays arrays => exact law.seq hsay (law.setArrays _ arrays)
  | request request => exact law.seq hsay (law.perform _ request)

/-- A law holds of every command, since each has a plan for what it sees. -/
theorem command (law : RunLaw R) (config : Config) (place : Place) (cmd : Command)
    (m : Machine σ) : R m (m.command config place cmd) := by
  obtain ⟨plan, hplan⟩ := planned_command (σ := σ) config place cmd m.view
  have hrun : m.command config place cmd = m.carryOut place plan := (hplan m rfl).run
  rw [hrun]
  exact law.carryOut place plan m

/-- A law holds of every evaluation, which can only report. -/
theorem query (law : RunLaw R) {place : Place} {ask : Machine σ → α × Machine σ}
    (hask : IsQuery place ask) (m : Machine σ) : R m (.done (ask m).2) := by
  obtain ⟨answer, hanswer⟩ := hask
  rw [hanswer m]
  exact law.sayAll place _ m

/-! ## Flow of control -/

/-- If the surface stops the first step, the second is not made and the law holds already. -/
theorem andThen (law : RunLaw R) {m : Machine σ} {o : Outcome σ} {next : Machine σ → Outcome σ}
    (h : R m o) (hnext : ∀ m, R m (next m)) : R m (o.andThen next) := by
  cases o with
  | done after => exact law.seq h (hnext after)
  | stopped e after => exact h

theorem branch (law : RunLaw R) (config : Config) (place : Place) (cond : String)
    {yes no : Machine σ → Outcome σ} (hyes : ∀ m, R m (yes m)) (hno : ∀ m, R m (no m))
    (m : Machine σ) : R m (m.branch config place cond yes no) := by
  -- the problems met in the condition are reported before either way is taken
  refine law.seq (law.query (isQuery_test config.evalMode place cond) m) ?_
  by_cases hholds : (m.test config.evalMode place cond).1 = true
  · rw [branch_of_true hholds]
    exact hyes _
  · rw [branch_of_false hholds]
    exact hno _

/-- A law holds of a call if it holds of the bodies of methods. A call that is rejected is a report;
one that is entered ends in `finish` or in `abort`, as its body does. -/
theorem call (law : RunLaw R) (config : Config) {runMethod : List Stmt → Machine σ → Outcome σ}
    (hrun : ∀ body m, R m (runMethod body m)) (place : Place) (name : String)
    (args : List String) (m : Machine σ) : R m (m.call config runMethod place name args) := by
  rcases rejects_or_enters config m name args with ⟨cause, hrejects⟩ | ⟨method, henters⟩
  · rw [hrejects.call_eq]
    exact law.say m place _
  · rw [henters.call_eq]
    have hbind := law.query (isQuery_bindParams config place (method.header.params.zip args) {}) m
    have hbody := hrun method.body (m.entered config place name args method)
    -- the arguments are evaluated in the caller's scope; only then is the call entered
    refine law.seq hbind ?_
    cases hend : runMethod method.body (m.entered config place name args method) with
    | done after =>
      rw [hend] at hbody
      exact law.seq (law.finish method.name name _ hbody) (law.say _ place _)
    | stopped e after =>
      rw [hend] at hbody
      exact law.abort method.name name _ hbody

/-- A law holds of a `while` loop if it holds of its body, by induction on the rounds left. -/
theorem whileLoop (law : RunLaw R) (config : Config) (place : Place) (cond : String)
    {body : Machine σ → Outcome σ} (hbody : ∀ m, R m (body m)) (rounds : Nat) (m : Machine σ) :
    R m (m.whileLoop config place cond body rounds) := by
  induction rounds generalizing m with
  | zero =>
    rw [whileLoop_zero]
    exact law.branch config place cond (fun m => law.say m place _) law.done m
  | succ rounds ih =>
    rw [whileLoop_succ]
    exact law.branch config place cond (fun m => law.andThen (hbody m) ih) law.done m

theorem forRounds (law : RunLaw R) (config : Config) (place : Place) (var : String)
    (stop step : Float) {body : Machine σ → Outcome σ} (hbody : ∀ m, R m (body m)) (rounds : Nat)
    (counter : Float) (m : Machine σ) :
    R m (m.forRounds config place var stop step body rounds counter) := by
  induction rounds generalizing counter m with
  | zero =>
    rw [Machine.forRounds]
    by_cases hrange : inRange counter stop step = true
    · rw [if_pos hrange]
      exact law.say m place _
    · rw [if_neg hrange]
      exact law.done m
  | succ rounds ih =>
    rw [forRounds_succ]
    by_cases hrange : inRange counter stop step = true
    · rw [if_pos hrange]
      -- one round: the counter is stored, the body runs, and the next counter is tried
      exact law.seq (law.set m var _) (law.andThen (hbody _) (ih (counter + step)))
    · rw [if_neg hrange]
      exact law.done m

/-- A law holds of a `for` loop if it holds of its body. The counter is removed only if the surface
has not stopped a round. -/
theorem forLoop (law : RunLaw R) (config : Config) (place : Place) (header : ForHeader)
    {body : Machine σ → Outcome σ} (hbody : ∀ m, R m (body m)) (m : Machine σ) :
    R m (m.forLoop config place header body) := by
  rw [forLoop_eq]
  refine law.seq (law.query (isQuery_forRange config place header) m) ?_
  obtain ⟨⟨start, stop, step⟩, after⟩ := m.forRange config place header
  by_cases hzero : step.abs < tolerance
  · simp only [if_pos hzero]
    exact law.say after place _
  · simp only [if_neg hzero]
    exact law.andThen (law.forRounds config place header.var stop step hbody _ start after)
      fun m => law.remove m header.var

/-! ## Statements -/

-- One induction over statements and lists of statements; calls are covered by `hrun`, since the
-- body of a method is no part of the statement that calls it.
mutual

/-- A law holds of a statement if it holds of the bodies of methods. -/
theorem stmt (law : RunLaw R) (config : Config)
    {runMethod : List Stmt → Machine σ → Outcome σ} (hrun : ∀ body m, R m (runMethod body m)) :
    ∀ (stmt : Stmt) (m : Machine σ), R m (stmt.run config runMethod m)
  | .whileLoop place cond body, m => by
    rw [Stmt.run]
    exact law.whileLoop config place cond (law.runAll config hrun body) _ m
  | .forLoop place header body, m => by
    rw [Stmt.run]
    exact law.forLoop config place header (law.runAll config hrun body) m
  | .ifThen place cond thenBody, m => by
    rw [run_ifThen]
    exact law.branch config place cond (law.runAll config hrun thenBody) law.done m
  | .ifElse place cond thenBody elseBody, m => by
    rw [run_ifElse]
    exact law.branch config place cond (law.runAll config hrun thenBody)
      (law.runAll config hrun elseBody) m
  | .method place header lines body, m => by
    rw [Stmt.run]
    exact law.seq (law.say m place _) (law.register _ ⟨header, lines, body⟩)
  | .call place name args, m => by
    rw [Stmt.run]
    exact law.call config hrun place name args m
  | .command place cmd, m => by
    rw [Stmt.run]
    exact law.command config place cmd m

theorem runAll (law : RunLaw R) (config : Config)
    {runMethod : List Stmt → Machine σ → Outcome σ} (hrun : ∀ body m, R m (runMethod body m)) :
    ∀ (stmts : List Stmt) (m : Machine σ), R m (Drawscript.runAll config runMethod stmts m)
  | [], m => by
    rw [Drawscript.runAll]
    exact law.done m
  | stmt :: rest, m => by
    rw [runAll_cons]
    exact law.andThen (law.stmt config hrun stmt m) (law.runAll config hrun rest)

end

/-- A law holds of every run, by induction on the room for nested calls. -/
theorem runBody (law : RunLaw R) (config : Config) (room : Nat) (stmts : List Stmt)
    (m : Machine σ) : R m (Drawscript.runBody config room stmts m) := by
  induction room generalizing stmts m with
  | zero => exact law.runAll config (fun _ m => law.done m) stmts m
  | succ room ih => exact law.runAll config (fun body m => ih body m) stmts m

/-- The same for the bodies of methods, which do not run when there is no room left. -/
theorem runMethod (law : RunLaw R) (config : Config) (room : Nat) (body : List Stmt)
    (m : Machine σ) : R m (Drawscript.runMethod config room body m) := by
  cases room with
  | zero => exact law.done m
  | succ room => exact law.runBody config room body m

end RunLaw

end Drawscript
