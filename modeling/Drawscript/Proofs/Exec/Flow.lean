import Drawscript.Proofs.Machine.Query

/-!
# The flow of control

One step after another is `Outcome.andThen`. Statements in a row, the rounds of the two loops, and
the end of a `for` loop are written with it here, so that a proof about runs follows the same few
equations as the run itself.
-/

set_option autoImplicit false

namespace Drawscript

variable {σ : Type}

/-- Go on with the next step, unless the surface has stopped the run. -/
def Outcome.andThen (o : Outcome σ) (next : Machine σ → Outcome σ) : Outcome σ :=
  match o with
  | .done m => next m
  | .stopped e m => .stopped e m

/-- Two steps in a row are done only if both are. -/
theorem Outcome.andThen_eq_done {o : Outcome σ} {next : Machine σ → Outcome σ} {after : Machine σ}
    (h : o.andThen next = .done after) : ∃ m, o = .done m ∧ next m = .done after := by
  cases o with
  | done m => exact ⟨m, rfl, h⟩
  | stopped e m => cases h

/-- Statements in a row: the rest runs only if the surface has not stopped the first. -/
theorem runAll_cons [Surface σ] (config : Config) (runMethod : List Stmt → Machine σ → Outcome σ)
    (stmt : Stmt) (rest : List Stmt) (m : Machine σ) :
    runAll config runMethod (stmt :: rest) m =
      (stmt.run config runMethod m).andThen (runAll config runMethod rest) := by
  rw [runAll]
  rfl

theorem runAll_singleton [Surface σ] (config : Config)
    (runMethod : List Stmt → Machine σ → Outcome σ) (stmt : Stmt) (m : Machine σ) :
    runAll config runMethod [stmt] m = stmt.run config runMethod m := by
  rw [runAll_cons]
  cases stmt.run config runMethod m with
  | done after => exact runAll.eq_1 config runMethod after
  | stopped e after => rfl

/-- How the bodies of methods are run, with room for a number of nested calls. -/
def runMethod [Surface σ] (config : Config) : Nat → List Stmt → Machine σ → Outcome σ
  | 0 => fun _ m => .done m
  | room + 1 => runBody config room

/-- A body is run as statements in a row, with one level less of room for the calls in it. -/
theorem runBody_eq_runAll [Surface σ] (config : Config) (room : Nat) :
    (runBody config room : List Stmt → Machine σ → Outcome σ) =
      runAll config (runMethod config room) := by
  cases room with
  | zero => rfl
  | succ room => rfl

namespace Machine

/-! ## Conditions -/

/-- Go on in one of two ways, as a condition says. -/
def branch (config : Config) (place : Place) (cond : String) (yes no : Machine σ → Outcome σ)
    (m : Machine σ) : Outcome σ :=
  let tested := m.test config.evalMode place cond
  if tested.1 then yes tested.2 else no tested.2

theorem branch_of_true {config : Config} {place : Place} {cond : String} {m : Machine σ}
    (h : (m.test config.evalMode place cond).1 = true) (yes no : Machine σ → Outcome σ) :
    m.branch config place cond yes no = yes (m.test config.evalMode place cond).2 :=
  if_pos h

theorem branch_of_false {config : Config} {place : Place} {cond : String} {m : Machine σ}
    (h : ¬ (m.test config.evalMode place cond).1 = true) (yes no : Machine σ → Outcome σ) :
    m.branch config place cond yes no = no (m.test config.evalMode place cond).2 :=
  if_neg h

/-- A conditional with one part does nothing more if its condition fails. -/
theorem run_ifThen [Surface σ] (config : Config) (runMethod : List Stmt → Machine σ → Outcome σ)
    (place : Place) (cond : String) (thenBody : List Stmt) (m : Machine σ) :
    (Stmt.ifThen place cond thenBody).run config runMethod m =
      m.branch config place cond (runAll config runMethod thenBody) .done := by
  rw [Stmt.run, branch]
  rcases m.test config.evalMode place cond with ⟨_ | _, after⟩ <;> rfl

theorem run_ifElse [Surface σ] (config : Config) (runMethod : List Stmt → Machine σ → Outcome σ)
    (place : Place) (cond : String) (thenBody elseBody : List Stmt) (m : Machine σ) :
    (Stmt.ifElse place cond thenBody elseBody).run config runMethod m =
      m.branch config place cond (runAll config runMethod thenBody)
        (runAll config runMethod elseBody) := by
  rw [Stmt.run, branch]
  rcases m.test config.evalMode place cond with ⟨_ | _, after⟩ <;> rfl

/-! ## Loops -/

section

variable (config : Config) (place : Place) (body : Machine σ → Outcome σ)

/-- With no rounds left the condition is tested once more, and a loop that would go on is stopped
with a warning. -/
theorem whileLoop_zero (cond : String) (m : Machine σ) :
    m.whileLoop config place cond body 0 =
      m.branch config place cond
        (fun m =>
          .done (m.warn place s!"while loop stopped after {config.maxIterations} iterations"))
        .done := by
  rw [whileLoop, branch]
  rcases m.test config.evalMode place cond with ⟨_ | _, after⟩ <;> rfl

/-- With rounds left the body runs once and the loop goes on with one round less. -/
theorem whileLoop_succ (cond : String) (rounds : Nat) (m : Machine σ) :
    m.whileLoop config place cond body (rounds + 1) =
      m.branch config place cond
        (fun m => (body m).andThen (whileLoop config place cond body rounds)) .done := by
  rw [whileLoop, branch]
  rcases m.test config.evalMode place cond with ⟨_ | _, after⟩ <;> rfl

/-- A round of a `for` loop sets the counter, runs the body and goes on with the next counter. -/
theorem forRounds_succ (var : String) (stop step : Float) (rounds : Nat) (counter : Float)
    (m : Machine σ) :
    m.forRounds config place var stop step body (rounds + 1) counter =
      if inRange counter stop step then
        (body (m.set var (Value.ofFloat counter))).andThen
          (forRounds config place var stop step body rounds (counter + step))
      else .done m := by
  rw [forRounds]
  rfl

/-- The start, stop and step of a `for` loop. -/
def forRange (header : ForHeader) (m : Machine σ) : (Float × Float × Float) × Machine σ :=
  let start := m.evalReal config.evalMode place header.start
  let stop := start.2.evalReal config.evalMode place header.stop
  let step := stop.2.forStep config place header.step
  ((start.1, stop.1, step.1), step.2)

/-- To evaluate the range of a `for` loop is a query, made of one for each of its three parts. -/
theorem isQuery_forRange (header : ForHeader) :
    IsQuery place fun m : Machine σ => m.forRange config place header :=
  (isQuery_evalReal config.evalMode place header.start).bind fun start =>
    (isQuery_evalReal config.evalMode place header.stop).bind fun stop =>
      (isQuery_forStep config place header.step).map fun step => (start, stop, step)

/-- A `for` loop in three parts: its range, its rounds, and the removal of the counter. -/
theorem forLoop_eq (header : ForHeader) (m : Machine σ) :
    m.forLoop config place header body =
      let ((start, stop, step), after) := m.forRange config place header
      if step.abs < tolerance then .done (after.report place (.parse .zeroStep))
      else
        (after.forRounds config place header.var stop step body config.maxIterations start).andThen
          fun m => .done (m.remove header.var) := by
  rfl

end

end Machine

end Drawscript
