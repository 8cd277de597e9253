import Drawscript.Proofs.Exec.History
import Drawscript.Proofs.Exec.Scoping
import Drawscript.Session
import Mathlib.Data.List.DropRight

/-!
# Runs without a past

An interpreter that runs the program of a source text first forgets everything, so it does what a
new interpreter of the same configuration does, whatever it was used for before
(`Interpreter.Used.run_eq`). This rests on two things that no use changes: the configuration, and
the way in which the store keeps scopes. A session runs the lines that it was given since it was
last reset, and its interpreter is one that has been used (`Session.used_takeAll`). So a run in a
session shows and leaves what it would in a new session with these lines (`run_eq_run_new`).
-/

set_option autoImplicit false

namespace Drawscript

/-! ## Interpreters -/

namespace Interpreter

/-- Forgetting everything makes an interpreter new, if its store keeps scopes in the configured
way. -/
theorem reset_eq_new {interpreter : Interpreter}
    (hmode : interpreter.store.scopes.mode = interpreter.config.scopeMode) :
    interpreter.reset = .new interpreter.config := by
  rw [reset, Store.reset, Scopes.reset, hmode]
  rfl

/-- Statements leave the way in which scopes are kept as it was, also if they are stopped. -/
theorem mode_execute {σ : Type} [Surface σ] (interpreter : Interpreter) (stmts : List Stmt)
    (surface : σ) :
    (interpreter.execute stmts surface).interpreter.store.scopes.mode =
      interpreter.store.scopes.mode :=
  (runBody_keeps interpreter.config interpreter.config.maxCallDepth stmts
    { store := interpreter.store, surface := surface }).mode

namespace Used

variable {config : Config} {interpreter : Interpreter}

theorem config_eq (h : Used config interpreter) : interpreter.config = config := by
  induction h with
  | new => rfl
  | run _ source surface ih => exact ih
  | execute _ stmts surface ih => exact ih
  | reset _ ih => exact ih

theorem mode_eq (h : Used config interpreter) :
    interpreter.store.scopes.mode = config.scopeMode := by
  induction h with
  | new => rfl
  | @run σ _ interpreter _ source surface ih =>
    exact (mode_execute interpreter.reset (Parsed.ofSource source).stmts surface).trans ih
  | @execute σ _ interpreter _ stmts surface ih =>
    exact (mode_execute interpreter stmts surface).trans ih
  | reset _ ih => exact ih

/-- However an interpreter was used, a reset makes it new. -/
theorem reset_eq (h : Used config interpreter) : interpreter.reset = .new config := by
  have hmode : interpreter.store.scopes.mode = interpreter.config.scopeMode := by
    rw [h.mode_eq, h.config_eq]
  rw [reset_eq_new hmode, h.config_eq]

/-- A used interpreter runs a program like a new one. -/
theorem run_eq {σ : Type} [Surface σ] (h : Used config interpreter) (source : String)
    (surface : σ) :
    interpreter.run source surface = (Interpreter.new config).run source surface := by
  have hnew : (Interpreter.new config).reset = .new config := reset_eq_new rfl
  rw [Interpreter.run, Interpreter.run, h.reset_eq, hnew]

end Used

end Interpreter

/-! ## Sessions -/

namespace Session

/-- What can be done in a session. -/
inductive Step where
  | push (line : String)
  | reset
  | run

namespace Step

/-- The step forgets the lines. -/
def isReset : Step → Bool
  | reset => true
  | _ => false

/-- The line that the step adds. -/
def line? : Step → Option String
  | push line => some line
  | _ => none

end Step

/-- The session after a step. -/
def take (session : Session) : Step → Session
  | .push line => session.push line
  | .reset => session.reset
  | .run => session.run.2

/-- The session after steps, one after the other. -/
def takeAll (session : Session) (steps : List Step) : Session :=
  steps.foldl take session

/-- The lines added since the last reset. -/
def linesSince (steps : List Step) : List String :=
  (steps.rtakeWhile fun step => !step.isReset).filterMap Step.line?

theorem takeAll_concat (session : Session) (steps : List Step) (step : Step) :
    session.takeAll (steps ++ [step]) = (session.takeAll steps).take step := by
  simp [takeAll]

/-! ### What a run does -/

/-- The canvas for a run, or why there is none. -/
def canvas (session : Session) : Except CanvasError Canvas :=
  Canvas.new session.interpreter.config.canvas.width session.interpreter.config.canvas.height

/-- A session without a canvas runs nothing and stays as it is. -/
theorem run_of_error {session : Session} {e : CanvasError} (h : session.canvas = .error e) :
    session.run = (⟨[], [], some e⟩, session) := by
  rw [canvas] at h
  simp only [run, h]

theorem run_of_ok {session : Session} {canvas : Canvas} (h : session.canvas = .ok canvas) :
    session.run =
      let result := session.interpreter.run session.source canvas
      (⟨result.diagnostics, result.surface.written, result.error⟩,
        { session with interpreter := result.interpreter }) := by
  rw [Session.canvas] at h
  simp only [run, h]

/-! ### The lines -/

theorem linesSince_concat (steps : List Step) (step : Step) :
    linesSince (steps ++ [step]) =
      if step.isReset then [] else linesSince steps ++ step.line?.toList := by
  unfold linesSince
  rw [List.rtakeWhile_concat]
  cases step <;> simp [Step.isReset, Step.line?]

theorem linesSince_push (lines : List String) : linesSince (lines.map .push) = lines := by
  induction lines using List.reverseRecOn with
  | nil => rfl
  | append_singleton lines line ih =>
    rw [List.map_append, List.map_singleton, linesSince_concat, ih]
    rfl

/-- A run adds no line and takes none away. -/
theorem lines_run (session : Session) : session.run.2.lines = session.lines := by
  cases hcanvas : session.canvas with
  | error e => rw [run_of_error hcanvas]
  | ok canvas => rw [run_of_ok hcanvas]

/-- The lines of a session are those pushed since the last reset. -/
theorem lines_takeAll (config : Config) (steps : List Step) :
    ((Session.new config).takeAll steps).lines = linesSince steps := by
  induction steps using List.reverseRecOn with
  | nil => rfl
  | append_singleton steps step ih =>
    -- the last step decides: a reset forgets, a line is added, and a run changes no line
    rw [takeAll_concat, linesSince_concat, ← ih]
    cases step with
    | push line => rfl
    | reset => rfl
    | run =>
      rw [take, lines_run]
      exact (List.append_nil _).symm

/-! ### The interpreter -/

theorem used_run {config : Config} {session : Session}
    (h : Interpreter.Used config session.interpreter) :
    Interpreter.Used config session.run.2.interpreter := by
  cases hcanvas : session.canvas with
  | error e =>
    rw [run_of_error hcanvas]
    exact h
  | ok canvas =>
    rw [run_of_ok hcanvas]
    exact h.run session.source canvas

/-- Whatever the steps, the interpreter of a session is one that was made new and then used. -/
theorem used_takeAll (config : Config) (steps : List Step) :
    Interpreter.Used config ((Session.new config).takeAll steps).interpreter := by
  induction steps using List.reverseRecOn with
  | nil => exact .new
  | append_singleton steps step ih =>
    rw [takeAll_concat]
    cases step with
    | push line => exact ih
    | reset => exact ih.reset
    | run => exact used_run ih

theorem canvas_takeAll (config : Config) (steps : List Step) :
    ((Session.new config).takeAll steps).canvas = (Session.new config).canvas := by
  rw [canvas, (used_takeAll config steps).config_eq]
  rfl

/-- Without a canvas no run ever changes the interpreter. -/
theorem interpreter_takeAll {config : Config} {e : CanvasError}
    (h : (Session.new config).canvas = .error e) (steps : List Step) :
    ((Session.new config).takeAll steps).interpreter = .new config := by
  induction steps using List.reverseRecOn with
  | nil => rfl
  | append_singleton steps step ih =>
    rw [takeAll_concat]
    cases step with
    | push line => exact ih
    | reset => exact (used_takeAll config steps).reset_eq
    | run =>
      rw [take, run_of_error ((canvas_takeAll config steps).trans h)]
      exact ih

theorem eq_of_parts : ∀ {session session' : Session}, session.lines = session'.lines →
    session.interpreter = session'.interpreter → session = session'
  | ⟨_, _⟩, ⟨_, _⟩, rfl, rfl => rfl

/-- Sessions with the same lines run alike, whatever was done in them before. -/
theorem run_takeAll (config : Config) {steps steps' : List Step}
    (h : linesSince steps = linesSince steps') :
    ((Session.new config).takeAll steps).run = ((Session.new config).takeAll steps').run := by
  have hlines : ((Session.new config).takeAll steps).lines =
      ((Session.new config).takeAll steps').lines := by
    rw [lines_takeAll, lines_takeAll, h]
  cases hcanvas : (Session.new config).canvas with
  | error e =>
    -- nothing was ever run, so that the sessions are the same
    have hinterpreter := (interpreter_takeAll hcanvas steps).trans
      (interpreter_takeAll hcanvas steps').symm
    exact congrArg run (eq_of_parts hlines hinterpreter)
  | ok canvas =>
    have hsource : ((Session.new config).takeAll steps).source =
        ((Session.new config).takeAll steps').source := by
      rw [source, source, hlines]
    rw [run_of_ok ((canvas_takeAll config steps).trans hcanvas),
      run_of_ok ((canvas_takeAll config steps').trans hcanvas), (used_takeAll config steps).run_eq,
      (used_takeAll config steps').run_eq, hsource, hlines]

end Session

/-- A run does not depend on what came before. After any steps in a session, a run reports and
leaves what it does in a new session that is given the lines added since the last reset and nothing
else. Likewise an interpreter, however it was used, runs the program of a source text on a surface
like a new one: with the same diagnostics, the same end, the same store and the same surface after
it. -/
theorem run_eq_run_new (config : Config) :
    (∀ steps : List Session.Step,
      ((Session.new config).takeAll steps).run =
        ((Session.new config).takeAll ((Session.linesSince steps).map .push)).run) ∧
    ∀ interpreter : Interpreter, Interpreter.Used config interpreter →
      ∀ {σ : Type} [Surface σ] (source : String) (surface : σ),
        interpreter.run source surface = (Interpreter.new config).run source surface := by
  constructor
  · intro steps
    apply Session.run_takeAll
    rw [Session.linesSince_push]
  · intro interpreter hused σ _ source surface
    exact hused.run_eq source surface

/-- Statements that lose the top-level scope in single-slot mode, and are stopped in a call inside a
call. -/
def stranded : List Stmt :=
  let place : Place := ⟨1, ⟨0, 0⟩⟩
  [.method place ⟨"g", .int, []⟩ [] [.command place (.draw .circle "0")],
    .method place ⟨"f", .int, []⟩ []
      [.command place (.declareInt "y" (some "2")), .call place "g" []],
    .command place (.declareInt "x" (some "1")), .call place "f" []]

/-- A configuration with room for one kept scope. -/
def strandedConfig : Config :=
  { evalMode := .precedence, scopeMode := .singleSlot }

/-- The run of these statements by a new interpreter. -/
def strandedRun : RunResult Canvas :=
  (Interpreter.new strandedConfig).execute stranded { width := 640, height := 480 }

/-- The variables of the outer call are left in the place of `x`; a run after that has nothing of
them. Nor has a run in a session of the lines before the last reset. -/
theorem run_eq_run_new_stranded :
    strandedRun.error = some (.invalidRadius 0) ∧
      strandedRun.interpreter.store.scope.entries.map Prod.fst = ["y", "g", "f"] ∧
      strandedRun.interpreter.run "write y" strandedRun.surface =
        (Interpreter.new strandedConfig).run "write y" strandedRun.surface ∧
      ((Session.new strandedConfig).takeAll
          [.push "int y = 2", .run, .reset, .push "int z = 3", .run, .push "write y"]).run =
        ((Session.new strandedConfig).takeAll [.push "int z = 3", .push "write y"]).run := by
  have hused : Interpreter.Used strandedConfig strandedRun.interpreter := .execute .new stranded _
  obtain ⟨hsession, hinterpreter⟩ := run_eq_run_new strandedConfig
  refine ⟨by decide +kernel, by decide +kernel, ?_, hsession _⟩
  exact hinterpreter strandedRun.interpreter hused "write y" strandedRun.surface

end Drawscript
