import Drawscript.Interpreter
import Drawscript.Proofs.Exec.Scoping
import Drawscript.Proofs.Stmt.Reading

/-!
# The limits of a run

A run that is cut short by a limit says so: a stopped loop gives a warning that belongs to no family
of problems, and a call that is nested too deeply a problem of its own. A run without such a report
goes the same way under all higher limits (`Follows.runBody`, and `run_withLimits` for programs).

The proof compares the two runs step by step on one machine. What has been reported is never taken
back (`runLaw_steady`), so a run whose end shows no limit has met none on its way.
-/

set_option autoImplicit false

namespace Drawscript

open Machine

variable {σ : Type}

/-- A loop was stopped: the diagnostic is a warning that belongs to no family of problems. -/
def Diagnostic.IsLoopLimit (d : Diagnostic) : Prop :=
  d.severity = .warning ∧ d.notice.family? = none

/-- A call was not made because too many calls were running. -/
def Diagnostic.IsCallLimit (d : Diagnostic) : Prop :=
  ∃ name limit, d.notice = .problem (.resolution (.callDepthExceeded name limit))

/-- No limit has been reported. -/
def Machine.WithinLimits (m : Machine σ) : Prop :=
  ∀ d, Event.reported d ∈ m.events → ¬ d.IsLoopLimit ∧ ¬ d.IsCallLimit

/-- The configuration with other limits. -/
def Config.withLimits (config : Config) (iterations depth : Nat) : Config :=
  { config with maxIterations := iterations, maxCallDepth := depth }

/-! ## Reports are never taken back -/

/-- The events go on from those there were, and the same calls are running. -/
structure Steady (m : Machine σ) (o : Outcome σ) : Prop where
  events : m.events <:+ o.machine.events
  frames : o.machine.frames = m.frames

/-- Every run only adds reports, and leaves all calls that it has entered. -/
theorem runLaw_steady [Surface σ] : RunLaw (Steady : Machine σ → Outcome σ → Prop) where
  done m := ⟨List.suffix_refl m.events, rfl⟩
  seq h h' := ⟨h.events.trans h'.events, h'.frames.trans h.frames⟩
  say m place notice := ⟨List.suffix_cons _ m.events, rfl⟩
  set m _ _ := ⟨List.suffix_refl m.events, rfl⟩
  remove m _ := ⟨List.suffix_refl m.events, rfl⟩
  setArrays m _ := ⟨List.suffix_refl m.events, rfl⟩
  register m _ := ⟨List.suffix_refl m.events, rfl⟩
  perform m request := by
    unfold Machine.perform
    rcases Surface.perform request m.surface with ⟨_ | e, surface⟩
    · exact ⟨List.suffix_cons _ m.events, rfl⟩
    · exact ⟨List.suffix_cons _ m.events, rfl⟩
  finish _ _ _ h := ⟨h.events, congrArg List.tail h.frames⟩
  abort _ _ _ h := ⟨h.events, congrArg List.tail h.frames⟩

/-- If no limit is reported by the end, none was before: reports are never taken back. -/
theorem Machine.WithinLimits.of_suffix {m m' : Machine σ} (h : m'.WithinLimits)
    (hevents : m.events <:+ m'.events) : m.WithinLimits :=
  fun d hd => h d (hevents.subset hd)

theorem not_withinLimits_warn (m : Machine σ) (place : Place) (message : String) :
    ¬ (m.warn place message).WithinLimits :=
  fun h => (h _ List.mem_cons_self).1 ⟨rfl, rfl⟩

theorem not_withinLimits_depth (m : Machine σ) (place : Place) (name : String) (limit : Nat) :
    ¬ (m.report place (.resolution (.callDepthExceeded name limit))).WithinLimits :=
  fun h => (h _ List.mem_cons_self).2 ⟨name, limit, rfl⟩

/-! ## What does not depend on the limits -/

section

variable (config : Config) (iterations depth : Nat)

theorem branch_withLimits (place : Place) (cond : String) (yes no : Machine σ → Outcome σ)
    (m : Machine σ) :
    m.branch (config.withLimits iterations depth) place cond yes no =
      m.branch config place cond yes no := rfl

theorem evalMode_withLimits : (config.withLimits iterations depth).evalMode = config.evalMode := rfl

/-- No command looks at the limits. -/
theorem command_withLimits [Surface σ] (place : Place) (cmd : Command) (m : Machine σ) :
    m.command (config.withLimits iterations depth) place cmd = m.command config place cmd :=
  command_congr (evalMode_withLimits config iterations depth) place cmd m

theorem entered_withLimits (place : Place) (name : String) (args : List String) (method : Method)
    (m : Machine σ) :
    m.entered (config.withLimits iterations depth) place name args method =
      m.entered config place name args method :=
  entered_congr (evalMode_withLimits config iterations depth) place name args method m

end

/-! ## Runs that go the same way -/

/-- Started with `n` running calls, the second run goes the way of the first, unless that reports a
limit. -/
structure Follows (n : Nat) (run run' : Machine σ → Outcome σ) : Prop where
  steady : ∀ m, Steady m (run m)
  eq : ∀ m, m.frames.length = n → (run m).machine.WithinLimits → run' m = run m

namespace Follows

variable {n : Nat}

theorem refl {run : Machine σ → Outcome σ} (h : ∀ m, Steady m (run m)) : Follows n run run :=
  ⟨h, fun _ _ _ => rfl⟩

theorem of_eq {run run' other other' : Machine σ → Outcome σ} (h : Follows n other other')
    (hrun : ∀ m, run m = other m) (hrun' : ∀ m, run' m = other' m) : Follows n run run' := by
  rw [funext hrun, funext hrun']
  exact h

variable [Surface σ] (config : Config) (iterations depth : Nat)

/-- Two steps in a row go the same way if each does, since a limit met in the first is still
reported after the second. -/
theorem andThen {run run' next next' : Machine σ → Outcome σ} (h : Follows n run run')
    (hnext : Follows n next next') :
    Follows n (fun m => (run m).andThen next) (fun m => (run' m).andThen next') where
  steady m := runLaw_steady.andThen (h.steady m) hnext.steady
  eq m hn hlimits := by
    have hrun := h.eq m hn
    have hframes := (h.steady m).frames
    cases hend : run m with
    | done after =>
      rw [hend] at hrun hframes hlimits
      -- a limit reported by the first step would still be there after the second
      rw [hrun (hlimits.of_suffix (hnext.steady after).events)]
      exact hnext.eq after ((congrArg List.length hframes).trans hn) hlimits
    | stopped e after =>
      rw [hend] at hrun hlimits
      rw [hrun hlimits]
      rfl

/-- At a condition both runs take the same way. -/
theorem branch {yes yes' no no' : Machine σ → Outcome σ} (place : Place) (cond : String)
    (hyes : Follows n yes yes') (hno : Follows n no no') :
    Follows n (Machine.branch config place cond yes no)
      (Machine.branch (config.withLimits iterations depth) place cond yes' no') where
  steady m := runLaw_steady.branch config place cond hyes.steady hno.steady m
  eq m hn hlimits := by
    have htest := runLaw_steady.query (isQuery_test config.evalMode place cond) m
    have hlength : (m.test config.evalMode place cond).2.frames.length = n :=
      (congrArg List.length htest.frames).trans hn
    rw [branch_withLimits]
    by_cases hholds : (m.test config.evalMode place cond).1 = true
    · rw [branch_of_true hholds] at hlimits
      rw [branch_of_true hholds, branch_of_true hholds]
      exact hyes.eq _ hlength hlimits
    · rw [branch_of_false hholds] at hlimits
      rw [branch_of_false hholds, branch_of_false hholds]
      exact hno.eq _ hlength hlimits

/-! ## Loops -/

/-- A loop that ends within its rounds does so with more rounds to make. With no round left the
condition is tested once more before the loop is stopped, so a loop that has just used its last
round is not cut short. -/
theorem whileLoop {body body' : Machine σ → Outcome σ} (place : Place) (cond : String)
    (hbody : Follows n body body') {rounds rounds' : Nat} (hrounds : rounds ≤ rounds') :
    Follows n (Machine.whileLoop config place cond body rounds)
      (Machine.whileLoop (config.withLimits iterations depth) place cond body' rounds') := by
  induction rounds generalizing rounds' with
  | zero =>
    refine ⟨runLaw_steady.whileLoop config place cond hbody.steady 0, fun m _ hlimits => ?_⟩
    rw [whileLoop_zero] at hlimits ⊢
    by_cases hholds : (m.test config.evalMode place cond).1 = true
    · -- the condition still holds with no round left: the loop is stopped, and says so
      rw [branch_of_true hholds] at hlimits
      exact absurd hlimits (not_withinLimits_warn _ place _)
    · -- the loop is over, whether or not the other run has rounds left
      rw [branch_of_false hholds]
      cases rounds' with
      | zero => rw [whileLoop_zero, branch_withLimits, branch_of_false hholds]
      | succ rounds' => rw [whileLoop_succ, branch_withLimits, branch_of_false hholds]
  | succ rounds ih =>
    obtain ⟨more, rfl⟩ : ∃ more, rounds' = more + 1 := ⟨rounds' - 1, by omega⟩
    have hround := branch config iterations depth place cond
      (hbody.andThen (ih (Nat.le_of_succ_le_succ hrounds))) (refl runLaw_steady.done)
    exact hround.of_eq (fun m => whileLoop_succ config place body cond rounds m)
      fun m => whileLoop_succ (config.withLimits iterations depth) place body' cond more m

/-- A `for` loop with more rounds left goes the same way: where it would be stopped, that is
reported. -/
theorem forRounds {body body' : Machine σ → Outcome σ} (place : Place) (var : String)
    (stop step : Float) (hbody : Follows n body body') {rounds rounds' : Nat}
    (hrounds : rounds ≤ rounds') (counter : Float) :
    Follows n (Machine.forRounds config place var stop step body rounds counter)
      (Machine.forRounds (config.withLimits iterations depth) place var stop step body' rounds'
        counter) := by
  induction rounds generalizing rounds' counter with
  | zero =>
    refine ⟨runLaw_steady.forRounds config place var stop step hbody.steady 0 counter,
      fun m _ hlimits => ?_⟩
    rw [Machine.forRounds] at hlimits ⊢
    by_cases hrange : inRange counter stop step = true
    · -- a loop that is stopped in range warns, and no limit was reported
      rw [if_pos hrange] at hlimits
      exact absurd hlimits (not_withinLimits_warn m place _)
    · rw [if_neg hrange]
      cases rounds' with
      | zero =>
        rw [Machine.forRounds]
        exact if_neg hrange
      | succ rounds' =>
        rw [forRounds_succ]
        exact if_neg hrange
  | succ rounds ih =>
    obtain ⟨more, rfl⟩ : ∃ more, rounds' = more + 1 := ⟨rounds' - 1, by omega⟩
    refine ⟨runLaw_steady.forRounds config place var stop step hbody.steady _ counter,
      fun m hn hlimits => ?_⟩
    rw [forRounds_succ] at hlimits ⊢
    rw [forRounds_succ]
    by_cases hrange : inRange counter stop step = true
    · rw [if_pos hrange] at hlimits ⊢
      rw [if_pos hrange]
      have hround := hbody.andThen (ih (Nat.le_of_succ_le_succ hrounds) (counter + step))
      exact hround.eq (m.set var (Value.ofFloat counter)) hn hlimits
    · rw [if_neg hrange, if_neg hrange]

/-- Only the number of rounds depends on the limit, not the range. -/
theorem forLoop {body body' : Machine σ → Outcome σ} (place : Place) (header : ForHeader)
    (hbody : Follows n body body') (hiterations : config.maxIterations ≤ iterations) :
    Follows n (Machine.forLoop config place header body)
      (Machine.forLoop (config.withLimits iterations depth) place header body') where
  steady m := runLaw_steady.forLoop config place header hbody.steady m
  eq m hn hlimits := by
    have hrange := runLaw_steady.query (isQuery_forRange config place header) m
    have hsame : m.forRange (config.withLimits iterations depth) place header =
        m.forRange config place header := rfl
    rw [forLoop_eq] at hlimits ⊢
    rw [forLoop_eq, hsame]
    generalize m.forRange config place header = range at hrange hlimits ⊢
    obtain ⟨⟨start, stop, step⟩, after⟩ := range
    by_cases hzero : step.abs < tolerance
    · simp only [if_pos hzero]
    · simp only [if_neg hzero] at hlimits ⊢
      have hrounds := (forRounds config iterations depth place header.var stop step hbody
        hiterations start).andThen (refl fun m => runLaw_steady.remove m header.var)
      exact hrounds.eq after ((congrArg List.length hrange.frames).trans hn) hlimits

/-! ## Calls and statements -/

section

variable {runMethod runMethod' : List Stmt → Machine σ → Outcome σ}

/-- A call that is entered leaves room under the limit, and is entered under the higher limit too;
one that is rejected for its depth is reported as such. -/
theorem call (place : Place) (name : String) (args : List String)
    (hsteady : ∀ body m, Steady m (runMethod body m))
    (hmethod : n < config.maxCallDepth → ∀ body, Follows (n + 1) (runMethod body) (runMethod' body))
    (hdepth : config.maxCallDepth ≤ depth) :
    Follows n (Machine.call config runMethod place name args)
      (Machine.call (config.withLimits iterations depth) runMethod' place name args) where
  steady m := runLaw_steady.call config hsteady place name args m
  eq m hn hlimits := by
    rcases rejects_or_enters config m name args with ⟨cause, hrejects⟩ | ⟨method, henters⟩
    · rw [hrejects.call_eq] at hlimits ⊢
      cases hrejects with
      | unknown hfound => exact (Rejects.unknown hfound).call_eq runMethod' place
      | arity hfound harity => exact (Rejects.arity hfound harity).call_eq runMethod' place
      -- a call rejected for its depth is the one that a higher limit would let in
      | depth hfound harity hfull => exact absurd hlimits (not_withinLimits_depth m place _ _)
    · have henters' : Enters (config.withLimits iterations depth) m name args method :=
        ⟨henters.found, henters.arity, Nat.lt_of_lt_of_le henters.depth hdepth⟩
      rw [henters.call_eq] at hlimits ⊢
      rw [henters'.call_eq, entered_withLimits]
      have hroom : n < config.maxCallDepth := hn ▸ henters.depth
      have hbody := (hmethod hroom method.body).eq (m.entered config place name args method)
      obtain ⟨scope, notices, hentered⟩ := entered_eq config place name args method m
      have hlength : (m.entered config place name args method).frames.length = n + 1 := by
        rw [hentered]
        exact congrArg (· + 1) hn
      rw [hbody hlength]
      -- the end of the body must be within the limits, as the end of the call is
      cases hend : runMethod method.body (m.entered config place name args method) with
      | done after =>
        rw [hend] at hlimits
        exact hlimits.of_suffix (List.suffix_cons _ after.events)
      | stopped e after =>
        rw [hend] at hlimits
        exact hlimits

mutual

/-- A statement goes the same way if the bodies of methods do. These run one call deeper, which
needs to be said only below the limit. -/
theorem stmt (hsteady : ∀ body m, Steady m (runMethod body m))
    (hmethod : n < config.maxCallDepth → ∀ body, Follows (n + 1) (runMethod body) (runMethod' body))
    (hiterations : config.maxIterations ≤ iterations) (hdepth : config.maxCallDepth ≤ depth) :
    ∀ stmt : Stmt, Follows n (stmt.run config runMethod)
      (stmt.run (config.withLimits iterations depth) runMethod')
  | .whileLoop place cond body =>
    (whileLoop config iterations depth place cond
      (runAll hsteady hmethod hiterations hdepth body) hiterations).of_eq
      (fun m => by rw [Stmt.run]) fun m => by rw [Stmt.run]; rfl
  | .forLoop place header body =>
    (forLoop config iterations depth place header
      (runAll hsteady hmethod hiterations hdepth body) hiterations).of_eq
      (fun m => by rw [Stmt.run]) fun m => by rw [Stmt.run]
  | .ifThen place cond thenBody =>
    (branch config iterations depth place cond
      (runAll hsteady hmethod hiterations hdepth thenBody) (refl runLaw_steady.done)).of_eq
      (run_ifThen config runMethod place cond thenBody)
      (run_ifThen _ runMethod' place cond thenBody)
  | .ifElse place cond thenBody elseBody =>
    (branch config iterations depth place cond
      (runAll hsteady hmethod hiterations hdepth thenBody)
      (runAll hsteady hmethod hiterations hdepth elseBody)).of_eq
      (run_ifElse config runMethod place cond thenBody elseBody)
      (run_ifElse _ runMethod' place cond thenBody elseBody)
  | .method place header lines body => by
    refine ⟨fun m => runLaw_steady.stmt config hsteady _ m, fun m _ _ => ?_⟩
    rw [Stmt.run, Stmt.run]
  | .call place name args =>
    (call config iterations depth place name args hsteady hmethod hdepth).of_eq
      (fun m => by rw [Stmt.run]) fun m => by rw [Stmt.run]
  | .command place cmd => by
    refine ⟨fun m => runLaw_steady.stmt config hsteady _ m, fun m _ _ => ?_⟩
    rw [Stmt.run, Stmt.run]
    exact command_withLimits config iterations depth place cmd m

theorem runAll (hsteady : ∀ body m, Steady m (runMethod body m))
    (hmethod : n < config.maxCallDepth → ∀ body, Follows (n + 1) (runMethod body) (runMethod' body))
    (hiterations : config.maxIterations ≤ iterations) (hdepth : config.maxCallDepth ≤ depth) :
    ∀ stmts : List Stmt, Follows n (Drawscript.runAll config runMethod stmts)
      (Drawscript.runAll (config.withLimits iterations depth) runMethod' stmts)
  | [] => by
    refine ⟨fun m => runLaw_steady.runAll config hsteady [] m, fun m _ _ => ?_⟩
    rw [Drawscript.runAll, Drawscript.runAll]
  | stmt :: rest =>
    ((Follows.stmt hsteady hmethod hiterations hdepth stmt).andThen
      (runAll hsteady hmethod hiterations hdepth rest)).of_eq
      (runAll_cons config runMethod stmt rest) (runAll_cons _ runMethod' stmt rest)

end

end

/-- By induction on the room that the first run has for nested calls. The room of either run is
enough for the calls that its limit still allows, so that a body which may be entered is run. -/
theorem runBody (hiterations : config.maxIterations ≤ iterations)
    (hdepth : config.maxCallDepth ≤ depth) (room : Nat) {room' n : Nat}
    (hroom : config.maxCallDepth ≤ room + n) (hroom' : depth ≤ room' + n) (stmts : List Stmt) :
    Follows n (Drawscript.runBody config room stmts : Machine σ → Outcome σ)
      (Drawscript.runBody (config.withLimits iterations depth) room' stmts) := by
  induction room generalizing room' n stmts with
  | zero =>
    rw [runBody_eq_runAll, runBody_eq_runAll]
    refine runAll config iterations depth (runLaw_steady.runMethod config 0) (fun hn => ?_)
      hiterations hdepth stmts
    -- without room, the calls that are running have used up the depth: no body is entered
    omega
  | succ room ih =>
    rw [runBody_eq_runAll, runBody_eq_runAll]
    refine runAll config iterations depth (runLaw_steady.runMethod config (room + 1))
      (fun hn body => ?_) hiterations hdepth stmts
    obtain ⟨less, rfl⟩ : ∃ less, room' = less + 1 := ⟨room' - 1, by omega⟩
    exact ih (by omega) (by omega) body

end Follows

/-! ## Programs -/

/-- The diagnostics of a machine are its reports. -/
theorem mem_diagnostics {m : Machine σ} {d : Diagnostic} :
    d ∈ m.diagnostics ↔ Event.reported d ∈ m.events := by
  unfold diagnostics
  rw [List.mem_filterMap]
  constructor
  · rintro ⟨event, hevent, hd⟩
    cases event with
    | reported d' =>
      cases hd
      exact List.mem_reverse.1 hevent
    | requested request refusal => cases hd
  · intro hd
    exact ⟨.reported d, List.mem_reverse.2 hd, rfl⟩

/-- A program that is run without a report of a limit runs in the same way under all higher limits:
it ends in the same way, with the same diagnostics, store and surface. -/
theorem run_withLimits [Surface σ] (config : Config) (store : Store) (source : String) (surface : σ)
    (iterations depth : Nat)
    (hwithin : ∀ d ∈ (Interpreter.run ⟨config, store⟩ source surface).diagnostics,
      ¬ d.IsLoopLimit ∧ ¬ d.IsCallLimit)
    (hiterations : config.maxIterations ≤ iterations) (hdepth : config.maxCallDepth ≤ depth) :
    let result := Interpreter.run ⟨config, store⟩ source surface
    let result' := Interpreter.run ⟨config.withLimits iterations depth, store⟩ source surface
    result'.error = result.error ∧ result'.diagnostics = result.diagnostics ∧
      result'.interpreter.store = result.interpreter.store ∧ result'.surface = result.surface := by
  intro result result'
  have hsame : (Interpreter.reset ⟨config.withLimits iterations depth, store⟩).outcome
        (Parsed.ofSource source).stmts surface =
      (Interpreter.reset ⟨config, store⟩).outcome (Parsed.ofSource source).stmts surface := by
    -- a program starts with no running call, and each run has the room of its own limit
    refine (Follows.runBody config iterations depth hiterations hdepth config.maxCallDepth
      (Nat.le_refl _) (Nat.le_refl _) _).eq _ rfl ?_
    intro d hd
    exact hwithin d (List.mem_append.2 (Or.inr (mem_diagnostics.2 hd)))
  refine ⟨?_, ?_, ?_, ?_⟩
  · exact congrArg Outcome.refusal? hsame
  · exact congrArg (fun o => (Parsed.ofSource source).diagnostics ++ o.machine.diagnostics) hsame
  · exact congrArg (fun o => o.machine.store) hsame
  · exact congrArg (fun o => o.machine.surface) hsame

/-- A program that calls a method in a loop of two rounds. -/
def looped : String :=
  "method int f\nclear\nend method\nfor i = 1 to 2\ncall f\nend for"

/-- Limits that the program meets exactly. -/
def tight : Config :=
  { maxIterations := 2, maxCallDepth := 1 }

/-- A run whose diagnostics are all notes meets no limit. -/
theorem not_limit_of_note {d : Diagnostic} (h : d.severity = .note) :
    ¬ d.IsLoopLimit ∧ ¬ d.IsCallLimit := by
  constructor
  · rintro ⟨hwarning, -⟩
    rw [h] at hwarning
    cases hwarning
  · rintro ⟨name, limit, hproblem⟩
    rw [Diagnostic.severity, hproblem] at h
    cases h

/-- The method is called in both rounds of the loop, each call leaving its mark, and no limit is
reported; under higher limits the run reports the same. -/
theorem run_withLimits_looped :
    (Interpreter.run (Interpreter.new tight) looped
        ({ width := 640, height := 480 } : Canvas)).surface.marks = #[.clear, .clear] ∧
    (∀ d ∈ (Interpreter.run (Interpreter.new tight) looped
        ({ width := 640, height := 480 } : Canvas)).diagnostics,
      ¬ d.IsLoopLimit ∧ ¬ d.IsCallLimit) ∧
    (Interpreter.run ⟨tight.withLimits 1000 256, Store.empty tight.scopeMode⟩ looped
        ({ width := 640, height := 480 } : Canvas)).diagnostics =
      (Interpreter.run (Interpreter.new tight) looped
        ({ width := 640, height := 480 } : Canvas)).diagnostics := by
  have hnotes : ((Interpreter.run (Interpreter.new tight) looped
      ({ width := 640, height := 480 } : Canvas)).diagnostics.all
        fun d => d.severity == .note) = true := by
    decide +kernel
  have hwithin := fun d hd => not_limit_of_note (beq_iff_eq.1 (List.all_eq_true.1 hnotes d hd))
  exact ⟨by decide +kernel, hwithin,
    (run_withLimits tight _ looped _ 1000 256 hwithin (by decide) (by decide)).2.1⟩

end Drawscript
