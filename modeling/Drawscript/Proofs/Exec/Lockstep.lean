import Drawscript.Proofs.Exec.Call
import Drawscript.Proofs.Exec.Flow
import Drawscript.Proofs.Exec.Plan

/-!
# Runs in lockstep

Two machines on which a statement sees the same are taken through the same steps. `Lockstep` asks of
a relation between machines that the two look the same, that it outlasts the elementary changes, and
that entering and leaving a call lead from one level of the relation to the next and back. Such a
relation outlasts every run of statements (`Lockstep.runBody`).
-/

set_option autoImplicit false

namespace Drawscript

open Machine

variable {σ α : Type}

/-- Two steps end in the same way, on related machines. -/
inductive Outcome.Rel (R : Machine σ → Machine σ → Prop) : Outcome σ → Outcome σ → Prop
  | done {m₁ m₂ : Machine σ} (h : R m₁ m₂) : Outcome.Rel R (.done m₁) (.done m₂)
  | stopped {m₁ m₂ : Machine σ} (e : CanvasError) (h : R m₁ m₂) :
    Outcome.Rel R (.stopped e m₁) (.stopped e m₂)

/-- A relation between machines, one for each number of calls entered, that every elementary change
respects. -/
structure Lockstep [Surface σ] (config : Config) (R : Nat → Machine σ → Machine σ → Prop) :
    Prop where
  view : ∀ {n m₁ m₂}, R n m₁ m₂ → m₁.view = m₂.view
  methods : ∀ {n m₁ m₂}, R n m₁ m₂ → m₁.store.methods = m₂.store.methods
  frames : ∀ {n m₁ m₂}, R n m₁ m₂ → m₁.frames.length = m₂.frames.length
  say : ∀ {n m₁ m₂} place notice, R n m₁ m₂ → R n (m₁.say place notice) (m₂.say place notice)
  set : ∀ {n m₁ m₂} name value, R n m₁ m₂ → R n (m₁.set name value) (m₂.set name value)
  remove : ∀ {n m₁ m₂} name, R n m₁ m₂ → R n (m₁.remove name) (m₂.remove name)
  setArrays : ∀ {n m₁ m₂} arrays, R n m₁ m₂ → R n (m₁.setArrays arrays) (m₂.setArrays arrays)
  register : ∀ {n m₁ m₂} method, R n m₁ m₂ →
    R n { m₁ with store := m₁.store.register method } { m₂ with store := m₂.store.register method }
  perform : ∀ {n m₁ m₂} request, R n m₁ m₂ →
    Outcome.Rel (R n) (m₁.perform request) (m₂.perform request)
  enter : ∀ {n m₁ m₂} method name scope, m₁.frames.length < config.maxCallDepth → R n m₁ m₂ →
    R (n + 1) (m₁.enterCall method name scope) (m₂.enterCall method name scope)
  leave : ∀ {n m₁ m₂} name, R (n + 1) m₁ m₂ →
    (m₁.leaveCall name).1 = (m₂.leaveCall name).1 ∧
      R n (m₁.leaveCall name).2 (m₂.leaveCall name).2

/-- The run takes machines that are related at level `n` to outcomes that are. -/
def Respects (R : Nat → Machine σ → Machine σ → Prop) (n : Nat) (run : Machine σ → Outcome σ) :
    Prop :=
  ∀ m₁ m₂, R n m₁ m₂ → Outcome.Rel (R n) (run m₁) (run m₂)

theorem respects_done (R : Nat → Machine σ → Machine σ → Prop) (n : Nat) :
    Respects R n Outcome.done :=
  fun _ _ h => .done h

/-- Related outcomes stay related under a next step that respects the relation; if the surface
stopped one run, it stopped both. -/
theorem Outcome.Rel.andThen {R : Nat → Machine σ → Machine σ → Prop} {n : Nat}
    {o₁ o₂ : Outcome σ} {next : Machine σ → Outcome σ} (h : Outcome.Rel (R n) o₁ o₂)
    (hnext : Respects R n next) : Outcome.Rel (R n) (o₁.andThen next) (o₂.andThen next) := by
  cases h with
  | done h => exact hnext _ _ h
  | stopped e h => exact .stopped e h

namespace Lockstep

variable [Surface σ] {config : Config} {R : Nat → Machine σ → Machine σ → Prop} {n : Nat}

/-! ## Commands -/

theorem sayAll (lock : Lockstep config R) (place : Place) (notices : List Notice)
    {m₁ m₂ : Machine σ} (h : R n m₁ m₂) :
    R n (m₁.sayAll place notices) (m₂.sayAll place notices) := by
  induction notices generalizing m₁ m₂ with
  | nil => exact h
  | cons notice rest ih =>
    rw [sayAll_cons, sayAll_cons]
    exact ih (lock.say place notice h)

theorem setAll (lock : Lockstep config R) (bindings : List (String × Value))
    {m₁ m₂ : Machine σ} (h : R n m₁ m₂) : R n (m₁.setAll bindings) (m₂.setAll bindings) := by
  induction bindings generalizing m₁ m₂ with
  | nil => exact h
  | cons binding rest ih => exact ih (lock.set binding.1 binding.2 h)

/-- One plan does the same to related machines. -/
theorem carryOut (lock : Lockstep config R) (place : Place) (plan : Plan) :
    Respects R n (Machine.carryOut place plan) := by
  intro m₁ m₂ h
  have hsay := lock.sayAll place plan.notices h
  unfold Machine.carryOut
  cases plan.effect with
  | keep => exact .done hsay
  | bind bindings => exact .done (lock.setAll bindings hsay)
  | arrays arrays => exact .done (lock.setArrays arrays hsay)
  | request request => exact lock.perform request hsay

/-- A command does the same to related machines, since it sees the same. -/
theorem command (lock : Lockstep config R) (place : Place) (cmd : Command) :
    Respects R n (Machine.command config place cmd) := by
  intro m₁ m₂ h
  -- both machines show the command the same view, so that one plan serves for the two
  obtain ⟨plan, hplan⟩ := planned_command (σ := σ) config place cmd m₁.view
  have hrun₁ : m₁.command config place cmd = m₁.carryOut place plan := (hplan m₁ rfl).run
  have hrun₂ : m₂.command config place cmd = m₂.carryOut place plan :=
    (hplan m₂ (lock.view h).symm).run
  rw [hrun₁, hrun₂]
  exact lock.carryOut place plan m₁ m₂ h

/-- An evaluation yields and reports the same on related machines. -/
theorem query (lock : Lockstep config R) {place : Place} {ask : Machine σ → α × Machine σ}
    (hask : IsQuery place ask) {m₁ m₂ : Machine σ} (h : R n m₁ m₂) :
    (ask m₁).1 = (ask m₂).1 ∧ R n (ask m₁).2 (ask m₂).2 := by
  obtain ⟨a, notices, hanswer⟩ := hask.at m₁.view
  rw [hanswer m₁ rfl, hanswer m₂ (lock.view h).symm]
  exact ⟨rfl, lock.sayAll place notices h⟩

/-! ## Flow of control -/

/-- Related machines take the same way at a condition. -/
theorem branch (lock : Lockstep config R) (place : Place) (cond : String)
    {yes no : Machine σ → Outcome σ} (hyes : Respects R n yes) (hno : Respects R n no) :
    Respects R n (Machine.branch config place cond yes no) := by
  intro m₁ m₂ h
  obtain ⟨hsame, htest⟩ := lock.query (isQuery_test config.evalMode place cond) h
  by_cases hholds : (m₁.test config.evalMode place cond).1 = true
  · rw [branch_of_true hholds, branch_of_true (hsame ▸ hholds)]
    exact hyes _ _ htest
  · rw [branch_of_false hholds, branch_of_false (hsame ▸ hholds)]
    exact hno _ _ htest

/-- A `while` loop takes related machines to related outcomes if its body does, by induction on the
rounds left. -/
theorem whileLoop (lock : Lockstep config R) (place : Place) (cond : String)
    {body : Machine σ → Outcome σ} (hbody : Respects R n body) (rounds : Nat) :
    Respects R n (Machine.whileLoop config place cond body rounds) := by
  induction rounds with
  | zero =>
    intro m₁ m₂ h
    rw [whileLoop_zero, whileLoop_zero]
    exact lock.branch place cond (fun _ _ h => .done (lock.say place _ h)) (respects_done R n)
      m₁ m₂ h
  | succ rounds ih =>
    intro m₁ m₂ h
    rw [whileLoop_succ, whileLoop_succ]
    exact lock.branch place cond (fun m₁ m₂ h => (hbody m₁ m₂ h).andThen ih)
      (respects_done R n) m₁ m₂ h

theorem forRounds (lock : Lockstep config R) (place : Place) (var : String) (stop step : Float)
    {body : Machine σ → Outcome σ} (hbody : Respects R n body) (rounds : Nat) (counter : Float) :
    Respects R n (Machine.forRounds config place var stop step body rounds counter) := by
  induction rounds generalizing counter with
  | zero =>
    intro m₁ m₂ h
    rw [Machine.forRounds, Machine.forRounds]
    by_cases hrange : inRange counter stop step = true
    · rw [if_pos hrange, if_pos hrange]
      exact .done (lock.say place _ h)
    · rw [if_neg hrange, if_neg hrange]
      exact .done h
  | succ rounds ih =>
    intro m₁ m₂ h
    rw [forRounds_succ, forRounds_succ]
    by_cases hrange : inRange counter stop step = true
    · rw [if_pos hrange, if_pos hrange]
      exact (hbody _ _ (lock.set var _ h)).andThen (ih (counter + step))
    · rw [if_neg hrange, if_neg hrange]
      exact .done h

/-- A `for` loop takes related machines to related outcomes if its body does: both evaluate the same
range. -/
theorem forLoop (lock : Lockstep config R) (place : Place) (header : ForHeader)
    {body : Machine σ → Outcome σ} (hbody : Respects R n body) :
    Respects R n (Machine.forLoop config place header body) := by
  intro m₁ m₂ h
  obtain ⟨hsame, hrange⟩ := lock.query (isQuery_forRange config place header) h
  rw [forLoop_eq, forLoop_eq]
  generalize m₁.forRange config place header = range₁ at hsame hrange ⊢
  generalize m₂.forRange config place header = range₂ at hsame hrange ⊢
  obtain ⟨⟨start, stop, step⟩, after₁⟩ := range₁
  obtain ⟨bounds, after₂⟩ := range₂
  -- from here on the two loops have one range
  subst hsame
  by_cases hzero : step.abs < tolerance
  · simp only [if_pos hzero]
    exact .done (lock.say place _ hrange)
  · simp only [if_neg hzero]
    have hrounds := lock.forRounds place header.var stop step hbody config.maxIterations start
    exact (hrounds _ _ hrange).andThen fun _ _ h => .done (lock.remove header.var h)

/-- Leaving a call leads back to the level of the caller. -/
theorem leaveOutcome (lock : Lockstep config R) (place : Place) (name : String)
    {o₁ o₂ : Outcome σ} (h : Outcome.Rel (R (n + 1)) o₁ o₂) :
    Outcome.Rel (R n) (o₁.leave place name) (o₂.leave place name) := by
  cases h with
  | done hend =>
    obtain ⟨hresult, hleft⟩ := lock.leave name hend
    unfold Outcome.leave
    dsimp only
    rw [hresult]
    exact .done (lock.say place _ hleft)
  | stopped e hend => exact .stopped e (lock.leave name hend).2

/-- A call is rejected on both machines or entered on both, with the same arguments. Its body runs
one level higher. -/
theorem call (lock : Lockstep config R) {runMethod : List Stmt → Machine σ → Outcome σ}
    (hmethod : ∀ body, Respects R (n + 1) (runMethod body)) (place : Place) (name : String)
    (args : List String) : Respects R n (Machine.call config runMethod place name args) := by
  intro m₁ m₂ h
  have hmethods := lock.methods h
  have hframes := lock.frames h
  rcases rejects_or_enters config m₁ name args with ⟨cause, hrejects⟩ | ⟨method, henters⟩
  · rw [hrejects.call_eq, (hrejects.congr hmethods hframes).call_eq]
    exact .done (lock.say place _ h)
  · rw [henters.call_eq, (henters.congr hmethods hframes).call_eq]
    -- the arguments have the same values on both sides, and the bodies start in one scope
    obtain ⟨scope, notices, hbound⟩ :=
      (isQuery_bindParams (σ := σ) config place (method.header.params.zip args) {}).at m₁.view
    have hsaid := lock.sayAll place notices h
    have hentered : R (n + 1) (m₁.entered config place name args method)
        (m₂.entered config place name args method) := by
      simp only [entered, hbound m₁ rfl, hbound m₂ (lock.view h).symm]
      exact lock.enter method.name name scope henters.depth hsaid
    exact lock.leaveOutcome place name (hmethod method.body _ _ hentered)

/-! ## Statements -/

-- The bodies of methods run one level higher, whence `n + 1` in `hmethod`.
mutual

/-- A statement takes related machines to related outcomes if the bodies of methods do. -/
theorem stmt (lock : Lockstep config R) {runMethod : List Stmt → Machine σ → Outcome σ}
    (hmethod : ∀ body, Respects R (n + 1) (runMethod body)) :
    ∀ stmt : Stmt, Respects R n (stmt.run config runMethod)
  | .whileLoop place cond body => by
    intro m₁ m₂ h
    rw [Stmt.run, Stmt.run]
    exact lock.whileLoop place cond (lock.runAll hmethod body) _ m₁ m₂ h
  | .forLoop place header body => by
    intro m₁ m₂ h
    rw [Stmt.run, Stmt.run]
    exact lock.forLoop place header (lock.runAll hmethod body) m₁ m₂ h
  | .ifThen place cond thenBody => by
    intro m₁ m₂ h
    rw [run_ifThen, run_ifThen]
    exact lock.branch place cond (lock.runAll hmethod thenBody) (respects_done R n) m₁ m₂ h
  | .ifElse place cond thenBody elseBody => by
    intro m₁ m₂ h
    rw [run_ifElse, run_ifElse]
    exact lock.branch place cond (lock.runAll hmethod thenBody) (lock.runAll hmethod elseBody)
      m₁ m₂ h
  | .method place header lines body => by
    intro m₁ m₂ h
    rw [Stmt.run, Stmt.run]
    exact .done (lock.register ⟨header, lines, body⟩ (lock.say place _ h))
  | .call place name args => by
    intro m₁ m₂ h
    rw [Stmt.run, Stmt.run]
    exact lock.call hmethod place name args m₁ m₂ h
  | .command place cmd => by
    intro m₁ m₂ h
    rw [Stmt.run, Stmt.run]
    exact lock.command place cmd m₁ m₂ h

theorem runAll (lock : Lockstep config R) {runMethod : List Stmt → Machine σ → Outcome σ}
    (hmethod : ∀ body, Respects R (n + 1) (runMethod body)) :
    ∀ stmts : List Stmt, Respects R n (Drawscript.runAll config runMethod stmts)
  | [] => by
    intro m₁ m₂ h
    rw [Drawscript.runAll, Drawscript.runAll]
    exact .done h
  | stmt :: rest => by
    intro m₁ m₂ h
    rw [runAll_cons, runAll_cons]
    exact (lock.stmt hmethod stmt m₁ m₂ h).andThen (lock.runAll hmethod rest)

end

/-- By induction on the room for nested calls, at every level of the relation. -/
theorem runBody (lock : Lockstep config R) (room n : Nat) (stmts : List Stmt) :
    Respects R n (Drawscript.runBody config room stmts) := by
  induction room generalizing n stmts with
  | zero => exact lock.runAll (fun _ => respects_done R (n + 1)) stmts
  | succ room ih => exact lock.runAll (fun body => ih (n + 1) body) stmts

theorem runMethod (lock : Lockstep config R) (room n : Nat) (body : List Stmt) :
    Respects R n (Drawscript.runMethod config room body) := by
  cases room with
  | zero => exact respects_done R n
  | succ room => exact lock.runBody room n body

end Lockstep

end Drawscript
