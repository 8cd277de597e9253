import Drawscript.Exec
import Mathlib.Tactic

/-!
# Queries

A query evaluates a text for a machine. What it yields depends on the active variables alone, and
all that it changes is the list of reports (`IsQuery`). Every evaluation that a statement makes is a
query: the values and numbers of expressions, indices, conditions, the parts of a `write`, the
numbers of a drawing command, and the arguments of a call. For the numbers of arguments the yield
is given in closed form (`evalNumber_eq`).
-/

set_option autoImplicit false

namespace Drawscript

variable {σ α β : Type}

/-- The number that an argument text stands for, zero for a text, with the problems met. -/
def numberOf (mode : EvalMode) (scope : Scope) (text : List Char) : Value × List EvalError :=
  match Condition.valueOf mode scope text with
  | (.text s, errors) => (.real 0, errors ++ [.notNumeric s])
  | (value, errors) => (value, errors)

/-- The value is no text. -/
def Value.isNumber : Value → Bool
  | int _ => true
  | real _ => true
  | text _ => false

/-- What is computed as a float is stored as a number, whole or not. -/
theorem isNumber_ofFloat (x : Float) : (Value.ofFloat x).isNumber = true := by
  unfold Value.ofFloat
  cases Number.nearest? x with
  | none => rfl
  | some n =>
    dsimp only
    split_ifs with hnear
    · rfl
    · rfl

namespace Machine

/-! ## Reports in order -/

/-- Report notices that belong to a place, in order. -/
def sayAll (place : Place) (notices : List Notice) (m : Machine σ) : Machine σ :=
  { m with
    events := (notices.map fun notice => .reported ⟨notice, some place⟩).reverse ++ m.events }

theorem sayAll_cons (place : Place) (notice : Notice) (rest : List Notice) (m : Machine σ) :
    m.sayAll place (notice :: rest) = (m.say place notice).sayAll place rest := by
  simp only [sayAll, say, List.map_cons, List.reverse_cons, List.append_assoc,
    List.singleton_append]

/-- Notices in a row are reported one list after the other. -/
theorem sayAll_append (place : Place) (first second : List Notice) (m : Machine σ) :
    m.sayAll place (first ++ second) = (m.sayAll place first).sayAll place second := by
  simp only [sayAll, List.map_append, List.reverse_append, List.append_assoc]

theorem say_sayAll (place : Place) (notices : List Notice) (notice : Notice) (m : Machine σ) :
    (m.sayAll place notices).say place notice = m.sayAll place (notices ++ [notice]) := by
  rw [sayAll_append]
  rfl

@[simp] theorem sayAll_store (place : Place) (notices : List Notice) (m : Machine σ) :
    (m.sayAll place notices).store = m.store := rfl

@[simp] theorem sayAll_frames (place : Place) (notices : List Notice) (m : Machine σ) :
    (m.sayAll place notices).frames = m.frames := rfl

/-- The problems of an evaluation are reports like any others. -/
theorem reportAll_eq_sayAll (place : Place) (errors : List EvalError) (m : Machine σ) :
    m.reportAll place errors =
      m.sayAll place (errors.map fun e => .problem (.evaluation e)) := by
  induction errors generalizing m with
  | nil => rfl
  | cons e rest ih =>
    rw [List.map_cons, sayAll_cons]
    exact ih (m.report place (.evaluation e))

/-! ## Queries and their composition -/

/-- The evaluation looks at the active variables alone, and can only report. -/
def IsQuery (place : Place) (ask : Machine σ → α × Machine σ) : Prop :=
  ∃ answer : Scope → α × List Notice, ∀ m : Machine σ,
    ask m = ((answer m.store.scope).1, m.sayAll place (answer m.store.scope).2)

/-- On a given machine, a query changes nothing but the reports. -/
theorem IsQuery.apply {place : Place} {ask : Machine σ → α × Machine σ} (h : IsQuery place ask)
    (m : Machine σ) : ∃ a notices, ask m = (a, m.sayAll place notices) := by
  obtain ⟨answer, hanswer⟩ := h
  exact ⟨_, _, hanswer m⟩

theorem isQuery_pure (place : Place) (a : α) :
    IsQuery place fun m : Machine σ => (a, m) :=
  ⟨fun _ => (a, []), fun _ => rfl⟩

theorem isQuery_report (place : Place) (a : α) (cause : Cause) :
    IsQuery place fun m : Machine σ => (a, m.report place cause) :=
  ⟨fun _ => (a, [.problem cause]), fun _ => rfl⟩

/-- To be a query is a property of what is yielded and reported, not of how it is written. -/
theorem IsQuery.of_eq {place : Place} {ask ask' : Machine σ → α × Machine σ}
    (h : IsQuery place ask) (heq : ∀ m, ask' m = ask m) : IsQuery place ask' := by
  obtain ⟨answer, hanswer⟩ := h
  exact ⟨answer, fun m => (heq m).trans (hanswer m)⟩

/-- A query that goes on with what another query yielded. -/
theorem IsQuery.bind {place : Place} {ask : Machine σ → α × Machine σ}
    {next : α → Machine σ → β × Machine σ} (hask : IsQuery place ask)
    (hnext : ∀ a, IsQuery place (next a)) :
    IsQuery place fun m => next (ask m).1 (ask m).2 := by
  obtain ⟨answer, hanswer⟩ := hask
  choose reply hreply using hnext
  -- the first query leaves the scope alone, so the second one is asked in the scope of the first
  refine ⟨fun scope =>
    ((reply (answer scope).1 scope).1, (answer scope).2 ++ (reply (answer scope).1 scope).2),
    fun m => ?_⟩
  simp only [hanswer, hreply, sayAll_store, sayAll_append]

/-- A query that asks another one first, and is then a query of its own for each yield. -/
theorem IsQuery.of_yields {place : Place} {ask : Machine σ → α × Machine σ}
    {whole : Machine σ → β × Machine σ} (hask : IsQuery place ask)
    (hnext : ∀ a, ∃ next : Machine σ → β × Machine σ, IsQuery place next ∧
      ∀ m after, ask m = (a, after) → whole m = next after) : IsQuery place whole := by
  choose next hquery heq using hnext
  exact (hask.bind hquery).of_eq fun m => heq (ask m).1 m (ask m).2 rfl

/-- A query whose yield is passed through a function. -/
theorem IsQuery.map {place : Place} {ask : Machine σ → α × Machine σ} (f : α → β)
    (hask : IsQuery place ask) : IsQuery place fun m => (f (ask m).1, (ask m).2) :=
  hask.bind fun a => isQuery_pure place (f a)

/-! ## The evaluations of a machine -/

/-- The value of an expression, with the problems met reported in order. -/
theorem eval_eq (mode : EvalMode) (place : Place) (text : String) (m : Machine σ) :
    m.eval mode place text =
      ((Condition.valueOf mode m.store.scope text.toList).1,
        m.reportAll place (Condition.valueOf mode m.store.scope text.toList).2) := by
  unfold eval Condition.valueOf
  cases evaluate mode m.store.scope text.toList with
  | ok value => rfl
  | error e => rfl

/-- To evaluate an expression is a query. The others of this section are made from it. -/
theorem isQuery_eval (mode : EvalMode) (place : Place) (text : String) :
    IsQuery place fun m : Machine σ => m.eval mode place text :=
  ⟨fun scope => ((Condition.valueOf mode scope text.toList).1,
    (Condition.valueOf mode scope text.toList).2.map fun e => .problem (.evaluation e)),
    fun m => (eval_eq mode place text m).trans (by rw [reportAll_eq_sayAll])⟩

/-- A text where a number is expected is one more report. -/
theorem isQuery_evalNumber? (mode : EvalMode) (place : Place) (text : String) :
    IsQuery place fun m : Machine σ => m.evalNumber? mode place text := by
  refine (isQuery_eval mode place text).of_yields fun value => ?_
  cases value with
  | int n =>
    refine ⟨_, isQuery_pure place (some (.int n)), fun m after h => ?_⟩
    rw [evalNumber?, h]
  | real x =>
    refine ⟨_, isQuery_pure place (some (.real x)), fun m after h => ?_⟩
    rw [evalNumber?, h]
  | text s =>
    refine ⟨_, isQuery_report place none (.evaluation (.notNumeric s)), fun m after h => ?_⟩
    rw [evalNumber?, h]

theorem isQuery_evalNumber (mode : EvalMode) (place : Place) (text : String) :
    IsQuery place fun m : Machine σ => m.evalNumber mode place text :=
  (isQuery_evalNumber? mode place text).map fun value => value.getD (.real 0)

theorem isQuery_evalReal (mode : EvalMode) (place : Place) (text : String) :
    IsQuery place fun m : Machine σ => m.evalReal mode place text :=
  (isQuery_evalNumber mode place text).map fun value => value.number?.getD 0

theorem isQuery_evalWhole? (mode : EvalMode) (place : Place) (text : String) :
    IsQuery place fun m : Machine σ => m.evalWhole? mode place text :=
  (isQuery_evalNumber mode place text).map fun value => value.whole?

/-- A number that is not whole is reported where an index is expected. -/
theorem isQuery_evalIndex? (mode : EvalMode) (place : Place) (text : String) :
    IsQuery place fun m : Machine σ => m.evalIndex? mode place text := by
  refine (isQuery_evalWhole? mode place text).of_yields fun index => ?_
  cases index with
  | some index =>
    refine ⟨_, isQuery_pure place (some index), fun m after h => ?_⟩
    rw [evalIndex?, h]
  | none =>
    refine ⟨_, isQuery_report place none (.bounds (.nonIntegralIndex text)), fun m after h => ?_⟩
    rw [evalIndex?, h]

/-- To test a condition is a query. -/
theorem isQuery_test (mode : EvalMode) (place : Place) (text : String) :
    IsQuery place fun m : Machine σ => m.test mode place text :=
  ⟨fun scope => ((Condition.test mode scope text.toList).1,
    (Condition.test mode scope text.toList).2.map fun e => .problem (.evaluation e)),
    fun m => by simp only [test, reportAll_eq_sayAll]⟩

theorem isQuery_forStep (config : Config) (place : Place) (step : Option String) :
    IsQuery place fun m : Machine σ => m.forStep config place step := by
  cases step with
  | none => exact isQuery_pure place 1
  | some step => exact isQuery_evalReal config.evalMode place step

/-- To put together what a `write` shows is a query, by induction on its parts. Quoted parts are
taken as they stand. -/
theorem isQuery_writtenText (config : Config) (place : Place) (parts : List (List Char)) :
    IsQuery place fun m : Machine σ => writtenText config place parts m := by
  induction parts with
  | nil => exact isQuery_pure place ""
  | cons part rest ih =>
    simp only [writtenText]
    cases Text.unquote? part with
    | some inner => exact ih.map fun text => String.ofList inner ++ text
    | none =>
      exact (isQuery_eval config.evalMode place (String.ofList part)).bind fun value =>
        ih.map fun text => value.display ++ text

/-- To evaluate the arguments of a drawing command is a query, also when it ends at the first that
is not a whole number. -/
theorem isQuery_drawNumbers (config : Config) (place : Place) (op : DrawOp)
    (args : List (List Char)) :
    IsQuery place fun m : Machine σ => drawNumbers config place op args m := by
  induction args with
  | nil => exact isQuery_pure place (some [])
  | cons arg rest ih =>
    refine (isQuery_evalWhole? config.evalMode place (String.ofList arg)).of_yields fun number => ?_
    cases number with
    | none =>
      let problem : Cause := .parse (.nonIntegerArgument op.name (String.ofList arg))
      refine ⟨_, isQuery_report place none problem, fun m after h => ?_⟩
      rw [drawNumbers, h]
    | some n =>
      -- the rest of the arguments is evaluated only after a whole number
      refine ⟨_, ih.map fun numbers => numbers.map (n :: ·), fun m after h => ?_⟩
      rw [drawNumbers, h]

/-- A text is never taken for a number. -/
theorem isNumber_of_evalNumber? {mode : EvalMode} {place : Place} {text : String} {m : Machine σ}
    {value : Value} (h : (m.evalNumber? mode place text).1 = some value) :
    value.isNumber = true := by
  rw [evalNumber?] at h
  generalize m.eval mode place text = yielded at h
  obtain ⟨value', after⟩ := yielded
  cases value' with
  | int n => cases h; rfl
  | real x => cases h; rfl
  | text s => cases h

theorem isNumber_evalNumber (mode : EvalMode) (place : Place) (text : String) (m : Machine σ) :
    (m.evalNumber mode place text).1.isNumber = true := by
  have hvalue : (m.evalNumber mode place text).1 =
      (m.evalNumber? mode place text).1.getD (.real 0) := rfl
  rw [hvalue]
  cases hnumber : (m.evalNumber? mode place text).1 with
  | none => rfl
  | some value => exact isNumber_of_evalNumber? hnumber

/-! ## Arguments of a call -/

/-- The number of an argument in closed form, with the problems met reported in order. -/
theorem evalNumber_eq (mode : EvalMode) (place : Place) (text : String) (m : Machine σ) :
    m.evalNumber mode place text =
      ((numberOf mode m.store.scope text.toList).1,
        m.reportAll place (numberOf mode m.store.scope text.toList).2) := by
  rw [evalNumber, evalNumber?, eval_eq, numberOf]
  generalize Condition.valueOf mode m.store.scope text.toList = yielded
  obtain ⟨value, errors⟩ := yielded
  cases value with
  | int n => rfl
  | real x => rfl
  | text s => simp [reportAll]

/-- To bind the parameters of a call is a query: the arguments are evaluated in the scope of the
caller, not in the one that is being built. -/
theorem isQuery_bindParams (config : Config) (place : Place) (pairs : List (String × String))
    (scope : Scope) :
    IsQuery place fun m : Machine σ => bindParams config place pairs scope m := by
  induction pairs generalizing scope with
  | nil => exact isQuery_pure place scope
  | cons pair rest ih =>
    exact (isQuery_evalNumber config.evalMode place pair.2).bind fun value =>
      ih (scope.insert pair.1 value)

/-! ## Configurations -/

section

variable {config config' : Config}

/-- What is written depends on the configuration through the mode of evaluation only, and so do the
numbers, parameters and steps below. -/
theorem writtenText_congr (hmode : config'.evalMode = config.evalMode) (place : Place)
    (parts : List (List Char)) (m : Machine σ) :
    writtenText config' place parts m = writtenText config place parts m := by
  induction parts generalizing m with
  | nil => rfl
  | cons part rest ih => simp only [writtenText, ih, hmode]

theorem drawNumbers_congr (hmode : config'.evalMode = config.evalMode) (place : Place) (op : DrawOp)
    (args : List (List Char)) (m : Machine σ) :
    drawNumbers config' place op args m = drawNumbers config place op args m := by
  induction args generalizing m with
  | nil => rfl
  | cons arg rest ih => simp only [drawNumbers, ih, hmode]

theorem bindParams_congr (hmode : config'.evalMode = config.evalMode) (place : Place)
    (pairs : List (String × String)) (scope : Scope) (m : Machine σ) :
    bindParams config' place pairs scope m = bindParams config place pairs scope m := by
  induction pairs generalizing scope m with
  | nil => rfl
  | cons pair rest ih => simp only [bindParams, ih, hmode]

theorem forStep_congr (hmode : config'.evalMode = config.evalMode) (place : Place)
    (step : Option String) (m : Machine σ) :
    m.forStep config' place step = m.forStep config place step := by
  cases step with
  | none => rfl
  | some text => simp only [forStep, hmode]

end

end Machine

end Drawscript
