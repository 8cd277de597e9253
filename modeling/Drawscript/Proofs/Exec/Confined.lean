import Drawscript.Canvas.Basic
import Drawscript.Proofs.Exec.RunLaw

/-!
# What one statement can change

An evaluation reports problems of value and does nothing else (`Evaluated`), and problems of value
are no errors. So a command that reports an error has met it in a check of its own, and it makes its
checks before it changes anything (`checksFirst_command`). Hence a statement that is rejected with
an error leaves the store, the running calls and the surface as they were, and a command that
reports no error changes no more than what it names (`run_unchanged_of_error`).
-/

set_option autoImplicit false

namespace Drawscript

open Machine

variable {σ : Type}

/-! ## Errors -/

/-- Store, running calls and surface are the same. -/
structure Untouched (m m' : Machine σ) : Prop where
  store : m'.store = m.store
  frames : m'.frames = m.frames
  surface : m'.surface = m.surface

/-- Reports touch neither the store nor the calls nor the surface. -/
theorem untouched_sayAll (place : Place) (notices : List Notice) (m : Machine σ) :
    Untouched m (m.sayAll place notices) :=
  ⟨rfl, rfl, rfl⟩

theorem Untouched.say {m m' : Machine σ} (h : Untouched m m') (place : Place) (notice : Notice) :
    Untouched m (m'.say place notice) :=
  ⟨h.store, h.frames, h.surface⟩

/-- From one machine to the other no error is reported. -/
def Mild (m m' : Machine σ) : Prop :=
  ∃ reported, m'.diagnostics = m.diagnostics ++ reported ∧ ∀ d ∈ reported, d.isError = false

theorem diagnostics_say (place : Place) (notice : Notice) (m : Machine σ) :
    (m.say place notice).diagnostics = m.diagnostics ++ [⟨notice, some place⟩] := by
  unfold diagnostics say
  rw [List.reverse_cons, List.filterMap_append]
  rfl

/-- Diagnostics are listed in the order of the reports. -/
theorem diagnostics_sayAll (place : Place) (notices : List Notice) (m : Machine σ) :
    (m.sayAll place notices).diagnostics =
      m.diagnostics ++ notices.map fun notice => ⟨notice, some place⟩ := by
  induction notices generalizing m with
  | nil => exact (List.append_nil _).symm
  | cons notice rest ih =>
    rw [sayAll_cons, ih, diagnostics_say, List.append_assoc]
    rfl

theorem diagnostics_setAll (bindings : List (String × Value)) (m : Machine σ) :
    (m.setAll bindings).diagnostics = m.diagnostics := by
  unfold diagnostics
  rw [events_setAll]

/-- A request to the surface is no report. -/
theorem diagnostics_perform [Surface σ] (request : Request) (m : Machine σ) :
    (m.perform request).machine.diagnostics = m.diagnostics := by
  have hrequested (refusal : Option CanvasError) (surface : σ) :
      diagnostics { m with surface, events := .requested request refusal :: m.events } =
        m.diagnostics := by
    unfold diagnostics
    rw [List.reverse_cons, List.filterMap_append]
    exact List.append_nil _
  unfold Machine.perform
  rcases Surface.perform request m.surface with ⟨_ | e, surface⟩
  · exact hrequested none surface
  · exact hrequested (some e) surface

namespace Mild

variable {m m' m'' : Machine σ}

theorem refl (m : Machine σ) : Mild m m :=
  ⟨[], (List.append_nil _).symm, fun _ hd => absurd hd List.not_mem_nil⟩

/-- Whether a change is mild depends on the diagnostics alone. -/
theorem of_diagnostics (h : Mild m m') (hsame : m''.diagnostics = m'.diagnostics) :
    Mild m m'' := by
  obtain ⟨reported, hreported, hmild⟩ := h
  exact ⟨reported, hsame.trans hreported, hmild⟩

/-- One more notice is mild unless it is an error. -/
theorem say (h : Mild m m') (place : Place) {notice : Notice} (hnotice : notice.severity ≠ .error) :
    Mild m (m'.say place notice) := by
  obtain ⟨reported, hreported, hmild⟩ := h
  refine ⟨reported ++ [⟨notice, some place⟩], ?_, fun d hd => ?_⟩
  · rw [diagnostics_say, hreported, List.append_assoc]
  · rcases List.mem_append.1 hd with hd | hd
    · exact hmild d hd
    · rw [List.mem_singleton.1 hd]
      exact decide_eq_false hnotice

theorem note (h : Mild m m') (place : Place) (message : String) : Mild m (m'.note place message) :=
  h.say place fun hseverity => nomatch hseverity

/-- A problem of value is no error. -/
theorem reportAll (h : Mild m m') (place : Place) (errors : List EvalError) :
    Mild m (m'.reportAll place errors) := by
  induction errors generalizing m' with
  | nil => exact h
  | cons e rest ih => exact ih (h.say place fun hseverity => nomatch hseverity)

theorem set (h : Mild m m') (name : String) (value : Value) : Mild m (m'.set name value) :=
  h.of_diagnostics rfl

theorem perform [Surface σ] (h : Mild m m') (request : Request) :
    Mild m (m'.perform request).machine :=
  h.of_diagnostics (diagnostics_perform request m')

end Mild

/-! ## Evaluations -/

/-- Problems of value have been reported, and nothing else has been done. -/
def Evaluated (place : Place) (m m' : Machine σ) : Prop :=
  ∃ errors, m' = m.reportAll place errors

namespace Evaluated

variable {place : Place} {m m' m'' : Machine σ}

theorem refl (place : Place) (m : Machine σ) : Evaluated place m m :=
  ⟨[], rfl⟩

/-- Evaluations in a row are an evaluation. -/
theorem trans (h : Evaluated place m m') (h' : Evaluated place m' m'') :
    Evaluated place m m'' := by
  obtain ⟨errors, rfl⟩ := h
  obtain ⟨errors', rfl⟩ := h'
  exact ⟨errors ++ errors', List.foldl_append.symm⟩

/-- The problems of an evaluation are warnings. -/
theorem mild (h : Evaluated place m m') : Mild m m' := by
  obtain ⟨errors, rfl⟩ := h
  exact (Mild.refl m).reportAll place errors

theorem untouched (h : Evaluated place m m') : Untouched m m' := by
  obtain ⟨errors, rfl⟩ := h
  rw [reportAll_eq_sayAll]
  exact untouched_sayAll place _ m

end Evaluated

section

variable (mode : EvalMode) (config : Config) (place : Place)

theorem evaluated_eval (text : String) (m : Machine σ) :
    Evaluated place m (m.eval mode place text).2 :=
  ⟨_, congrArg Prod.snd (eval_eq mode place text m)⟩

theorem evaluated_evalNumber? (text : String) (m : Machine σ) :
    Evaluated place m (m.evalNumber? mode place text).2 :=
  ⟨_, congrArg Prod.snd (evalNumber_eq mode place text m)⟩

theorem evaluated_evalWhole? (text : String) (m : Machine σ) :
    Evaluated place m (m.evalWhole? mode place text).2 :=
  evaluated_evalNumber? mode place text m

theorem evaluated_writtenText (parts : List (List Char)) (m : Machine σ) :
    Evaluated place m (writtenText config place parts m).2 := by
  induction parts generalizing m with
  | nil => exact Evaluated.refl place m
  | cons part rest ih =>
    rw [writtenText]
    cases Text.unquote? part with
    | some inner => exact ih m
    | none =>
      exact (evaluated_eval config.evalMode place (String.ofList part) m).trans (ih _)

end

section

variable {mode : EvalMode} {config : Config} {place : Place} {m after : Machine σ}

/-- What is found to be an index has been evaluated, and nothing more. -/
theorem evaluated_of_evalIndex? {text : String} {index : Int64}
    (h : m.evalIndex? mode place text = (some index, after)) : Evaluated place m after := by
  have hwhole := evaluated_evalWhole? mode place text m
  rw [evalIndex?] at h
  generalize m.evalWhole? mode place text = yielded at h hwhole
  obtain ⟨number, before⟩ := yielded
  cases number with
  | none => cases congrArg Prod.fst h
  | some n =>
    cases h
    exact hwhole

/-- If all arguments are whole numbers, all that was reported is problems of evaluation. -/
theorem evaluated_of_drawNumbers {op : DrawOp} {args : List (List Char)} {numbers : List Int64}
    (h : drawNumbers config place op args m = (some numbers, after)) : Evaluated place m after := by
  induction args generalizing m numbers with
  | nil =>
    cases h
    exact Evaluated.refl place _
  | cons arg rest ih =>
    have hwhole := evaluated_evalWhole? config.evalMode place (String.ofList arg) m
    rw [drawNumbers] at h
    generalize m.evalWhole? config.evalMode place (String.ofList arg) = yielded at h hwhole
    obtain ⟨number, before⟩ := yielded
    cases number with
    | none => cases congrArg Prod.fst h
    | some n =>
      -- the numbers of the rest are there, or there would be none at all
      cases hrest : drawNumbers config place op rest before with
      | mk numbers? last =>
        simp only [hrest] at h
        cases numbers? with
        | none => cases congrArg Prod.fst h
        | some more =>
          cases congrArg Prod.snd h
          exact hwhole.trans (ih hrest)

end

/-! ## Commands -/

/-- If an error is reported, nothing else is done. -/
def ChecksFirst (m m' : Machine σ) : Prop :=
  Untouched m m' ∨ Mild m m'

section

variable (config : Config) (place : Place)

/-- Declarations and assignments to variables report no errors at all. -/
theorem mild_declareInt (name : String) (init : Option String) (m : Machine σ) :
    Mild m (m.declareInt config place name init) := by
  unfold declareInt
  cases init with
  | none => exact ((Mild.refl m).note place _).set name _
  | some expr =>
    have hnumber := (evaluated_evalNumber? config.evalMode place expr m).mild
    dsimp only
    generalize m.evalNumber? config.evalMode place expr = yielded at hnumber ⊢
    obtain ⟨number, after⟩ := yielded
    cases number with
    | none => exact hnumber
    | some value =>
      dsimp only
      cases value.whole? with
      | some n => exact (hnumber.note place _).set name _
      -- that a number is not whole is a problem of value, and zero is stored for it
      | none => exact ((hnumber.reportAll place [_]).note place _).set name _

theorem mild_declareReal (name : String) (init : Option String) (m : Machine σ) :
    Mild m (m.declareReal config place name init) := by
  unfold declareReal
  cases init with
  | none => exact ((Mild.refl m).note place _).set name _
  | some expr =>
    have hnumber := (evaluated_evalNumber? config.evalMode place expr m).mild
    dsimp only
    generalize m.evalNumber? config.evalMode place expr = yielded at hnumber ⊢
    obtain ⟨number, after⟩ := yielded
    cases number with
    | none => exact hnumber
    | some value => exact (hnumber.note place _).set name _

theorem mild_assign (name expr : String) (m : Machine σ) :
    Mild m (m.assign config place name expr) := by
  unfold assign
  have hnumber := (evaluated_evalNumber? config.evalMode place expr m).mild
  generalize m.evalNumber? config.evalMode place expr = yielded at hnumber ⊢
  obtain ⟨number, after⟩ := yielded
  cases number with
  | none => exact hnumber
  | some value =>
    dsimp only
    cases after.frames.head?.filter fun frame => frame.method == name with
    | none => exact (hnumber.note place _).set name value
    | some frame => exact ((hnumber.note place _).set frame.calledAs value).set name value

/-- The kind and the size of an array are checked before it is made. -/
theorem checksFirst_declareArray (kind name size : String) (m : Machine σ) :
    ChecksFirst m (m.declareArray config place kind name size) := by
  unfold declareArray
  have hcount := evaluated_evalWhole? config.evalMode place size m
  generalize m.evalWhole? config.evalMode place size = yielded at hcount ⊢
  obtain ⟨count, after⟩ := yielded
  cases count with
  | none => exact Or.inl (hcount.untouched.say place _)
  | some count =>
    dsimp only
    cases after.store.declareArray name kind count with
    | error e => exact Or.inl (hcount.untouched.say place _)
    | ok declared =>
      obtain ⟨cells, store⟩ := declared
      exact Or.inr ((hcount.mild.of_diagnostics rfl).note place _)

/-- An index that is none is reported, and nothing else is done. -/
theorem untouched_of_evalIndex? {index : String} {m after : Machine σ}
    (h : m.evalIndex? config.evalMode place index = (none, after)) : Untouched m after := by
  obtain ⟨_, notices, hask⟩ := (isQuery_evalIndex? config.evalMode place index).apply m
  cases h.symm.trans hask
  exact untouched_sayAll place notices m

/-- The array, the index and the value are checked before an element is set. -/
theorem checksFirst_poke (array index value : String) (m : Machine σ) :
    ChecksFirst m (m.poke config place array index value) := by
  unfold poke
  cases hindex : m.evalIndex? config.evalMode place index with
  | mk i? before =>
    cases i? with
    | none => exact Or.inl (untouched_of_evalIndex? config place hindex)
    | some i =>
      -- once there is an index, the array is looked at only after the value
      have hvalue := (evaluated_of_evalIndex? hindex).trans
        (evaluated_evalNumber? config.evalMode place value before)
      dsimp only
      generalize before.evalNumber? config.evalMode place value = yielded at hvalue ⊢
      obtain ⟨number, after⟩ := yielded
      cases number with
      | none => exact Or.inl hvalue.untouched
      | some v =>
        dsimp only
        cases after.store.element array i v with
        | error cause => exact Or.inl (hvalue.untouched.say place _)
        | ok stored => exact Or.inr ((hvalue.mild.of_diagnostics rfl).note place _)

theorem checksFirst_peek (target array index : String) (m : Machine σ) :
    ChecksFirst m (m.peek config place target array index) := by
  unfold Machine.peek
  cases hindex : m.evalIndex? config.evalMode place index with
  | mk i? after =>
    cases i? with
    | none => exact Or.inl (untouched_of_evalIndex? config place hindex)
    | some i =>
      have hi := evaluated_of_evalIndex? hindex
      dsimp only
      cases after.store.peek array i with
      | error cause => exact Or.inl (hi.untouched.say place _)
      | ok element => exact Or.inr ((hi.mild.note place _).set target element)

/-- The number of arguments and the arguments are checked before the surface is asked. -/
theorem checksFirst_draw [Surface σ] (op : DrawOp) (args : String) (m : Machine σ) :
    ChecksFirst m (m.draw config place op args).machine := by
  unfold draw
  by_cases hfew : (drawArgs args.toList).length < op.arity
  · simp only [hfew, if_true]
    exact Or.inl (untouched_sayAll place [_] m)
  · -- of the arguments, one that is no whole number is an error, and nothing is drawn
    simp only [hfew, if_false]
    cases hnumbers : drawNumbers config place op ((drawArgs args.toList).take op.arity) m with
    | mk numbers? after =>
      cases numbers? with
      | none =>
        obtain ⟨_, notices, hask⟩ := (isQuery_drawNumbers config place op _).apply m
        cases hnumbers.symm.trans hask
        exact Or.inl (untouched_sayAll place notices m)
      | some numbers =>
        have hmild := (evaluated_of_drawNumbers hnumbers).mild
        dsimp only
        cases op.request? numbers with
        | none => exact Or.inr hmild
        | some request => exact Or.inr (hmild.perform request)

/-- A command makes its checks before it changes anything. -/
theorem checksFirst_command [Surface σ] (cmd : Command) (m : Machine σ) :
    ChecksFirst m (m.command config place cmd).machine := by
  cases cmd with
  | declareInt name init => exact Or.inr (mild_declareInt config place name init m)
  | declareReal name init => exact Or.inr (mild_declareReal config place name init m)
  | declareArray kind name size => exact checksFirst_declareArray config place kind name size m
  | poke array index value => exact checksFirst_poke config place array index value m
  | peek target array index => exact checksFirst_peek config place target array index m
  | assign name expr => exact Or.inr (mild_assign config place name expr m)
  | write text =>
    have hwritten := evaluated_writtenText config place (writeParts text.toList) m
    exact Or.inr (hwritten.mild.perform _)
  | draw op args => exact checksFirst_draw config place op args m
  | unknown text => exact Or.inl (untouched_sayAll place [_] m)

end

/-! ## What a command names -/

namespace Store

/-- All that is different is values of variables in the active scope, and of the given ones only. -/
def DiffersIn (names : List String) (store store' : Store) : Prop :=
  ∃ active : Scope, store' = { store with scopes := { store.scopes with active := active } } ∧
    ∀ name ∉ names, active.get? name = store.get? name

/-- All that is different is the array of a name. -/
def DiffersInArray (name : String) (store store' : Store) : Prop :=
  ∃ arrays : Table Cells, store' = { store with arrays := arrays } ∧
    ∀ other, other ≠ name → arrays.get? other = store.arrays.get? other

theorem differsIn_refl (names : List String) (store : Store) : store.DiffersIn names store :=
  ⟨store.scopes.active, rfl, fun _ _ => rfl⟩

theorem differsInArray_refl (name : String) (store : Store) : store.DiffersInArray name store :=
  ⟨store.arrays, rfl, fun _ _ => rfl⟩

end Store

/-- The store has changed in what the command names and nowhere else. An assignment to the name of
the running method can also change the variable under the name that it was called by. -/
def Command.Confines (frame? : Option Frame) (store store' : Store) : Command → Prop
  | declareInt name _ => store.DiffersIn [name] store'
  | declareReal name _ => store.DiffersIn [name] store'
  | declareArray _ name _ => store.DiffersInArray name store'
  | poke array _ _ => store.DiffersInArray array store'
  | peek target _ _ => store.DiffersIn [target] store'
  | assign name _ =>
    store.DiffersIn
      (((frame?.filter fun frame => frame.method == name).map Frame.calledAs).toList ++ [name])
      store'
  | write _ => store' = store
  | draw _ _ => store' = store
  | unknown _ => store' = store

namespace Command

/-- A command that changes nothing is confined to anything. -/
theorem confines_refl (frame? : Option Frame) (store : Store) (cmd : Command) :
    cmd.Confines frame? store store := by
  cases cmd with
  | declareInt name init => exact store.differsIn_refl _
  | declareReal name init => exact store.differsIn_refl _
  | declareArray kind name size => exact store.differsInArray_refl name
  | poke array index value => exact store.differsInArray_refl array
  | peek target array index => exact store.differsIn_refl _
  | assign name expr => exact store.differsIn_refl _
  | write text => rfl
  | draw op args => rfl
  | unknown text => rfl

/-- Giving values to some variables changes no other, no array and no method. -/
theorem differsIn_setAll {bindings : List (String × Value)} {names : List String} {p : Prop}
    [Decidable p] (h : bindings.map Prod.fst ⊆ if p then names else []) (m : Machine σ) :
    m.store.DiffersIn names (m.setAll bindings).store := by
  obtain ⟨active, hstore, hkeep⟩ := store_setAll bindings m
  refine ⟨active, hstore, fun name hname => hkeep name fun hmem => hname ?_⟩
  have hgiven := h hmem
  split_ifs at hgiven with hp
  · exact hgiven
  · cases hgiven

/-- Giving values to variables that a command names when it is run, after some reports. -/
theorem confines_setAll {config : Config} {place : Place} {bindings : List (String × Value)}
    {cmd : Command} {m : Machine σ} (h : bindings.map Prod.fst ⊆ m.names config place cmd)
    (notices : List Notice) :
    cmd.Confines m.frames.head? m.store ((m.sayAll place notices).setAll bindings).store := by
  have hnone (hnames : m.names config place cmd = []) :
      ((m.sayAll place notices).setAll bindings).store = m.store := by
    rw [hnames] at h
    rw [List.map_eq_nil_iff.1 (List.subset_nil.1 h)]
    rfl
  -- a command that names no variable has given no values
  cases cmd with
  | declareInt name init => exact differsIn_setAll h (m.sayAll place notices)
  | declareReal name init => exact differsIn_setAll h (m.sayAll place notices)
  | peek target array index => exact differsIn_setAll h (m.sayAll place notices)
  | assign name expr => exact differsIn_setAll h (m.sayAll place notices)
  | declareArray kind name size => exact hnone rfl ▸ m.store.differsInArray_refl name
  | poke array index value => exact hnone rfl ▸ m.store.differsInArray_refl array
  | write text => exact hnone rfl
  | draw op args => exact hnone rfl
  | unknown text => exact hnone rfl

/-- Carrying out the plan of a command changes what the command names and nothing else. -/
theorem confines_carryOut [Surface σ] {config : Config} {place : Place} {cmd : Command}
    {m : Machine σ} {plan : Plan} (h : Serves config place cmd m plan) :
    cmd.Confines m.frames.head? m.store (m.carryOut place plan).machine.store := by
  obtain ⟨hsuits, hnames, -⟩ := h
  obtain ⟨notices, effect⟩ := plan
  cases hsuits with
  | keep => exact confines_refl _ m.store cmd
  | request _ request =>
    have hstore := store_perform request (m.sayAll place notices)
    exact hstore.symm ▸ confines_refl _ m.store cmd
  | numbers => exact confines_setAll hnames notices
  | found => exact confines_setAll hnames notices
  | @declared kind name size count cells hdeclared =>
    exact ⟨_, rfl, fun other hother => Table.get?_insert_of_ne m.store.arrays cells hother⟩
  | @replaced array index value i v element position hreplaced =>
    refine ⟨_, rfl, fun other hother => ?_⟩
    exact (Table.get?_modify m.store.arrays array _ other).trans (if_neg hother)

end Command

/-! ## Statements -/

/-- A statement that is a command, a call that is rejected, or a `for` loop with a step of zero. -/
inductive Stmt.Single (config : Config) (m : Machine σ) : Stmt → Prop
  | command (place : Place) (cmd : Command) : Single config m (.command place cmd)
  | call (place : Place) {name : String} {args : List String} {cause : ResolutionError}
      (hrejects : Rejects config m name args cause) : Single config m (.call place name args)
  | zeroStep {place : Place} {header : ForHeader} (body : List Stmt)
      (hzero : (m.forRange config place header).1.2.2.abs < tolerance) :
      Single config m (.forLoop place header body)

/-- A plan reports its notices and no more; in particular a request reports nothing. -/
theorem diagnostics_carryOut [Surface σ] (place : Place) (plan : Plan) (m : Machine σ) :
    (m.carryOut place plan).machine.diagnostics =
      m.diagnostics ++ plan.notices.map fun notice => ⟨notice, some place⟩ := by
  have hsay := diagnostics_sayAll place plan.notices m
  unfold carryOut
  cases plan.effect with
  | keep => exact hsay
  | bind bindings => exact (diagnostics_setAll bindings _).trans hsay
  | arrays arrays => exact hsay
  | request request => exact (diagnostics_perform request _).trans hsay

/-- What a statement has reported and done: if it reports an error, nothing else is done, and if it
reports none, it is a command and has changed no more than it names. -/
def Stmt.Heeds (stmt : Stmt) (m m' : Machine σ) : Prop :=
  ∃ reported, m'.diagnostics = m.diagnostics ++ reported ∧
    ((∃ d ∈ reported, d.isError = true) → Untouched m m') ∧
    ((∀ d ∈ reported, d.isError = false) →
      ∃ place cmd, stmt = .command place cmd ∧ cmd.Confines m.frames.head? m.store m'.store)

/-- A statement that ends with the report of an error, and has done nothing but report. -/
theorem heeds_report (stmt : Stmt) (place : Place) (notices : List Notice) {cause : Cause}
    (hcause : cause.family ≠ .evaluation) (m : Machine σ) :
    stmt.Heeds m ((m.sayAll place notices).report place cause) := by
  have herror : (⟨.problem cause, some place⟩ : Diagnostic).isError = true :=
    decide_eq_true (if_neg hcause)
  refine ⟨(notices.map fun notice => ⟨notice, some place⟩) ++ [⟨.problem cause, some place⟩],
    ?_, fun _ => (untouched_sayAll place notices m).say place _, fun hmild => ?_⟩
  · rw [report, diagnostics_say, diagnostics_sayAll, List.append_assoc]
  · have hnot := hmild _ (List.mem_append_right _ (List.mem_singleton_self _))
    exact absurd (herror.symm.trans hnot) Bool.true_eq_false.mp

/-- A command that reports an error changes nothing, and otherwise only what it names. -/
theorem heeds_command [Surface σ] (config : Config) (place : Place) (cmd : Command)
    (m : Machine σ) : (Stmt.command place cmd).Heeds m (m.command config place cmd).machine := by
  obtain ⟨plan, hplan⟩ := planned_command (σ := σ) config place cmd m.view
  have hserves := hplan m rfl
  refine ⟨plan.notices.map fun notice => ⟨notice, some place⟩, ?_, ?_, ?_⟩
  · rw [hserves.run]
    exact diagnostics_carryOut place plan m
  · rintro ⟨d, hd, herror⟩
    rcases checksFirst_command config place cmd m with huntouched | ⟨reported, hreported, hmild⟩
    · exact huntouched
    · -- what is reported has no error in it, so this is not the case
      rw [hserves.run, diagnostics_carryOut] at hreported
      rw [List.append_cancel_left hreported] at hd
      exact absurd (herror.symm.trans (hmild d hd)) Bool.true_eq_false.mp
  · intro _
    refine ⟨place, cmd, rfl, ?_⟩
    rw [hserves.run]
    exact Command.confines_carryOut hserves

/-- A statement on its own that is a command, a rejected call or a `for` loop with a step of zero
leaves the store, the running calls and the surface as they were if it reports an error. If it
reports none, then it is a command, and the store has changed in what the command names alone. -/
theorem run_unchanged_of_error [Surface σ] (config : Config) (room : Nat) {stmt : Stmt}
    {m : Machine σ} (h : stmt.Single config m) :
    let after := (runBody config room [stmt] m).machine
    ∃ reported, after.diagnostics = m.diagnostics ++ reported ∧
      ((∃ d ∈ reported, d.isError = true) →
        after.store = m.store ∧ after.frames = m.frames ∧ after.surface = m.surface) ∧
      ((∀ d ∈ reported, d.isError = false) → ∃ place cmd, stmt = .command place cmd ∧
        cmd.Confines m.frames.head? m.store after.store) := by
  intro after
  have hafter : after = (stmt.run config (runMethod config room) m).machine := by
    rw [← runAll_singleton, ← runBody_eq_runAll]
  have hheeds : stmt.Heeds m after := by
    rw [hafter]
    cases h with
    | command place cmd =>
      rw [Stmt.run]
      exact heeds_command config place cmd m
    | @call place name args cause hrejects =>
      rw [Stmt.run, hrejects.call_eq]
      have hfamily : (Cause.resolution cause).family ≠ .evaluation := fun h => nomatch h
      exact heeds_report _ place [] hfamily m
    | @zeroStep place header body hzero =>
      obtain ⟨⟨start, stop, step⟩, notices, hrange⟩ :=
        (isQuery_forRange config place header).apply m
      rw [hrange] at hzero
      rw [Stmt.run, forLoop_eq, hrange]
      simp only [if_pos hzero]
      have hfamily : (Cause.parse .zeroStep).family ≠ .evaluation := by decide
      exact heeds_report _ place notices hfamily m
  obtain ⟨reported, hreported, herror, hnone⟩ := hheeds
  exact ⟨reported, hreported,
    fun h => ⟨(herror h).store, (herror h).frames, (herror h).surface⟩, hnone⟩

/-- A machine with an array, in the middle of a call by a name in another case. -/
def inCall : Machine Canvas where
  store :=
    { scopes := { mode := .stack, active := ⟨[("n", .int 2)]⟩, kept := [⟨[("x", .int 7)]⟩] }
      arrays := ⟨[("a", Cells.zeros .int 2)]⟩ }
  frames := [⟨"f", "F"⟩]
  surface := { width := 640, height := 480 }

/-- A `poke` beyond the end of the array and a `for` loop with a step of zero are rejected, and the
result of the running call is set under both its names. -/
theorem run_unchanged_inCall :
    let place : Place := ⟨3, ⟨20, 32⟩⟩
    let poked := (runBody {} 1 [.command place (.poke "a" "5" "1")] inCall).machine
    let looped := (runBody {} 1 [.forLoop place ⟨"i", "1", "5", some "0"⟩ []] inCall).machine
    let assigned := (runBody {} 1 [.command place (.assign "f" "3")] inCall).machine
    ((∃ d ∈ poked.diagnostics, d.isError = true) ∧ poked.store = inCall.store) ∧
      ((∃ d ∈ looped.diagnostics, d.isError = true) ∧ looped.store = inCall.store) ∧
      (∀ d ∈ assigned.diagnostics, d.isError = false) ∧
      inCall.store.DiffersIn ["F", "f"] assigned.store := by
  intro place poked looped assigned
  have hpoked : ∃ d ∈ poked.diagnostics, d.isError = true :=
    List.any_eq_true.1 (by decide +kernel)
  have hlooped : ∃ d ∈ looped.diagnostics, d.isError = true :=
    List.any_eq_true.1 (by decide +kernel)
  have hassigned : ∀ d ∈ assigned.diagnostics, d.isError = false := by decide +kernel
  have hstep : (inCall.forRange {} place ⟨"i", "1", "5", some "0"⟩).1.2.2.abs < tolerance := by
    decide +kernel
  obtain ⟨reported, hreported, herror, -⟩ :=
    run_unchanged_of_error {} 1 (m := inCall) (.command place (.poke "a" "5" "1"))
  obtain ⟨reported', hreported', herror', -⟩ :=
    run_unchanged_of_error {} 1 (m := inCall) (.zeroStep [] hstep)
  obtain ⟨reported'', hreported'', -, hnone⟩ :=
    run_unchanged_of_error {} 1 (m := inCall) (.command place (.assign "f" "3"))
  refine ⟨⟨hpoked, ?_⟩, ⟨hlooped, ?_⟩, hassigned, ?_⟩
  · rw [show poked.diagnostics = reported from hreported] at hpoked
    exact (herror hpoked).1
  · rw [show looped.diagnostics = reported' from hreported'] at hlooped
    exact (herror' hlooped).1
  · rw [show assigned.diagnostics = reported'' from hreported''] at hassigned
    obtain ⟨_, _, hcommand, hconfined⟩ := hnone hassigned
    cases hcommand
    exact hconfined

end Drawscript
