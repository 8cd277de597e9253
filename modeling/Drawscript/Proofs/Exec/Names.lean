import Drawscript.Proofs.Exec.History
import Drawscript.Proofs.Exec.Origin
import Drawscript.Proofs.Stmt.Names

/-!
# The names of variables and arrays

Names come into a store in few ways. A statement sets or declares what it names, which was checked
to be an identifier when it was read. A call binds the parameters of a method, and then its own name
to the result. Neither of the two is checked: parameters can be any words, and a call can be spelled
in any way that finds the method. `Coined` lists the ways for a program, and every step of a run
keeps to them (`Stage.Named.next`).

So all arrays have identifiers for names, at every stage of every run, and so have all variables if
the parameters are identifiers and no call is spelled with a Kelvin sign (`run_names_coined`).
-/

set_option autoImplicit false

namespace Drawscript

open Machine Text

variable {σ : Type} {program : List Stmt}

/-- The ways in which a name can come to a variable in runs of a program: it is an identifier, it is
a parameter of a method, or it stands in a call and is an identifier once Kelvin signs are read as
letters. -/
inductive Coined (program : List Stmt) (name : String) : Prop
  | identifier (h : isIdentifier name.toList = true)
  | param {place : Place} {header : MethodHeader} {lines : List Line} {body : List Stmt}
      (hmethod : .method place header lines body ∈ insideAll program)
      (hparam : name ∈ header.params)
  | called {place : Place} {args : List String} (hcall : .call place name args ∈ insideAll program)
      (hplain : isIdentifier (name.toList.map plainLetter) = true)

/-- The statements of the program give no names but identifiers. -/
def ChecksTargets (program : List Stmt) : Prop :=
  ∀ stmt ∈ insideAll program, ∀ name ∈ stmt.targets, isIdentifier name.toList = true

/-! ## Commands -/

/-- A command gives values to the variables that it names, and maybe to one that the running call is
known by. -/
theorem mem_names {config : Config} {place : Place} {m : Machine σ} {cmd : Command} {name : String}
    (h : name ∈ m.names config place cmd) :
    name ∈ cmd.targets ∨ ∃ frame ∈ m.frames, frame.calledAs = name := by
  -- a command that fails gives no values, and then there is nothing to show
  have hgiven {given : Prop} [Decidable given] {names : List String}
      (hmem : name ∈ if given then names else []) : name ∈ names := by
    split_ifs at hmem
    · exact hmem
    · cases hmem
  cases cmd with
  | declareInt name' init => exact Or.inl (hgiven h)
  | declareReal name' init => exact Or.inl (hgiven h)
  | peek target array index => exact Or.inl (hgiven h)
  | assign name' expr =>
    rcases List.mem_append.1 (hgiven h) with hcalled | hname
    · obtain ⟨frame, hframe, rfl⟩ := Option.map_eq_some_iff.1 (Option.mem_toList.1 hcalled)
      have hhead := (Option.filter_eq_some_iff.1 hframe).1
      exact Or.inr ⟨frame, List.mem_of_mem_head? hhead, rfl⟩
    · exact Or.inl hname
  | declareArray kind name' size => cases h
  | poke array index value => cases h
  | write text => cases h
  | draw op args => cases h
  | unknown text => cases h

/-- All variables held have names that are coined by the program, all arrays have identifiers, and
the running calls are known by coined names. -/
structure Machine.Named (program : List Stmt) (m : Machine σ) : Prop where
  scopes : m.store.scopes.All (Table.All fun name _ => Coined program name)
  arrays : m.store.arrays.All fun name _ => isIdentifier name.toList = true
  frames : ∀ frame ∈ m.frames, Coined program frame.calledAs

namespace Machine.Named

variable {m : Machine σ}

theorem congr (h : m.Named program) {m' : Machine σ} (hstore : m'.store = m.store)
    (hframes : m'.frames = m.frames) : m'.Named program :=
  ⟨hstore ▸ h.scopes, hstore ▸ h.arrays, hframes ▸ h.frames⟩

theorem set (h : m.Named program) {name : String} (hname : Coined program name) (value : Value) :
    (m.set name value).Named program :=
  ⟨h.scopes.activate (h.scopes.active.insert hname), h.arrays, h.frames⟩

theorem remove (h : m.Named program) (name : String) : (m.remove name).Named program :=
  ⟨h.scopes.activate (h.scopes.active.erase name), h.arrays, h.frames⟩

theorem arrays_of_suits (h : m.Named program) {cmd : Command} {arrays : Table Cells}
    (hsuits : Effect.Suits m.view cmd (.arrays arrays))
    (htargets : ∀ name ∈ cmd.targets, isIdentifier name.toList = true) :
    arrays.All fun name _ => isIdentifier name.toList = true := by
  cases hsuits with
  | declared hdeclared => exact h.arrays.insert (htargets _ List.mem_cons_self)
  | replaced hreplaced =>
    refine h.arrays.modify fun cells hcells => ?_
    -- an element is replaced in an array that is there already
    exact h.arrays.get? hcells

theorem command [Surface σ] (h : m.Named program) (config : Config) (place : Place) {cmd : Command}
    (htargets : ∀ name ∈ cmd.targets, isIdentifier name.toList = true) :
    (m.command config place cmd).machine.Named program := by
  obtain ⟨plan, hplan⟩ := planned_command (σ := σ) config place cmd m.view
  obtain ⟨hsuits, hnames, hrun⟩ := hplan m rfl
  have hcoined (name : String) (hname : name ∈ plan.effect.names) : Coined program name := by
    rcases mem_names (hnames hname) with htarget | ⟨frame, hframe, rfl⟩
    · exact .identifier (htargets name htarget)
    · exact h.frames frame hframe
  have hframes := (runLaw_keeps.command config place cmd m).frames
  rw [hrun] at hframes ⊢
  obtain ⟨notices, effect⟩ := plan
  have hsaid : (m.sayAll place notices).Named program := h.congr rfl rfl
  cases effect with
  | keep => exact hsaid
  | bind bindings =>
    obtain ⟨active, hstore, -⟩ := store_setAll bindings (m.sayAll place notices)
    have harrays := congrArg Store.arrays hstore
    refine ⟨all_setAll hsaid.scopes fun binding hbinding => ?_, ?_, hframes ▸ h.frames⟩
    · exact hcoined binding.1 (List.mem_map_of_mem hbinding)
    · exact harrays ▸ h.arrays
  | arrays arrays => exact ⟨h.scopes, h.arrays_of_suits hsuits htargets, h.frames⟩
  | request request => exact hsaid.congr (store_perform request _) hframes

/-- Inside a call the parameters of the method are variables, and the call is known by its name. -/
theorem entered (h : m.Named program) (config : Config) (place : Place) {name : String}
    (hname : Coined program name) (args : List String) {method : Method}
    (hparams : ∀ param ∈ method.header.params, Coined program param) :
    (m.entered config place name args method).Named program where
  scopes := by
    rw [store_entered]
    refine h.scopes.enter (all_bindParams config place (fun pair hpair _ _ => ?_) ?_ m)
    · exact hparams pair.1 (List.of_mem_zip hpair).1
    · exact Table.all_empty
  arrays := by
    rw [store_entered]
    exact h.arrays
  frames := by
    obtain ⟨scope, notices, hentered⟩ := entered_eq config place name args method m
    rw [hentered]
    exact List.forall_mem_cons.2 ⟨hname, h.frames⟩

/-- After a call its name is a variable. -/
theorem leave {o : Outcome σ} (h : o.machine.Named program) (place : Place) {name : String}
    (hname : Coined program name) : (o.leave place name).machine.Named program := by
  have hleft (m : Machine σ) (h : m.Named program) : (m.leaveCall name).2.Named program :=
    ⟨h.scopes.leave.activate (h.scopes.leave.active.insert hname), h.arrays,
      fun frame hframe => h.frames frame (List.mem_of_mem_tail hframe)⟩
  cases o with
  | done m => exact (hleft m h).congr rfl rfl
  | stopped e m => exact hleft m h

end Machine.Named

/-! ## Steps -/

/-- At a stage all names are coined, also those of the calls that are to be left. -/
structure Stage.Named (program : List Stmt) (s : Stage σ) : Prop where
  machine : s.machine.Named program
  leaves : ∀ place name, .leave place name ∈ s.tasks → Coined program name

namespace Stage.Named

/-- The name of a call that finds a method is coined. -/
theorem coined_of_enters {config : Config} {m : Machine σ} {place : Place} {name : String}
    {args : List String} {method : Method} (hchecks : ChecksTargets program)
    (hmethod : ∃ place, .method place method.header method.lines method.body ∈ insideAll program)
    (hcall : .call place name args ∈ insideAll program)
    (henters : Enters config m name args method) : Coined program name := by
  obtain ⟨place', hmethod⟩ := hmethod
  have hname : isIdentifier method.name.toList = true :=
    hchecks _ hmethod _ List.mem_cons_self
  exact .called hcall (isIdentifier_of_methodKey hname (Methods.methodKey_of_find? henters.found))

/-- The first task gives way to tasks that end no call. -/
theorem replace {task : Task} {rest tasks : List Task} {o o' : Outcome σ}
    (h : Stage.Named program ⟨task :: rest, o⟩) (htasks : ∀ task' ∈ tasks, task'.isLeave = false)
    (hmachine : o'.machine.Named program) : Stage.Named program ⟨tasks ++ rest, o'⟩ where
  machine := hmachine
  leaves place name hleave := by
    rcases List.mem_append.1 hleave with hnew | hrest
    · cases htasks _ hnew
    · exact h.leaves place name (List.mem_cons_of_mem task hrest)

/-- Every step coins names in the ways of the program. -/
theorem next [Surface σ] {config : Config} {s s' : Stage σ} (hchecks : ChecksTargets program)
    (hfrom : s.From program) (h : s.Named program) (hnext : s.next? config = some s') :
    s'.Named program := by
  cases moves_of_next? hnext with
  | goOn task rest m =>
    have hm : m.Named program := h.machine
    have htask : task.From program := (List.forall_mem_cons.1 hfrom.tasks).1
    have hdoes := task.step_does config m
    generalize task.step config m = after at hdoes
    cases hdoes with
    | leave place name =>
      refine h.replace (List.forall_mem_nil _) ?_
      exact Machine.Named.leave (o := .done m) hm place (h.leaves place name List.mem_cons_self)
    | @enter name args method place stmts henters =>
      obtain ⟨place', hmethod⟩ := hfrom.methods method (Methods.mem_of_find? henters.found)
      have hname := coined_of_enters hchecks ⟨place', hmethod⟩ htask.head henters
      -- a call brings in its parameters now, and the name it was made by when it is left
      refine ⟨hm.entered config place hname args fun param hparam => .param hmethod hparam, ?_⟩
      intro place' name' hleave
      rcases List.mem_append.1 hleave with hnew | hrest
      · simp only [List.mem_cons, reduceCtorEq, Task.leave.injEq, List.not_mem_nil, or_false,
          false_or] at hnew
        rw [hnew.2]
        exact hname
      · exact h.leaves place' name' (List.mem_cons_of_mem _ hrest)
    | register place header lines body stmts notice =>
      exact h.replace (List.forall_mem_singleton.2 rfl) ⟨hm.scopes, hm.arrays, hm.frames⟩
    | command place cmd stmts =>
      refine h.replace (List.forall_mem_singleton.2 rfl) (hm.command config place ?_)
      exact hchecks _ htask.head
    | round place var stop step body counter made =>
      obtain ⟨header, rfl, hloop⟩ := htask
      have hvar : isIdentifier header.var.toList = true := hchecks _ hloop _ List.mem_cons_self
      refine h.replace ?_ (hm.set (.identifier hvar) _)
      exact List.forall_mem_cons.2 ⟨rfl, List.forall_mem_singleton.2 rfl⟩
    | endFor place var stop step body counter made notices =>
      have hsaid : (m.sayAll place notices).Named program := hm.congr rfl rfl
      exact h.replace (List.forall_mem_nil _) (hsaid.remove var)
    | look place notices hlooks htasks hplace =>
      exact h.replace (fun task' htask' => (htasks task' htask').isLeave) (hm.congr rfl rfl)
  | giveUp task rest e m =>
    refine h.replace (List.forall_mem_nil _) ?_
    by_cases hleave : task.isLeave = true
    · obtain ⟨place, name, rfl⟩ := eq_leave_of_isLeave hleave
      exact Machine.Named.leave (o := .stopped e m) h.machine place
        (h.leaves place name List.mem_cons_self)
    · rw [giveUp_of_not_leave (Bool.eq_false_iff.2 hleave)]
      exact h.machine

end Stage.Named

/-! ## Runs -/

theorem run_named [Surface σ] (interpreter : Interpreter) (hchecks : ChecksTargets program)
    (surface : σ) {s : Stage σ}
    (hs : Leads interpreter.config
      (.start program { store := interpreter.reset.store, surface := surface }) s) :
    s.Named program := by
  obtain ⟨visited, hpath⟩ := hs
  -- a run starts without variables, arrays and calls
  have hempty : Machine.Named program
      ({ store := interpreter.reset.store, surface := surface } : Machine σ) :=
    ⟨List.forall_mem_singleton.2 Table.all_empty, Table.all_empty, List.forall_mem_nil _⟩
  have hstart : (Stage.start program
      { store := interpreter.reset.store, surface := surface }).Named program :=
    ⟨hempty, fun place name hleave => by cases List.mem_singleton.1 hleave⟩
  refine (hpath.invariant (P := fun s => s.From program ∧ s.Named program) ?_
    ⟨.start rfl, hstart⟩).2.2
  rintro s₁ s₂ ⟨hfrom, hnamed⟩ hnext
  exact ⟨hfrom.next hnext, hnamed.next hchecks hfrom hnext⟩

/-- The parameters of a method are identifiers, and the name in a call has no Kelvin sign. -/
def Stmt.isPlain : Stmt → Bool
  | .method _ header _ _ => header.params.all fun param => isIdentifier param.toList
  | .call _ name _ => !name.toList.contains kelvinSign
  | _ => true

theorem map_plainLetter {text : List Char} (h : kelvinSign ∉ text) :
    text.map plainLetter = text := by
  have hself (c : Char) (hc : c ∈ text) : plainLetter c = id c := by
    refine if_neg fun hkelvin => h ?_
    rwa [← hkelvin]
  rw [List.map_congr_left hself, List.map_id]

theorem Coined.isIdentifier {name : String} (h : Coined program name)
    (hplain : (insideAll program).all Stmt.isPlain = true) :
    Text.isIdentifier name.toList = true := by
  rw [List.all_eq_true] at hplain
  cases h with
  | identifier h => exact h
  | param hmethod hparam => exact List.all_eq_true.1 (hplain _ hmethod) name hparam
  | called hcall hspelled =>
    have hsign : kelvinSign ∉ name.toList := by
      simpa [Stmt.isPlain] using hplain _ hcall
    rwa [map_plainLetter hsign] at hspelled

/-- The names of the variables in all scopes held. -/
def Store.varNames (store : Store) : List String :=
  store.scopes.held.flatMap fun scope => scope.entries.map Prod.fst

/-- The names of the arrays. -/
def Store.arrayNames (store : Store) : List String :=
  store.arrays.entries.map Prod.fst

/-- At every stage of a run, however the interpreter was used before, all arrays have identifiers
for names, and the names of all variables held are coined by the program. They are identifiers as
well if the parameters of its methods are, and if no call in it is spelled with a Kelvin sign. -/
theorem run_names_coined [Surface σ] (interpreter : Interpreter) (source : String) (surface : σ)
    {s : Stage σ}
    (hs : Leads interpreter.config
      (.start (Parsed.ofSource source).stmts
        { store := interpreter.reset.store, surface := surface }) s) :
    let program := (Parsed.ofSource source).stmts
    (∀ name ∈ s.machine.store.arrayNames, isIdentifier name.toList = true) ∧
      (∀ name ∈ s.machine.store.varNames, Coined program name) ∧
      ((insideAll program).all Stmt.isPlain = true →
        ∀ name ∈ s.machine.store.varNames, isIdentifier name.toList = true) := by
  intro program
  have hnamed := (run_named interpreter (ofSource_targets source) surface hs).machine
  have hcoined (name : String) (hname : name ∈ s.machine.store.varNames) :
      Coined program name := by
    obtain ⟨scope, hscope, hmem⟩ := List.mem_flatMap.1 hname
    obtain ⟨entry, hentry, rfl⟩ := List.mem_map.1 hmem
    exact hnamed.scopes scope hscope entry hentry
  refine ⟨fun name hname => ?_, hcoined, fun hplain name hname => ?_⟩
  · obtain ⟨entry, hentry, rfl⟩ := List.mem_map.1 hname
    exact hnamed.arrays entry hentry
  · exact (hcoined name hname).isIdentifier hplain

/-- A program with a method that has a parameter and declares an array. -/
def hoarding : String :=
  "method int f n\narray int a 2\nend method\ncall f 7"

/-- The stage of the run of this program at which the method has declared the array. -/
def hoardingCall : Stage Canvas :=
  ((Stage.start (Parsed.ofSource hoarding).stmts
    ⟨.empty .stack, [], { width := 640, height := 480 }, []⟩).steps {} 3).2

/-- Inside the call the parameter and the array have identifiers for names. -/
theorem run_names_coined_hoarding :
    hoardingCall.machine.store.varNames = ["n"] ∧ hoardingCall.machine.store.arrayNames = ["a"] ∧
      (insideAll (Parsed.ofSource hoarding).stmts).all Stmt.isPlain = true ∧
      (∀ name ∈ hoardingCall.machine.store.arrayNames, isIdentifier name.toList = true) ∧
      ∀ name ∈ hoardingCall.machine.store.varNames, isIdentifier name.toList = true := by
  have hleads : Leads {} (.start (Parsed.ofSource hoarding).stmts
      ⟨.empty .stack, [], ({ width := 640, height := 480 } : Canvas), []⟩) hoardingCall :=
    ⟨_, path_steps _ 3 _⟩
  have hplain : (insideAll (Parsed.ofSource hoarding).stmts).all Stmt.isPlain = true := by
    decide +kernel
  obtain ⟨harrays, -, hnames⟩ := run_names_coined (.new {}) hoarding _ hleads
  refine ⟨?_, ?_, hplain, harrays, hnames hplain⟩
  · decide +kernel
  · decide +kernel

/-- A program with a method whose parameter is a number, and a call of it with a Kelvin sign. -/
def misnamed : String :=
  "method int k 5\nwrite 5\nend method\ncall \u212A 7"

/-- The stage of the run of this program after a number of steps. -/
def misnamedStage (steps : Nat) : Stage Canvas :=
  ((Stage.start (Parsed.ofSource misnamed).stmts
    ⟨.empty .stack, [], { width := 640, height := 480 }, []⟩).steps {} steps).2

/-- Inside the call there is a variable `5`, after it there is one with the name of the call, and
neither name is an identifier. The first variable changes what is written: `write 5` writes `7`. -/
theorem run_names_misnamed :
    (∀ steps, Leads {} (.start (Parsed.ofSource misnamed).stmts
      ⟨.empty .stack, [], ({ width := 640, height := 480 } : Canvas), []⟩)
        (misnamedStage steps)) ∧
      (misnamedStage 2).machine.store.varNames = ["5"] ∧ isIdentifier "5".toList = false ∧
      (misnamedStage 8).machine.store.varNames = ["\u212A"] ∧
      isIdentifier "\u212A".toList = false ∧
      ((Interpreter.new {}).run misnamed
        ({ width := 640, height := 480 } : Canvas)).surface.marks = #[.text .origin "7"] := by
  refine ⟨fun steps => ⟨_, path_steps _ steps _⟩, ?_, by decide, ?_, by decide, ?_⟩
  · decide +kernel
  · decide +kernel
  · decide +kernel

end Drawscript
