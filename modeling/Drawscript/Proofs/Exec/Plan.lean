import Drawscript.Proofs.Machine.Query
import Drawscript.Proofs.Store.Scopes
import Drawscript.Proofs.Table

/-!
# What a command does

A command looks at the active variables, the arrays and the innermost running call, and nothing
else. From what it sees it makes a plan: some notices, and one effect on the variables, the arrays
or the surface. `planned_command` says that running a command is carrying out such a plan, so that
whatever holds of the few effects holds of every command.
-/

set_option autoImplicit false

namespace Drawscript

variable {σ α : Type}

/-- What a command can see: the active variables, the arrays, and the innermost running call. -/
structure View where
  scope : Scope
  arrays : Table Cells
  frame : Option Frame

/-- A store that holds nothing but the arrays that can be seen. -/
def View.store (view : View) : Store :=
  { Store.empty .stack with arrays := view.arrays }

/-- The elements of an array that is declared with a kind and a size. -/
def Cells.declared (kind : String) (size : Int64) : Except ParseError Cells :=
  match ElementKind.ofName? kind with
  | none => .error (.invalidKind kind)
  | some kind =>
    if size.toInt ≤ 0 then .error (.invalidSize size)
    else if (maxArraySize : Int) < size.toInt then .error (.arrayTooLarge size maxArraySize)
    else .ok (Cells.zeros kind size.toInt.toNat)

/-- What a command can change. -/
inductive Effect where
  | keep
  | bind (bindings : List (String × Value))
  | arrays (arrays : Table Cells)
  | request (request : Request)

/-- The variables that an effect gives values to. -/
def Effect.names : Effect → List String
  | keep => []
  | bind bindings => bindings.map Prod.fst
  | arrays _ => []
  | request _ => []

/-- An effect is of the kind that a command has: a `peek` gives its variable the element that it
found, a declaration puts a new array in place, a `poke` replaces an element by one of the kind of
its array, and all else that is given to a variable is a number. -/
inductive Effect.Suits (view : View) : Command → Effect → Prop
  | keep (cmd : Command) : Suits view cmd .keep
  | request (cmd : Command) (request : Request) : Suits view cmd (.request request)
  | numbers {bindings : List (String × Value)} (cmd : Command)
      (hnumbers : ∀ binding ∈ bindings, binding.2.isNumber = true) :
      Suits view cmd (.bind bindings)
  | found {target array index : String} {i : Int64} {element : Value}
      (hfound : view.store.peek array i = .ok element) :
      Suits view (.peek target array index) (.bind [(target, element)])
  | declared {kind name size : String} {count : Int64} {cells : Cells}
      (hdeclared : Cells.declared kind count = .ok cells) :
      Suits view (.declareArray kind name size) (.arrays (view.arrays.insert name cells))
  | replaced {array index value : String} {i : Int64} {v element : Value} {position : Nat}
      (hreplaced : view.store.element array i v = .ok (position, element)) :
      Suits view (.poke array index value)
        (.arrays (view.arrays.modify array (·.set position element)))

theorem Effect.Suits.number {view : View} {value : Value} (cmd : Command) (name : String)
    (h : value.isNumber = true) : Effect.Suits view cmd (.bind [(name, value)]) :=
  .numbers cmd (List.forall_mem_singleton.2 h)

/-- What a command has decided to do: notices to report in order, and then one effect. -/
structure Plan where
  notices : List Notice
  effect : Effect

namespace Store

/-- What is declared does not depend on the store. -/
theorem declareArray_eq (store : Store) (name kind : String) (size : Int64) :
    store.declareArray name kind size = (Cells.declared kind size).map fun cells =>
      (cells, { store with arrays := store.arrays.insert name cells }) := by
  unfold declareArray Cells.declared
  cases ElementKind.ofName? kind with
  | none => rfl
  | some kind =>
    by_cases hpositive : size.toInt ≤ 0
    · simp only [hpositive, if_true, Except.map]
    · by_cases hlarge : (maxArraySize : Int) < size.toInt
      · simp only [hpositive, hlarge, if_true, if_false, Except.map]
      · simp only [hpositive, hlarge, if_false, Except.map]

end Store

namespace Machine

/-- What a command run on the machine can see. -/
def view (m : Machine σ) : View :=
  ⟨m.store.scope, m.store.arrays, m.frames.head?⟩

/-- Give variables their values, in order. -/
def setAll (bindings : List (String × Value)) (m : Machine σ) : Machine σ :=
  bindings.foldl (fun m binding => m.set binding.1 binding.2) m

/-- Replace the arrays. -/
def setArrays (arrays : Table Cells) (m : Machine σ) : Machine σ :=
  { m with store := { m.store with arrays := arrays } }

/-- Report the notices of a plan and bring about its effect. -/
def carryOut [Surface σ] (place : Place) (plan : Plan) (m : Machine σ) : Outcome σ :=
  match plan.effect with
  | .keep => .done (m.sayAll place plan.notices)
  | .bind bindings => .done ((m.sayAll place plan.notices).setAll bindings)
  | .arrays arrays => .done ((m.sayAll place plan.notices).setArrays arrays)
  | .request request => (m.sayAll place plan.notices).perform request

/-- Giving variables their values is not an event. -/
theorem events_setAll (bindings : List (String × Value)) (m : Machine σ) :
    (m.setAll bindings).events = m.events := by
  induction bindings generalizing m with
  | nil => rfl
  | cons binding rest ih => exact ih (m.set binding.1 binding.2)

/-- A report does not change what a command sees. -/
@[simp] theorem view_sayAll (place : Place) (notices : List Notice) (m : Machine σ) :
    (m.sayAll place notices).view = m.view := by
  simp only [view, sayAll_store, sayAll_frames]

/-- What a query yields and reports for machines that look the same. -/
theorem IsQuery.at {place : Place} {ask : Machine σ → α × Machine σ} (h : IsQuery place ask)
    (view : View) :
    ∃ a notices, ∀ m : Machine σ, m.view = view → ask m = (a, m.sayAll place notices) := by
  obtain ⟨answer, hanswer⟩ := h
  refine ⟨(answer view.scope).1, (answer view.scope).2, fun m hm => ?_⟩
  subst hm
  exact hanswer m

/-- Whether an element can be set is decided by what the command sees. -/
theorem element_of_view {m : Machine σ} {view : View} (hm : m.view = view) (name : String)
    (index : Int64) (value : Value) :
    m.store.element name index value = view.store.element name index value := by
  subst hm
  rfl

theorem peek_of_view {m : Machine σ} {view : View} (hm : m.view = view) (name : String)
    (index : Int64) : m.store.peek name index = view.store.peek name index := by
  subst hm
  rfl

/-! ## Commands -/

/-- The variables that a command gives values to when it is run. Assigning to the name of the
running method sets the name that it was called by as well. -/
def names (config : Config) (place : Place) (m : Machine σ) : Command → List String
  | .declareInt name init =>
    if init.all fun expr => (m.evalNumber? config.evalMode place expr).1.isSome then [name] else []
  | .declareReal name init =>
    if init.all fun expr => (m.evalNumber? config.evalMode place expr).1.isSome then [name] else []
  | .peek target array index =>
    if (m.evalIndex? config.evalMode place index).1.any fun i => (m.store.peek array i).isOk then
      [target]
    else []
  | .assign name expr =>
    if (m.evalNumber? config.evalMode place expr).1.isSome then
      ((m.frames.head?.filter fun frame => frame.method == name).map Frame.calledAs).toList ++
        [name]
    else []
  | _ => []

/-- Running a command is carrying out the plan, whose effect suits the command and gives values to
no variables but those named. -/
structure Serves [Surface σ] (config : Config) (place : Place) (cmd : Command) (m : Machine σ)
    (plan : Plan) : Prop where
  suits : plan.effect.Suits m.view cmd
  names : plan.effect.names ⊆ m.names config place cmd
  run : m.command config place cmd = m.carryOut place plan

/-- The run of a command is carrying out a plan that is decided by what the command can see. -/
def Planned (σ : Type) [Surface σ] (config : Config) (place : Place) (cmd : Command) : Prop :=
  ∀ view : View, ∃ plan : Plan, ∀ m : Machine σ, m.view = view → Serves config place cmd m plan

section

variable [Surface σ] (config : Config) (place : Place)

theorem planned_declareInt (name : String) (init : Option String) :
    Planned σ config place (.declareInt name init) := by
  intro view
  let stored (n : Int64) : Notice := .note ("int " ++ name ++ " = " ++ (Value.int n).display)
  cases init with
  | none =>
    exact ⟨⟨[stored 0], .bind [(name, .int 0)]⟩,
      fun m _ => ⟨.number _ name rfl, List.Subset.refl _, rfl⟩⟩
  | some expr =>
    obtain ⟨number, notices, hask⟩ :=
      (isQuery_evalNumber? (σ := σ) config.evalMode place expr).at view
    cases number with
    | none =>
      refine ⟨⟨notices, .keep⟩, fun m hm => ⟨.keep _, List.nil_subset _, ?_⟩⟩
      simp only [command, declareInt, hask m hm, carryOut]
    | some value =>
      have hnames (m : Machine σ) (hm : m.view = view) :
          m.names config place (.declareInt name (some expr)) = [name] := by
        simp only [names, Option.all_some, hask m hm, Option.isSome_some, if_true]
      cases hwhole : value.whole? with
      | some n =>
        refine ⟨⟨notices ++ [stored n], .bind [(name, .int n)]⟩,
          fun m hm => ⟨.number _ name rfl, hnames m hm ▸ List.Subset.refl _, ?_⟩⟩
        simp only [command, declareInt, hask m hm, hwhole, carryOut, sayAll_append]
        rfl
      | none =>
        -- a number that is not whole is reported, and the variable is declared all the same
        let problem : Notice := .problem (.evaluation (.notIntegral (value.number?.getD 0)))
        refine ⟨⟨notices ++ [problem, stored 0], .bind [(name, .int 0)]⟩,
          fun m hm => ⟨.number _ name rfl, hnames m hm ▸ List.Subset.refl _, ?_⟩⟩
        simp only [command, declareInt, hask m hm, hwhole, carryOut, sayAll_append]
        rfl

theorem planned_declareReal (name : String) (init : Option String) :
    Planned σ config place (.declareReal name init) := by
  intro view
  let stored (x : Float) : Notice := .note ("real " ++ name ++ " = " ++ (Value.real x).display)
  cases init with
  | none =>
    exact ⟨⟨[stored 0], .bind [(name, .real 0)]⟩,
      fun m _ => ⟨.number _ name rfl, List.Subset.refl _, rfl⟩⟩
  | some expr =>
    obtain ⟨number, notices, hask⟩ :=
      (isQuery_evalNumber? (σ := σ) config.evalMode place expr).at view
    cases number with
    | none =>
      refine ⟨⟨notices, .keep⟩, fun m hm => ⟨.keep _, List.nil_subset _, ?_⟩⟩
      simp only [command, declareReal, hask m hm, carryOut]
    | some value =>
      let x := value.number?.getD 0
      refine ⟨⟨notices ++ [stored x], .bind [(name, .real x)]⟩, fun m hm => ?_⟩
      have hnames : m.names config place (.declareReal name (some expr)) = [name] := by
        simp only [names, Option.all_some, hask m hm, Option.isSome_some, if_true]
      refine ⟨.number _ name rfl, hnames ▸ List.Subset.refl _, ?_⟩
      simp only [command, declareReal, hask m hm, carryOut, sayAll_append]
      rfl

theorem planned_declareArray (kind name size : String) :
    Planned σ config place (.declareArray kind name size) := by
  intro view
  obtain ⟨count, notices, hask⟩ := (isQuery_evalWhole? (σ := σ) config.evalMode place size).at view
  cases count with
  | none =>
    refine ⟨⟨notices ++ [.problem (.parse (.malformed "array size" size))], .keep⟩,
      fun m hm => ⟨.keep _, List.nil_subset _, ?_⟩⟩
    simp only [command, declareArray, hask m hm, carryOut, sayAll_append]
    rfl
  | some count =>
    cases hdeclared : Cells.declared kind count with
    | error e =>
      refine ⟨⟨notices ++ [.problem (.parse e)], .keep⟩,
        fun m hm => ⟨.keep _, List.nil_subset _, ?_⟩⟩
      simp only [command, declareArray, hask m hm, Store.declareArray_eq, hdeclared, Except.map,
        carryOut, sayAll_append]
      rfl
    | ok cells =>
      let message := "array " ++ cells.kind.name ++ " " ++ name ++ "[" ++ toString cells.size ++ "]"
      refine ⟨⟨notices ++ [.note message], .arrays (view.arrays.insert name cells)⟩,
        fun m hm => ⟨by rw [hm]; exact .declared hdeclared, List.nil_subset _, ?_⟩⟩
      simp only [command, declareArray, hask m hm, Store.declareArray_eq, hdeclared, Except.map,
        carryOut, sayAll_append, ← hm]
      rfl

/-- Setting an element has a plan: a report if a check fails, and otherwise the arrays with the
element set. -/
theorem planned_poke (array index value : String) :
    Planned σ config place (.poke array index value) := by
  intro view
  obtain ⟨position, notices, hask⟩ :=
    (isQuery_evalIndex? (σ := σ) config.evalMode place index).at view
  cases position with
  | none =>
    refine ⟨⟨notices, .keep⟩, fun m hm => ⟨.keep _, List.nil_subset _, ?_⟩⟩
    simp only [command, poke, hask m hm, carryOut]
  | some i =>
    -- the value is evaluated after the reports on the index, which do not change the view
    obtain ⟨number, more, hnumber⟩ :=
      (isQuery_evalNumber? (σ := σ) config.evalMode place value).at view
    have hview {m : Machine σ} (hm : m.view = view) : (m.sayAll place notices).view = view :=
      (view_sayAll place notices m).trans hm
    cases number with
    | none =>
      refine ⟨⟨notices ++ more, .keep⟩, fun m hm => ⟨.keep _, List.nil_subset _, ?_⟩⟩
      simp only [command, poke, hask m hm, hnumber _ (hview hm), carryOut, sayAll_append]
    | some v =>
      cases helement : view.store.element array i v with
      | error cause =>
        refine ⟨⟨notices ++ more ++ [.problem cause], .keep⟩,
          fun m hm => ⟨.keep _, List.nil_subset _, ?_⟩⟩
        have hstored := (element_of_view hm array i v).trans helement
        simp only [command, poke, hask m hm, hnumber _ (hview hm), sayAll_store, hstored, carryOut,
          sayAll_append]
        rfl
      | ok stored =>
        obtain ⟨position, element⟩ := stored
        let message := "poke " ++ array ++ "[" ++ toString i.toInt ++ "] = " ++ element.display
        refine ⟨⟨notices ++ more ++ [.note message],
          .arrays (view.arrays.modify array (·.set position element))⟩,
          fun m hm => ⟨by rw [hm]; exact .replaced helement, List.nil_subset _, ?_⟩⟩
        have hstored := (element_of_view hm array i v).trans helement
        simp only [command, poke, hask m hm, hnumber _ (hview hm), sayAll_store, hstored, carryOut,
          sayAll_append, Store.write, ← hm]
        rfl

theorem planned_peek (target array index : String) :
    Planned σ config place (.peek target array index) := by
  intro view
  obtain ⟨position, notices, hask⟩ :=
    (isQuery_evalIndex? (σ := σ) config.evalMode place index).at view
  cases position with
  | none =>
    refine ⟨⟨notices, .keep⟩, fun m hm => ⟨.keep _, List.nil_subset _, ?_⟩⟩
    simp only [command, peek, hask m hm, carryOut]
  | some i =>
    cases hpeek : view.store.peek array i with
    | error cause =>
      refine ⟨⟨notices ++ [.problem cause], .keep⟩, fun m hm => ⟨.keep _, List.nil_subset _, ?_⟩⟩
      have hfound := (peek_of_view hm array i).trans hpeek
      simp only [command, peek, hask m hm, sayAll_store, hfound, carryOut, sayAll_append]
      rfl
    | ok element =>
      let message := "peek " ++ target ++ " = " ++ array ++ "[" ++ toString i.toInt ++ "] = " ++
        element.display
      refine ⟨⟨notices ++ [.note message], .bind [(target, element)]⟩, fun m hm => ?_⟩
      have hfound := (peek_of_view hm array i).trans hpeek
      have hnames : m.names config place (.peek target array index) = [target] := by
        simp only [names, hask m hm, Option.any_some, hfound, Except.isOk, Except.toBool, if_true]
      refine ⟨by rw [hm]; exact .found hpeek, hnames ▸ List.Subset.refl _, ?_⟩
      simp only [command, peek, hask m hm, sayAll_store, hfound, carryOut, sayAll_append]
      rfl

/-- Assigning has a plan: one binding, or two when the value is also what the running call
returns. -/
theorem planned_assign (name expr : String) : Planned σ config place (.assign name expr) := by
  intro view
  obtain ⟨number, notices, hask⟩ :=
    (isQuery_evalNumber? (σ := σ) config.evalMode place expr).at view
  cases number with
  | none =>
    refine ⟨⟨notices, .keep⟩, fun m hm => ⟨.keep _, List.nil_subset _, ?_⟩⟩
    simp only [command, assign, hask m hm, carryOut]
  | some value =>
    cases hframe : view.frame.filter fun frame => frame.method == name with
    | none =>
      refine ⟨⟨notices ++ [.note (name ++ " = " ++ value.display)], .bind [(name, value)]⟩,
        fun m hm => ?_⟩
      have hhead : m.frames.head? = view.frame := congrArg View.frame hm
      have hnames : m.names config place (.assign name expr) = [name] := by
        simp only [names, hask m hm, Option.isSome_some, if_true, hhead, hframe, Option.map_none,
          Option.toList_none, List.nil_append]
      have hnumber := isNumber_of_evalNumber? (congrArg Prod.fst (hask m hm))
      refine ⟨.number _ name hnumber, hnames ▸ List.Subset.refl _, ?_⟩
      simp only [command, assign, hask m hm, sayAll_frames, hhead, hframe, carryOut, sayAll_append]
      rfl
    | some frame =>
      -- inside a call of the method itself, the name it was called by is set as well
      refine ⟨⟨notices ++ [.note (name ++ " = " ++ value.display ++ " (return value)")],
        .bind [(frame.calledAs, value), (name, value)]⟩, fun m hm => ?_⟩
      have hhead : m.frames.head? = view.frame := congrArg View.frame hm
      have hnames : m.names config place (.assign name expr) = [frame.calledAs, name] := by
        simp only [names, hask m hm, Option.isSome_some, if_true, hhead, hframe, Option.map_some,
          Option.toList_some, List.singleton_append]
      have hnumber := isNumber_of_evalNumber? (congrArg Prod.fst (hask m hm))
      refine ⟨.numbers _ (List.forall_mem_cons.2 ⟨hnumber, List.forall_mem_singleton.2 hnumber⟩),
        hnames ▸ List.Subset.refl _, ?_⟩
      simp only [command, assign, hask m hm, sayAll_frames, hhead, hframe, carryOut, sayAll_append]
      rfl

theorem planned_write (text : String) : Planned σ config place (.write text) := by
  intro view
  obtain ⟨written, notices, hask⟩ :=
    (isQuery_writtenText (σ := σ) config place (writeParts text.toList)).at view
  refine ⟨⟨notices, .request (.text written)⟩,
    fun m hm => ⟨.request _ _, List.nil_subset _, ?_⟩⟩
  simp only [command, hask m hm, carryOut]

/-- Drawing has a plan: reports if the arguments do not serve, and otherwise a request. -/
theorem planned_draw (op : DrawOp) (args : String) :
    Planned σ config place (.draw op args) := by
  intro view
  -- the number of arguments is checked on the text, before any of them is evaluated
  by_cases hfew : (drawArgs args.toList).length < op.arity
  · let problem : ParseError :=
      .missingArguments op.name op.arity (drawArgs args.toList).length
    refine ⟨⟨[.problem (.parse problem)], .keep⟩, fun m _ => ⟨.keep _, List.nil_subset _, ?_⟩⟩
    simp only [command, draw, hfew, if_true]
    rfl
  · obtain ⟨numbers, notices, hask⟩ := (isQuery_drawNumbers (σ := σ) config place op
      ((drawArgs args.toList).take op.arity)).at view
    cases numbers with
    | none =>
      refine ⟨⟨notices, .keep⟩, fun m hm => ⟨.keep _, List.nil_subset _, ?_⟩⟩
      simp only [command, draw, hfew, if_false, hask m hm, carryOut]
    | some numbers =>
      cases hrequest : op.request? numbers with
      | none =>
        refine ⟨⟨notices, .keep⟩, fun m hm => ⟨.keep _, List.nil_subset _, ?_⟩⟩
        simp only [command, draw, hfew, if_false, hask m hm, hrequest, carryOut]
      | some request =>
        refine ⟨⟨notices, .request request⟩,
          fun m hm => ⟨.request _ _, List.nil_subset _, ?_⟩⟩
        simp only [command, draw, hfew, if_false, hask m hm, hrequest, carryOut]

/-- Running a command is carrying out a plan made from what the command can see. -/
theorem planned_command (cmd : Command) : Planned σ config place cmd := by
  cases cmd with
  | declareInt name init => exact planned_declareInt config place name init
  | declareReal name init => exact planned_declareReal config place name init
  | declareArray kind name size => exact planned_declareArray config place kind name size
  | poke array index value => exact planned_poke config place array index value
  | peek target array index => exact planned_peek config place target array index
  | assign name expr => exact planned_assign config place name expr
  | write text => exact planned_write config place text
  | draw op args => exact planned_draw config place op args
  | unknown text =>
    exact fun _ => ⟨⟨[.problem (.resolution (.unknownCommand text))], .keep⟩,
      fun _ _ => ⟨.keep _, List.nil_subset _, rfl⟩⟩

end

/-! ## What a command leaves alone -/

theorem store_setAll (bindings : List (String × Value)) (m : Machine σ) :
    ∃ active, (m.setAll bindings).store =
        { m.store with scopes := { m.store.scopes with active := active } } ∧
      ∀ name ∉ bindings.map Prod.fst, active.get? name = m.store.get? name := by
  induction bindings generalizing m with
  | nil => exact ⟨m.store.scopes.active, rfl, fun _ _ => rfl⟩
  | cons binding rest ih =>
    obtain ⟨active, hstore, hkeep⟩ := ih (m.set binding.1 binding.2)
    refine ⟨active, hstore, fun name hname => ?_⟩
    obtain ⟨hfirst, hrest⟩ := not_or.1 (mt List.mem_cons.2 hname)
    exact (hkeep name hrest).trans (Table.get?_insert_of_ne _ _ hfirst)

theorem store_perform [Surface σ] (request : Request) (m : Machine σ) :
    (m.perform request).machine.store = m.store := by
  unfold perform
  rcases Surface.perform request m.surface with ⟨_ | e, surface⟩
  · rfl
  · rfl

/-- What is known of all variables held is still known of them, if it holds of what is bound. -/
theorem all_setAll {P : String → Value → Prop} {m : Machine σ}
    (h : m.store.scopes.All (Table.All P)) {bindings : List (String × Value)}
    (hbindings : ∀ binding ∈ bindings, P binding.1 binding.2) :
    (m.setAll bindings).store.scopes.All (Table.All P) := by
  induction bindings generalizing m with
  | nil => exact h
  | cons binding rest ih =>
    obtain ⟨hbinding, hrest⟩ := List.forall_mem_cons.1 hbindings
    have hset : (m.set binding.1 binding.2).store.scopes.All (Table.All P) :=
      h.activate (h.active.insert hbinding)
    exact ih hset hrest

/-- A plan leaves the kept scopes and the methods as they are. -/
theorem store_carryOut [Surface σ] (place : Place) (plan : Plan) (m : Machine σ) :
    ∃ active arrays, (m.carryOut place plan).machine.store =
        { m.store with scopes := { m.store.scopes with active := active }, arrays := arrays } ∧
      ∀ name ∉ plan.effect.names, active.get? name = m.store.get? name := by
  obtain ⟨notices, effect⟩ := plan
  cases effect with
  | keep => exact ⟨m.store.scopes.active, m.store.arrays, rfl, fun _ _ => rfl⟩
  | bind bindings =>
    obtain ⟨active, hstore, hkeep⟩ := store_setAll bindings (m.sayAll place notices)
    exact ⟨active, m.store.arrays, hstore, hkeep⟩
  | arrays arrays => exact ⟨m.store.scopes.active, arrays, rfl, fun _ _ => rfl⟩
  | request request =>
    exact ⟨m.store.scopes.active, m.store.arrays, store_perform request _, fun _ _ => rfl⟩

/-- A command changes the store in the active variables and the arrays alone, and of the variables
only those that it gives values to. -/
theorem store_command [Surface σ] (config : Config) (place : Place) (cmd : Command)
    (m : Machine σ) :
    ∃ active arrays, (m.command config place cmd).machine.store =
        { m.store with scopes := { m.store.scopes with active := active }, arrays := arrays } ∧
      ∀ name ∉ m.names config place cmd, active.get? name = m.store.get? name := by
  obtain ⟨plan, hplan⟩ := planned_command (σ := σ) config place cmd m.view
  obtain ⟨-, hnames, hrun⟩ := hplan m rfl
  obtain ⟨active, arrays, hstore, hkeep⟩ := store_carryOut place plan m
  rw [hrun]
  exact ⟨active, arrays, hstore, fun name hname => hkeep name fun h => hname (hnames h)⟩

/-- A command looks at no part of the configuration but the mode of evaluation. -/
theorem command_congr [Surface σ] {config config' : Config}
    (hmode : config'.evalMode = config.evalMode) (place : Place) (cmd : Command) (m : Machine σ) :
    m.command config' place cmd = m.command config place cmd := by
  cases cmd with
  | write text => simp only [command, writtenText_congr hmode]
  | draw op args => simp only [command, draw, drawNumbers_congr hmode]
  | declareInt name init => simp only [command, declareInt, hmode]
  | declareReal name init => simp only [command, declareReal, hmode]
  | declareArray kind name size => simp only [command, declareArray, hmode]
  | poke array index value => simp only [command, poke, hmode]
  | peek target array index => simp only [command, peek, hmode]
  | assign name expr => simp only [command, assign, hmode]
  | unknown text => rfl

end Machine

end Drawscript
