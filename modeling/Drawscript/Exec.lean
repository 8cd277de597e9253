import Drawscript.Machine
import Drawscript.Stmt.Arguments

/-!
# Running statements

Statements run by recursion on their tree. The body of a called method is not part of the tree of
the call, so the way to run it is a parameter of the recursion; `runBody` supplies it by recursion
on the number of calls that may still be nested. A loop runs by recursion on the number of rounds
that it may still make. So every run ends.
-/

set_option autoImplicit false

namespace Drawscript

variable {σ : Type}

/-! ## Commands -/

namespace Machine

/-- `int name` or `int name = init`: a value that is no integer is reported and zero is used. -/
def declareInt (config : Config) (place : Place) (name : String) (init : Option String)
    (m : Machine σ) : Machine σ :=
  let store (value : Value) (m : Machine σ) : Machine σ :=
    (m.note place ("int " ++ name ++ " = " ++ value.display)).set name value
  match init with
  | none => store (.int 0) m
  | some expr =>
    match m.evalNumber? config.evalMode place expr with
    | (none, m) => m
    | (some value, m) =>
      match value.whole? with
      | some n => store (.int n) m
      | none =>
        store (.int 0) (m.report place (.evaluation (.notIntegral (value.number?.getD 0))))

/-- `real name` or `real name = init`. -/
def declareReal (config : Config) (place : Place) (name : String) (init : Option String)
    (m : Machine σ) : Machine σ :=
  let store (x : Float) (m : Machine σ) : Machine σ :=
    (m.note place ("real " ++ name ++ " = " ++ (Value.real x).display)).set name (.real x)
  match init with
  | none => store 0 m
  | some expr =>
    match m.evalNumber? config.evalMode place expr with
    | (none, m) => m
    | (some value, m) => store (value.number?.getD 0) m

/-- `array kind name size`. -/
def declareArray (config : Config) (place : Place) (kind name size : String) (m : Machine σ) :
    Machine σ :=
  match m.evalWhole? config.evalMode place size with
  | (none, m) => m.report place (.parse (.malformed "array size" size))
  | (some count, m) =>
    match m.store.declareArray name kind count with
    | .error e => m.report place (.parse e)
    | .ok (cells, store) =>
      { m with store := store }.note place
        ("array " ++ cells.kind.name ++ " " ++ name ++ "[" ++ toString cells.size ++ "]")

/-- `poke array[index] = value`. -/
def poke (config : Config) (place : Place) (array index value : String) (m : Machine σ) :
    Machine σ :=
  match m.evalIndex? config.evalMode place index with
  | (none, m) => m
  | (some i, m) =>
    match m.evalNumber? config.evalMode place value with
    | (none, m) => m
    | (some v, m) =>
      match m.store.element array i v with
      | .error cause => m.report place cause
      | .ok (position, element) =>
        { m with store := m.store.write array position element }.note place
          ("poke " ++ array ++ "[" ++ toString i.toInt ++ "] = " ++ element.display)

/-- `peek target = array[index]`. -/
def peek (config : Config) (place : Place) (target array index : String) (m : Machine σ) :
    Machine σ :=
  match m.evalIndex? config.evalMode place index with
  | (none, m) => m
  | (some i, m) =>
    match m.store.peek array i with
    | .error cause => m.report place cause
    | .ok element =>
      (m.note place ("peek " ++ target ++ " = " ++ array ++ "[" ++ toString i.toInt ++ "] = " ++
        element.display)).set target element

/-- `name = expr`. Assigning to the name of the running method sets its result, which is kept under
the name that it was called by. -/
def assign (config : Config) (place : Place) (name expr : String) (m : Machine σ) : Machine σ :=
  match m.evalNumber? config.evalMode place expr with
  | (none, m) => m
  | (some value, m) =>
    match m.frames.head?.filter fun frame => frame.method == name with
    | some frame =>
      ((m.note place (name ++ " = " ++ value.display ++ " (return value)")).set frame.calledAs
        value).set name value
    | none => (m.note place (name ++ " = " ++ value.display)).set name value

/-- The text that the parts of a `write` give: quoted parts as they are, values of the others. -/
def writtenText (config : Config) (place : Place) :
    List (List Char) → Machine σ → String × Machine σ
  | [], m => ("", m)
  | part :: rest, m =>
    match Text.unquote? part with
    | some inner =>
      match writtenText config place rest m with
      | (text, m) => (String.ofList inner ++ text, m)
    | none =>
      match m.eval config.evalMode place (String.ofList part) with
      | (value, m) =>
        match writtenText config place rest m with
        | (text, m) => (value.display ++ text, m)

/-- The integers that drawing arguments stand for. The first that is none is reported, and the
drawing is left out. -/
def drawNumbers (config : Config) (place : Place) (op : DrawOp) :
    List (List Char) → Machine σ → Option (List Int64) × Machine σ
  | [], m => (some [], m)
  | arg :: rest, m =>
    match m.evalWhole? config.evalMode place (String.ofList arg) with
    | (none, m) =>
      (none, m.report place (.parse (.nonIntegerArgument op.name (String.ofList arg))))
    | (some n, m) =>
      match drawNumbers config place op rest m with
      | (numbers, m) => (numbers.map (n :: ·), m)

end Machine

/-- The request that a drawing command makes with its numbers. -/
def DrawOp.request? : DrawOp → List Int64 → Option Request
  | moveTo, [x, y] => some (.moveTo x y)
  | drawTo, [x, y] => some (.drawTo x y)
  | circle, [radius] => some (.circle radius)
  | rect, [width, height] => some (.rectangle width height)
  | pen, [r, g, b] => some (.penColor r g b)
  | clear, _ => some .clear
  | reset, _ => some .reset
  | _, _ => none

namespace Machine

/-- A drawing command. Arguments beyond those that it uses do not matter. -/
def draw [Surface σ] (config : Config) (place : Place) (op : DrawOp) (args : String)
    (m : Machine σ) : Outcome σ :=
  let parts := drawArgs args.toList
  if parts.length < op.arity then
    .done (m.report place (.parse (.missingArguments op.name op.arity parts.length)))
  else
    match drawNumbers config place op (parts.take op.arity) m with
    | (none, m) => .done m
    | (some numbers, m) =>
      match op.request? numbers with
      | some request => m.perform request
      | none => .done m

/-- Run a command. -/
def command [Surface σ] (config : Config) (place : Place) (command : Command) (m : Machine σ) :
    Outcome σ :=
  match command with
  | .declareInt name init => .done (m.declareInt config place name init)
  | .declareReal name init => .done (m.declareReal config place name init)
  | .declareArray kind name size => .done (m.declareArray config place kind name size)
  | .poke array index value => .done (m.poke config place array index value)
  | .peek target array index => .done (m.peek config place target array index)
  | .assign name expr => .done (m.assign config place name expr)
  | .write text =>
    match writtenText config place (writeParts text.toList) m with
    | (text, m) => m.perform (.text text)
  | .draw op args => m.draw config place op args
  | .unknown text => .done (m.report place (.resolution (.unknownCommand text)))

/-! ## Calls -/

/-- The scope of a method: each parameter with the value of its argument. -/
def bindParams (config : Config) (place : Place) :
    List (String × String) → Scope → Machine σ → Scope × Machine σ
  | [], scope, m => (scope, m)
  | (param, arg) :: rest, scope, m =>
    match m.evalNumber config.evalMode place arg with
    | (value, m) => bindParams config place rest (scope.insert param value) m

/-- Start a call: keep the variables of the caller and make those of the method active. -/
def enterCall (method name : String) (scope : Scope) (m : Machine σ) : Machine σ :=
  { m with store := m.store.enter scope, frames := ⟨method, name⟩ :: m.frames }

/-- End a call: take back the variables of the caller, and bind the result there to the name by which
the method was called. The result is the method's variable of that name, zero if there is none. -/
def leaveCall (name : String) (m : Machine σ) : Value × Machine σ :=
  match m.store.leave with
  | (left, store) =>
    let result := (left.bind fun scope => scope.get? name).getD (.int 0)
    (result, { m with store := store.set name result, frames := m.frames.tail })

/-- Call a method, whose body is run by `runMethod`. -/
def call (config : Config) (runMethod : List Stmt → Machine σ → Outcome σ) (place : Place)
    (name : String) (args : List String) (m : Machine σ) : Outcome σ :=
  match m.store.method? name with
  | none => .done (m.report place (.resolution (.unknownMethod name)))
  | some method =>
    let params := method.header.params
    if params.length ≠ args.length then
      .done (m.report place
        (.resolution (.arityMismatch method.name params.length args.length)))
    else if config.maxCallDepth ≤ m.frames.length then
      .done (m.report place (.resolution (.callDepthExceeded method.name config.maxCallDepth)))
    else
      match bindParams config place (params.zip args) {} m with
      | (scope, m) =>
        match runMethod method.body (m.enterCall method.name name scope) with
        | .done m =>
          match m.leaveCall name with
          | (result, m) => .done (m.note place (name ++ " returned " ++ result.display))
        | .stopped e m => .stopped e (m.leaveCall name).2

/-! ## Loops -/

/-- A `while` loop that may make `rounds` more rounds. -/
def whileLoop (config : Config) (place : Place) (cond : String)
    (body : Machine σ → Outcome σ) : Nat → Machine σ → Outcome σ
  | 0, m =>
    match m.test config.evalMode place cond with
    | (false, m) => .done m
    | (true, m) =>
      .done (m.warn place s!"while loop stopped after {config.maxIterations} iterations")
  | rounds + 1, m =>
    match m.test config.evalMode place cond with
    | (false, m) => .done m
    | (true, m) =>
      match body m with
      | .done m => whileLoop config place cond body rounds m
      | .stopped e m => .stopped e m

/-- A counter of a `for` loop has not passed the end. -/
def inRange (counter stop step : Float) : Bool :=
  (step > 0 && counter ≤ stop) || (step < 0 && counter ≥ stop)

/-- The rounds of a `for` loop that may make `rounds` more of them. -/
def forRounds (config : Config) (place : Place) (var : String) (stop step : Float)
    (body : Machine σ → Outcome σ) : Nat → Float → Machine σ → Outcome σ
  | 0, counter, m =>
    if inRange counter stop step then
      .done (m.warn place s!"for loop stopped after {config.maxIterations} iterations")
    else .done m
  | rounds + 1, counter, m =>
    if inRange counter stop step then
      match body (m.set var (Value.ofFloat counter)) with
      | .done m => forRounds config place var stop step body rounds (counter + step) m
      | .stopped e m => .stopped e m
    else .done m

/-- The step of a `for` loop, one if none is given. -/
def forStep (config : Config) (place : Place) (step : Option String) (m : Machine σ) :
    Float × Machine σ :=
  match step with
  | some step => m.evalReal config.evalMode place step
  | none => (1, m)

/-- A `for` loop. Its variable is forgotten at the end. -/
def forLoop (config : Config) (place : Place) (header : ForHeader)
    (body : Machine σ → Outcome σ) (m : Machine σ) : Outcome σ :=
  match m.evalReal config.evalMode place header.start with
  | (start, m) =>
    match m.evalReal config.evalMode place header.stop with
    | (stop, m) =>
      match m.forStep config place header.step with
      | (step, m) =>
        if step.abs < tolerance then .done (m.report place (.parse .zeroStep))
        else
          match forRounds config place header.var stop step body config.maxIterations start m with
          | .done m => .done (m.remove header.var)
          | .stopped e m => .stopped e m

end Machine

/-! ## Statements -/

mutual

/-- Run a statement. The bodies of called methods are run by `runMethod`. -/
def Stmt.run [Surface σ] (config : Config) (runMethod : List Stmt → Machine σ → Outcome σ) :
    Stmt → Machine σ → Outcome σ
  | .whileLoop place cond body, m =>
    m.whileLoop config place cond (runAll config runMethod body) config.maxIterations
  | .forLoop place header body, m =>
    m.forLoop config place header (runAll config runMethod body)
  | .ifThen place cond thenBody, m =>
    match m.test config.evalMode place cond with
    | (true, m) => runAll config runMethod thenBody m
    | (false, m) => .done m
  | .ifElse place cond thenBody elseBody, m =>
    match m.test config.evalMode place cond with
    | (true, m) => runAll config runMethod thenBody m
    | (false, m) => runAll config runMethod elseBody m
  | .method place header lines body, m =>
    let count := header.params.length
    let m := m.note place ("method " ++ header.name ++ s!" registered with {count} parameter(s)")
    .done { m with store := m.store.register ⟨header, lines, body⟩ }
  | .call place name args, m => m.call config runMethod place name args
  | .command place command, m => m.command config place command

/-- Run statements one after the other, up to the first that is stopped. -/
def runAll [Surface σ] (config : Config) (runMethod : List Stmt → Machine σ → Outcome σ) :
    List Stmt → Machine σ → Outcome σ
  | [], m => .done m
  | stmt :: rest, m =>
    match stmt.run config runMethod m with
    | .done m => runAll config runMethod rest m
    | .stopped e m => .stopped e m

end

/-- Run statements, with room for `depth` nested calls. A machine that keeps to the limit on nested
calls does not call a method when no room is left. -/
def runBody [Surface σ] (config : Config) : Nat → List Stmt → Machine σ → Outcome σ
  | 0, stmts, m => runAll config (fun _ m => .done m) stmts m
  | depth + 1, stmts, m =>
    runAll config (fun body m => runBody config depth body m) stmts m

end Drawscript
