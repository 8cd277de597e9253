import Drawscript.Config.Reader
import Drawscript.Files
import Drawscript.Json
import Drawscript.Prompt
import Drawscript.Render

/-!
# The command line

The command line as a function from its arguments, the files at hand and the input to what is written
and the exit code. General options may stand before or after the action; after it they count more.
-/

set_option autoImplicit false

namespace Drawscript.CommandLine

/-! ## Arguments -/

/-- The settings that general options give. -/
structure Options where
  configFile : Option String := none
  evalMode : Option EvalMode := none
  scopeMode : Option ScopeMode := none
  maxIterations : Option Nat := none
  log : Option String := none

/-- Settings with those of a second place counting more. -/
def Options.override (first second : Options) : Options :=
  { configFile := second.configFile.or first.configFile
    evalMode := second.evalMode.or first.evalMode
    scopeMode := second.scopeMode.or first.scopeMode
    maxIterations := second.maxIterations.or first.maxIterations
    log := second.log.or first.log }

/-- What the command can do. -/
inductive Action where
  | run
  | check
  | parse
  | repl
deriving Repr, DecidableEq

/-- The action with the given word. -/
def Action.ofWord? (word : String) : Option Action :=
  if word = "run" then some .run
  else if word = "check" then some .check
  else if word = "parse" then some .parse
  else if word = "repl" then some .repl
  else none

/-- The options of `run`. -/
structure RunOptions where
  verbose : Bool := false
  dumpVars : Bool := false
  traceCanvas : Bool := false

/-- What has been read of the arguments. -/
structure Arguments where
  /-- General options before the action. -/
  before : Options := {}
  action : Option Action := none
  /-- General options after the action. -/
  after : Options := {}
  runOptions : RunOptions := {}
  file : Option String := none
  /-- Only names of files may follow. -/
  onlyFiles : Bool := false

/-- What a command line asks for. -/
inductive Request where
  | version
  | help
  | perform (action : Action) (file : String) (options : Options) (runOptions : RunOptions)

/-- A number as the value of an option: digits after an optional plus sign, of at most 64 bits. -/
def count? (text : String) : Option Nat :=
  let digits :=
    match text.toList with
    | '+' :: rest => rest
    | digits => digits
  if !digits.isEmpty && digits.all Char.isDigit then
    let n := Number.digitsValue digits
    if n < 2 * Number.int64Bound then some n else none
  else none

/-- The settings with a general option, which must not have been given before in its place. -/
def Options.add? (options : Options) (name value : String) : Option Options :=
  if name = "config" then
    if options.configFile.isNone && !value.isEmpty then
      some { options with configFile := some value }
    else none
  else if name = "eval-mode" then
    match options.evalMode, EvalMode.ofName value with
    | none, .ok mode => some { options with evalMode := some mode }
    | _, _ => none
  else if name = "scope-mode" then
    match options.scopeMode, ScopeMode.ofName value with
    | none, .ok mode => some { options with scopeMode := some mode }
    | _, _ => none
  else if name = "max-iterations" then
    match options.maxIterations, count? value with
    | none, some n => some { options with maxIterations := some n }
    | _, _ => none
  else if name = "log" then
    if options.log.isNone then some { options with log := some value } else none
  else none

/-- The option takes a value. -/
def takesValue (name : String) : Bool :=
  name ∈ ["config", "eval-mode", "scope-mode", "max-iterations", "log"]

namespace Arguments

/-- The arguments with a general option. -/
def option? (args : Arguments) (name value : String) : Option Arguments :=
  match args.action with
  | none => (args.before.add? name value).map fun options => { args with before := options }
  | some _ => (args.after.add? name value).map fun options => { args with after := options }

/-- The arguments with an option of `run`, which must not have been given before. -/
def flag? (args : Arguments) (name : String) : Option Arguments :=
  let options := args.runOptions
  if args.action ≠ some .run then none
  else if name = "verbose" ∧ options.verbose = false then
    some { args with runOptions := { options with verbose := true } }
  else if name = "dump-vars" ∧ options.dumpVars = false then
    some { args with runOptions := { options with dumpVars := true } }
  else if name = "trace-canvas" ∧ options.traceCanvas = false then
    some { args with runOptions := { options with traceCanvas := true } }
  else none

/-- The arguments with a word that is no option: the action, or the file of an action that has
one. -/
def word? (args : Arguments) (word : String) : Option Arguments :=
  match args.action with
  | none =>
    if args.onlyFiles then none
    else (Action.ofWord? word).map fun action => { args with action := some action }
  | some .repl => none
  | some _ =>
    if args.file.isNone && !word.isEmpty then some { args with file := some word } else none

/-- What the arguments ask for, if nothing is missing. -/
def request? (args : Arguments) : Option Request :=
  let options := args.before.override args.after
  match args.action, args.file with
  | some .repl, _ => some (.perform .repl "" options args.runOptions)
  | some action, some file => some (.perform action file options args.runOptions)
  | _, _ => none

/-- Read letters after a single dash: the arguments with them, or what they ask for at once. -/
def letters? (args : Arguments) : List Char → Option (Arguments ⊕ Request)
  | [] => some (.inl args)
  | c :: rest =>
    if c = 'h' then some (.inr .help)
    else if c = 'V' ∧ args.action.isNone then some (.inr .version)
    else if c = 'v' then
      match args.flag? "verbose" with
      | some args => letters? args rest
      | none => none
    else none

/-- What the words after `help` ask for: at most one, the word of an action or `help` again. -/
def help? : List String → Option Request
  | [] => some .help
  | [word] => if word = "help" ∨ (Action.ofWord? word).isSome then some .help else none
  | _ => none

/-- Read arguments. -/
def read? (args : Arguments) : List String → Option Request
  | [] => args.request?
  | arg :: rest =>
    let word (_ : Unit) : Option Request :=
      match args.word? arg with
      | some args => read? args rest
      | none => none
    if args.onlyFiles then word ()
    else
      match arg.toList with
      | ['-', '-'] => read? { args with onlyFiles := true } rest
      | '-' :: '-' :: body =>
        match Text.cut? ['='] body with
        | some (name, value) =>
          match args.option? (String.ofList name) (String.ofList value) with
          | some args => read? args rest
          | none => none
        | none =>
          let name := String.ofList body
          if takesValue name then
            match rest with
            | [] => none
            | value :: rest =>
              if value.toList.head? = some '-' ∧ value ≠ "-" then none
              else
                match args.option? name value with
                | some args => read? args rest
                | none => none
          else if name = "help" then some .help
          else if name = "version" ∧ args.action.isNone then some .version
          else
            match args.flag? name with
            | some args => read? args rest
            | none => none
      | '-' :: c :: body =>
        match args.letters? (c :: body) with
        | some (.inl args) => read? args rest
        | some (.inr request) => some request
        | none => none
      | _ => if arg = "help" ∧ args.action.isNone then help? rest else word ()

end Arguments

/-! ## Actions -/

/-- What a command writes, and its exit code. -/
structure Result where
  exit : Nat := 0
  output : Output := {}

/-- A failure after some output. -/
def Result.failure (output : Output) (message : String) : Result :=
  ⟨1, output.append { err := "Error: " ++ message ++ "\n" }⟩

/-- The configuration of a command: that of its file, changed by its options. -/
def loadConfig (files : Files) (options : Options) : Except String Config :=
  let base : Except String Config :=
    match options.configFile with
    | none => .ok {}
    | some name =>
      match files name with
      | .error e => .error ("failed to read config file " ++ name ++ ": " ++ e.message)
      | .ok text =>
        match Config.parse text with
        | .ok config => .ok config
        | .error e => .error e.message
  match base with
  | .error message => .error message
  | .ok config =>
    .ok
      { config with
        evalMode := options.evalMode.getD config.evalMode
        scopeMode := options.scopeMode.getD config.scopeMode
        maxIterations := options.maxIterations.getD config.maxIterations }

/-- A diagnostic of a run: notes on the main channel if they are wanted, the others rendered on the
error channel. -/
def showDiagnostic (verbose : Bool) (file source : String) (d : Diagnostic) : Output :=
  if d.severity = .note then if verbose then .lines [d.display] else {}
  else { err := d.render file source }

/-- The variables of a store as JSON, sorted by name. -/
def variablesJson (store : Store) : Json :=
  .object (store.scope.sorted.map fun (name, value) => (name, value.toJson))

/-- Run a program. -/
def runFile (config : Config) (options : RunOptions) (file source : String) : Result :=
  match Canvas.new config.canvas.width config.canvas.height with
  | .error e => .failure {} e.message
  | .ok canvas =>
    let result := (Interpreter.new config).run source canvas
    let diagnostics :=
      (result.diagnostics.map (showDiagnostic options.verbose file source)).foldl Output.append {}
    let marks := if options.traceCanvas then result.surface.marks.toList.map Mark.display else []
    let dump :=
      if options.dumpVars then [(variablesJson result.interpreter.store).pretty 0] else []
    let output := diagnostics.append (.lines (result.surface.written ++ marks ++ dump))
    match result.error with
    | some e => .failure output e.message
    | none => ⟨0, output⟩

/-- The diagnostics of a parse, rendered on the error channel. -/
def renderAll (file source : String) (diagnostics : List Diagnostic) : Output :=
  { err := String.join (diagnostics.map (·.render file source)) }

/-- Report the problems of a program without running it. -/
def checkFile (file source : String) : Result :=
  let parsed := Parsed.ofSource source
  let output := renderAll file source parsed.diagnostics
  let problems := parsed.diagnostics.length
  let statements := parsed.stmts.length
  if parsed.hasErrors then .failure output s!"{file} has {problems} problem(s)"
  else
    ⟨0, output.append (.lines [s!"✓ {file} parses successfully ({statements} statements)"])⟩

/-- Print the statement tree of a program. -/
def parseFile (file source : String) : Result :=
  let parsed := Parsed.ofSource source
  ⟨0, (renderAll file source parsed.diagnostics).append
    (.lines [(programToJson parsed.stmts).pretty 0])⟩

/-- How the command is used. -/
def usage : String :=
  "Usage: boose [OPTIONS] <run|check|parse|repl> [FILE]"

/-- The names of the files that a request reads. -/
def Request.files : Request → List String
  | .perform action file options _ =>
    options.configFile.toList ++ if action = .repl then [] else [file]
  | _ => []

/-- Carry out a request. The configuration is loaded first, whatever the action. -/
def Request.carryOut (files : Files) (input : String) : Request → Result
  | .version => ⟨0, .lines ["boose 0.1.0"]⟩
  | .help => ⟨0, .lines [usage]⟩
  | .perform action file options runOptions =>
    match loadConfig files options with
    | .error message => .failure {} message
    | .ok config =>
      if action = .repl then ⟨0, Prompt.runAll config input⟩
      else
        match files file with
        | .error e => .failure {} e.message
        | .ok source =>
          match action with
          | .check => checkFile file source
          | .parse => parseFile file source
          | _ => runFile config runOptions file source

/-- The command: a request that cannot be understood is answered by its usage and exit code two. -/
def execute (args : List String) (files : Files) (input : String) : Result :=
  match Arguments.read? {} args with
  | some request => request.carryOut files input
  | none => ⟨2, { err := usage ++ "\n" }⟩

end Drawscript.CommandLine
