import Drawscript.Diagnostic
import Drawscript.Source.Block
import Drawscript.Stmt.Arguments
import Drawscript.Stmt.Basic

/-!
# Reading statements

A program is read line by line. A line that opens a block takes the lines up to its terminator as
body, which are read in the same way; any other line is a command. A malformed line is reported and
left out, and so is a block whose header is malformed. A header without terminator is reported and
ends the reading, since the lines after it belong to the open block. A terminator that closes nothing
is passed over.
-/

set_option autoImplicit false

namespace Drawscript

open Text

namespace ForHeader

/-- The part is the given word, in any case. -/
def isWord (word : String) (part : List Char) : Bool :=
  sameLetters part word.toList

/-- The header `var start to stop`, or `var start to stop step width`, from its words before and after
`to`; the start, the stop and the width may have several words. -/
def ofParts? (before after : List (List Char)) : Option ForHeader :=
  match before with
  | var :: start@(_ :: _) =>
    let stop := after.takeWhile fun part => !isWord "step" part
    let step := (after.drop stop.length).tail?
    if isIdentifier var && !stop.isEmpty && step != some [] then
      some
        { var := String.ofList var
          start := String.ofList (spaced start)
          stop := String.ofList (spaced stop)
          step := step.map fun width => String.ofList (spaced width) }
    else none
  | _ => none

/-- The header of a loop from the text after its keyword. -/
def parse (rest : List Char) : Except ParseError ForHeader :=
  let parts := fields (fun c => isBlank c || c == '=') rest
  let before := parts.takeWhile fun part => !isWord "to" part
  match parts.drop before.length with
  | [] => .error (.missingTo (String.ofList rest))
  | _ :: after =>
    match ofParts? before after with
    | some header => .ok header
    | none => .error (.malformed "for header" (String.ofList rest))

end ForHeader

/-- The header of a method from the text after its keyword: result kind, name, and parameters among
which kinds may be written but do not matter. -/
def MethodHeader.parse (rest : List Char) : Except ParseError MethodHeader :=
  match fields (fun c => isBlank c || c == ',') rest with
  | result :: name :: params =>
    match ElementKind.ofName? (String.ofList result) with
    | none => .error (.invalidKind (String.ofList result))
    | some result =>
      if isIdentifier name then
        .ok
          { name := String.ofList name
            result := result
            params := (params.map String.ofList).filter fun p => (ElementKind.ofName? p).isNone }
      else .error (.malformed "method header" (String.ofList rest))
  | _ => .error (.malformed "method header" (String.ofList rest))

namespace Command

/-- The parts of a text before and after its first `=`, without surrounding blanks. -/
def atEquals? (text : List Char) : Option (List Char × List Char) :=
  (cut? ['='] text).map fun (left, right) => (trim left, trim right)

/-- `name` or `name = init`, the text after the keyword of a declaration. -/
def declaration? (rest : List Char) : Option (String × Option String) :=
  match atEquals? rest with
  | some (name, init) =>
    if isIdentifier name && !init.isEmpty then
      some (String.ofList name, some (String.ofList init))
    else none
  | none =>
    let name := trim rest
    if isIdentifier name then some (String.ofList name, none) else none

/-- `kind name size`, the text after `array`. -/
def array? (rest : List Char) : Option Command :=
  match words rest with
  | kind :: name :: size@(_ :: _) =>
    if isIdentifier name then
      some (.declareArray (String.ofList kind) (String.ofList name) (String.ofList (spaced size)))
    else none
  | _ => none

/-- `array[index]` or `array index`, the text of an array element. -/
def element? (text : List Char) : Option (String × String) :=
  let text := trim text
  let parts :=
    match cut? ['['] text with
    | some (name, rest) => (dropLast? ']' (trim rest)).map fun index => (trim name, trim index)
    | none => some (firstWord text)
  match parts with
  | some (name, index) =>
    if isIdentifier name && !index.isEmpty then some (String.ofList name, String.ofList index)
    else none
  | none => none

/-- `element = value`, the text after `poke`. -/
def poke? (rest : List Char) : Option Command :=
  match cut? ['='] rest with
  | some (target, value) =>
    match element? target with
    | some (array, index) =>
      let value := trim value
      if value.isEmpty then none else some (.poke array index (String.ofList value))
    | none => none
  | none => none

/-- `target = element`, the text after `peek`. -/
def peek? (rest : List Char) : Option Command :=
  match cut? ['='] rest with
  | some (target, source) =>
    let target := trim target
    if isIdentifier target then
      (element? source).map fun (array, index) => .peek (String.ofList target) array index
    else none
  | none => none

/-- An assignment, a drawing command or a line of no known form. -/
def parsePlain (text : List Char) : Except ParseError Command :=
  match atEquals? text with
  | some (name, expr) =>
    if isIdentifier name && !expr.isEmpty then
      .ok (.assign (String.ofList name) (String.ofList expr))
    else .error (.malformed "assignment" (String.ofList text))
  | none =>
    let (word, args) := firstWord text
    match DrawOp.ofWord? word with
    | some op => .ok (.draw op (String.ofList args))
    | none => .ok (.unknown (String.ofList text))

/-- The command on a line that neither opens a block nor calls a method. -/
def parse (text : List Char) : Except ParseError Command :=
  let orMalformed (what : String) (command : Option Command) : Except ParseError Command :=
    match command with
    | some command => .ok command
    | none => .error (.malformed what (String.ofList text))
  match afterKeyword? "int" text with
  | some rest =>
    orMalformed "declaration" ((declaration? rest).map fun (name, init) => .declareInt name init)
  | none =>
  match afterKeyword? "real" text with
  | some rest =>
    orMalformed "declaration" ((declaration? rest).map fun (name, init) => .declareReal name init)
  | none =>
  match afterKeyword? "array" text with
  | some rest => orMalformed "array declaration" (array? rest)
  | none =>
  match afterKeyword? "peek" text with
  | some rest => orMalformed "peek" (peek? rest)
  | none =>
  match afterKeyword? "poke" text with
  | some rest => orMalformed "poke" (poke? rest)
  | none =>
  match afterKeyword? "write" text with
  | some rest => .ok (.write (String.ofList rest))
  | none => parsePlain text

end Command

namespace Stmt

/-- The statement on a line that opens no block. -/
def parseLine (place : Place) (text : List Char) : Except ParseError Stmt :=
  match afterKeyword? "call" text with
  | some rest =>
    let (name, args) := firstWord rest
    if name.isEmpty then .error (.malformed "call" (String.ofList text))
    else .ok (.call place (String.ofList name) ((callArgs args).map String.ofList))
  | none =>
    match Command.parse text with
    | .ok cmd => .ok (.command place cmd)
    | .error e => .error e

end Stmt

/-- Statements read from lines, and the problems found on the way. -/
structure Parsed where
  stmts : List Stmt := []
  diagnostics : List Diagnostic := []

namespace Parsed

/-- A parse without statements that reports one problem at a line. -/
def problem (line : Line) (e : ParseError) : Parsed :=
  ⟨[], [⟨.problem (.parse e), some line.place⟩]⟩

/-- One parse after another. -/
def append (first second : Parsed) : Parsed :=
  ⟨first.stmts ++ second.stmts, first.diagnostics ++ second.diagnostics⟩

/-- Some problem is an error. -/
def hasErrors (parsed : Parsed) : Bool :=
  parsed.diagnostics.any Diagnostic.isError

/-- A line that opens no block: a terminator is passed over, anything else is a statement. -/
def ofLine (line : Line) : Parsed :=
  let text := line.text.toList
  if isTerminator text then ⟨[], []⟩
  else if isElse text then problem line .strayElse
  else
    match Stmt.parseLine line.place text with
    | .ok stmt => ⟨[stmt], []⟩
    | .error e => problem line e

/-- A block statement: if the header is well formed, `build` makes it from the header, and the
problems of its bodies are kept. -/
def ofHeader {α : Type} (line : Line) (header : Except ParseError α) (bodies : List Parsed)
    (build : α → Stmt) : Parsed :=
  match header with
  | .ok header => ⟨[build header], bodies.flatMap (·.diagnostics)⟩
  | .error e => problem line e

/-- The condition of a block from the text after its keyword. -/
def condition (kind : BlockKind) (rest : List Char) : Except ParseError String :=
  if rest.isEmpty then .error (.missingCondition kind) else .ok (String.ofList rest)

/-- The statement of a block from its header line, the lines of its body, and its parsed bodies. -/
def ofBlock (line : Line) (kind : BlockKind) (lines : List Line) (body : Parsed)
    (elseBody : Option Parsed) : Parsed :=
  let rest := (afterKeyword? kind.keyword line.text.toList).getD []
  match kind with
  | .whileLoop =>
    ofHeader line (condition kind rest) [body] fun cond => .whileLoop line.place cond body.stmts
  | .forLoop =>
    ofHeader line (ForHeader.parse rest) [body] fun header => .forLoop line.place header body.stmts
  | .method =>
    ofHeader line (MethodHeader.parse rest) [body] fun header =>
      .method line.place header lines body.stmts
  | .conditional =>
    match elseBody with
    | none =>
      ofHeader line (condition kind rest) [body] fun cond => .ifThen line.place cond body.stmts
    | some elseBody =>
      ofHeader line (condition kind rest) [body, elseBody] fun cond =>
        .ifElse line.place cond body.stmts elseBody.stmts

/-- The statements of a list of lines. -/
def ofLines (lines : List Line) : Parsed :=
  match lines with
  | [] => ⟨[], []⟩
  | line :: rest =>
    if line.isSkippable then ofLines rest
    else
      match BlockKind.ofHeader? line.text.toList with
      | none => (ofLine line).append (ofLines rest)
      | some kind =>
        match _hscan : Block.scan? kind rest with
        | none => problem line (.missingTerminator kind)
        | some block =>
          let elseBody :=
            match _helse : block.elseBody with
            | none => none
            | some lines => some (ofLines lines)
          (ofBlock line kind block.body (ofLines block.body) elseBody).append (ofLines block.rest)
termination_by lines.length
decreasing_by
  · simp
  · simp
  · have := Block.scan?_length _hscan
    simp only [_helse, Option.getD_some, List.length_cons] at this ⊢
    omega
  · have := Block.scan?_length _hscan
    simp only [List.length_cons]
    omega
  · have := Block.scan?_length _hscan
    simp only [List.length_cons]
    omega

/-- The statements of a source text. -/
def ofSource (source : String) : Parsed :=
  ofLines (Line.split source)

end Parsed

end Drawscript
