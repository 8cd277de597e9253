import Drawscript.Number.Printer
import Drawscript.Stmt.Basic

/-!
# JSON output

Statement trees and variables as indented JSON. Objects keep the order in which their fields are
given.
-/

set_option autoImplicit false

namespace Drawscript

/-- A JSON value. -/
inductive Json where
  | null
  | int (n : Int)
  | real (x : Float)
  | string (s : String)
  | array (items : List Json)
  | object (fields : List (String × Json))

namespace Json

/-- A character inside a JSON string. -/
def escapeChar (c : Char) : List Char :=
  if c = '"' then ['\\', '"']
  else if c = '\\' then ['\\', '\\']
  else if c = '\n' then ['\\', 'n']
  else if c = '\r' then ['\\', 'r']
  else if c = '\t' then ['\\', 't']
  else if c.toNat = 8 then ['\\', 'b']
  else if c.toNat = 12 then ['\\', 'f']
  else if c.toNat < 32 then
    let digits := Nat.toDigits 16 c.toNat
    ['\\', 'u'] ++ List.replicate (4 - digits.length) '0' ++ digits
  else [c]

/-- A text as a JSON string. -/
def quote (s : String) : String :=
  String.ofList ('"' :: s.toList.flatMap escapeChar ++ ['"'])

/-- A line break and the indentation of a nesting depth. -/
def newline (depth : Nat) : String :=
  "\n" ++ String.ofList (List.replicate (2 * depth) ' ')

/-- Lines between two brackets, indented by one more level; nothing between them if there is no
line. -/
def bracketed (opening closing : String) (depth : Nat) (lines : List String) : String :=
  if lines.isEmpty then opening ++ closing
  else opening ++ newline (depth + 1) ++ ("," ++ newline (depth + 1)).intercalate lines ++
    newline depth ++ closing

mutual

/-- The JSON text of a value at a nesting depth. Reals that are not finite are null. -/
def pretty (depth : Nat) : Json → String
  | null => "null"
  | int n => toString n
  | real x => (Number.exchange? x).getD "null"
  | string s => quote s
  | array items => bracketed "[" "]" depth (prettyItems (depth + 1) items)
  | object fields => bracketed "\x7b" "\x7d" depth (prettyFields (depth + 1) fields)

/-- The texts of the items of an array. -/
def prettyItems (depth : Nat) : List Json → List String
  | [] => []
  | item :: rest => pretty depth item :: prettyItems depth rest

/-- The texts of the fields of an object. -/
def prettyFields (depth : Nat) : List (String × Json) → List String
  | [] => []
  | field :: rest => prettyField depth field :: prettyFields depth rest

/-- The text of a field of an object. -/
def prettyField (depth : Nat) : String × Json → String
  | (name, value) => quote name ++ ": " ++ pretty depth value

end

/-- A text, or null. -/
def ofText? : Option String → Json
  | some s => string s
  | none => null

/-- An object with a single field. -/
def tagged (tag : String) (value : Json) : Json :=
  object [(tag, value)]

/-- A list of texts. -/
def strings (texts : List String) : Json :=
  array (texts.map string)

end Json

/-- A span as JSON. -/
def Span.toJson (span : Span) : Json :=
  .object [("start", .int span.start), ("end", .int span.stop)]

/-- A source line as JSON. -/
def Line.toJson (line : Line) : Json :=
  .object [("number", .int line.number), ("text", .string line.text), ("span", line.span.toJson)]

/-- The name of a drawing command in a statement tree. -/
def DrawOp.tag : DrawOp → String
  | moveTo => "MoveTo"
  | drawTo => "DrawTo"
  | circle => "Circle"
  | rect => "Rect"
  | pen => "Pen"
  | clear => "Clear"
  | reset => "Reset"

/-- A command as JSON. -/
def Command.toJson : Command → Json
  | declareInt name init =>
    .tagged "DeclareInt" (.object [("name", .string name), ("init", .ofText? init)])
  | declareReal name init =>
    .tagged "DeclareReal" (.object [("name", .string name), ("init", .ofText? init)])
  | declareArray kind name size =>
    .tagged "DeclareArray"
      (.object [("kind", .string kind), ("name", .string name), ("size", .string size)])
  | poke array index value =>
    .tagged "Poke"
      (.object [("array", .string array), ("index", .string index), ("value", .string value)])
  | peek target array index =>
    .tagged "Peek"
      (.object [("target", .string target), ("array", .string array), ("index", .string index)])
  | assign name expr =>
    .tagged "Assign" (.object [("name", .string name), ("expr", .string expr)])
  | write text => .tagged "Write" (.object [("text", .string text)])
  | draw op args =>
    .tagged "Draw" (.object [("op", .string op.tag), ("args", .string args)])
  | unknown text => .tagged "Unknown" (.string text)

/-- The header of a `for` loop as JSON. -/
def ForHeader.toJson (header : ForHeader) : Json :=
  .object [("var", .string header.var), ("start", .string header.start),
    ("end", .string header.stop), ("step", .ofText? header.step)]

/-- A method as JSON, from its header, its lines and its body. -/
def MethodHeader.toJson (header : MethodHeader) (lines : List Line) (body : List Json) : Json :=
  .object [("name", .string header.name), ("return_kind", .string header.result.name),
    ("params", .strings header.params), ("lines", .array (lines.map Line.toJson)),
    ("body", .array body)]

mutual

/-- The form of a statement as JSON, without its place. -/
def Stmt.formToJson : Stmt → Json
  | .whileLoop _ cond body =>
    .tagged "While" (.object [("cond", .string cond), ("body", .array (stmtsToJson body))])
  | .forLoop _ header body =>
    .tagged "For" (.object [("header", header.toJson), ("body", .array (stmtsToJson body))])
  | .ifThen _ cond thenBody =>
    .tagged "If" (.object [("cond", .string cond), ("then_body", .array (stmtsToJson thenBody)),
      ("else_body", .null)])
  | .ifElse _ cond thenBody elseBody =>
    .tagged "If" (.object [("cond", .string cond), ("then_body", .array (stmtsToJson thenBody)),
      ("else_body", .array (stmtsToJson elseBody))])
  | .method _ header lines body => .tagged "Method" (header.toJson lines (stmtsToJson body))
  | .call _ name args =>
    .tagged "Call" (.object [("name", .string name), ("args", .strings args)])
  | .command _ command => .tagged "Command" command.toJson

/-- Statements as JSON: their forms with their places. -/
def stmtsToJson : List Stmt → List Json
  | [] => []
  | stmt :: rest =>
    .object [("node", stmt.formToJson), ("span", stmt.place.span.toJson),
      ("line", .int stmt.place.line)] :: stmtsToJson rest

end

/-- A program as JSON. -/
def programToJson (stmts : List Stmt) : Json :=
  .object [("stmts", .array (stmtsToJson stmts))]

/-- A value as JSON. -/
def Value.toJson : Value → Json
  | int n => .int n.toInt
  | real x => .real x
  | text s => .string s

end Drawscript
