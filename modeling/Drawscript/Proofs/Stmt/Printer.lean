import Drawscript.Proofs.Source.Keyword
import Drawscript.Stmt.Basic

/-!
# Canonical text of statements

Every statement has lines of its own: a command or a call has one, a block has its header, the lines
of its body and its terminator, with an `else` between the parts of a divided conditional. `bare`
takes away from a statement what its canonical text does not keep: the places, and the source lines
of methods.
-/

set_option autoImplicit false

namespace Drawscript

open Text

/-! ## Lines -/

/-- A keyword and what follows it. -/
def phrase (keyword : String) (rest : List Char) : List Char :=
  keyword.toList ++ ' ' :: rest

namespace Command

/-- `name` or `name = init`. -/
def declared (name : String) : Option String → List Char
  | none => name.toList
  | some init => name.toList ++ " = ".toList ++ init.toList

/-- `array[index]`. -/
def element (array index : String) : List Char :=
  array.toList ++ '[' :: (index.toList ++ [']'])

/-- The canonical line of a command. -/
def print : Command → List Char
  | .declareInt name init => phrase "int" (declared name init)
  | .declareReal name init => phrase "real" (declared name init)
  | .declareArray kind name size =>
    phrase "array" (spaced [kind.toList, name.toList, size.toList])
  | .poke array index value => phrase "poke" (element array index ++ " = ".toList ++ value.toList)
  | .peek target array index =>
    phrase "peek" (target.toList ++ " = ".toList ++ element array index)
  | .assign name expr => name.toList ++ '=' :: expr.toList
  | .write text => phrase "write" text.toList
  | .draw op args => phrase op.name args.toList
  | .unknown text => text.toList

end Command

/-- `var = start to stop`, with `step width` if there is a step. -/
def ForHeader.print (header : ForHeader) : List Char :=
  spaced ([header.var.toList, ['='], header.start.toList, "to".toList, header.stop.toList] ++
    match header.step with
    | none => []
    | some width => ["step".toList, width.toList])

/-- Texts with a comma and a space between neighbours. -/
def listed (parts : List String) : List Char :=
  List.intercalate [',', ' '] (parts.map String.toList)

/-- `kind name` and the parameters. -/
def MethodHeader.print (header : MethodHeader) : List Char :=
  spaced [header.result.name.toList, header.name.toList, listed header.params]

/-- The lines of a block around those of its parts. -/
def BlockKind.print (kind : BlockKind) (header : List Char) (inner : List (List Char)) :
    List (List Char) :=
  phrase kind.keyword header :: (inner ++ [kind.closing.toList])

namespace Stmt

mutual

/-- The canonical lines of a statement. -/
def print : Stmt → List (List Char)
  | .whileLoop _ cond body => BlockKind.whileLoop.print cond.toList (printAll body)
  | .forLoop _ header body => BlockKind.forLoop.print header.print (printAll body)
  | .ifThen _ cond thenBody => BlockKind.conditional.print cond.toList (printAll thenBody)
  | .ifElse _ cond thenBody elseBody =>
    BlockKind.conditional.print cond.toList
      (printAll thenBody ++ "else".toList :: printAll elseBody)
  | .method _ header _ body => BlockKind.method.print header.print (printAll body)
  | .call _ name args => [phrase "call" (spaced [name.toList, listed args])]
  | .command _ cmd => [cmd.print]

/-- The canonical lines of statements. -/
def printAll : List Stmt → List (List Char)
  | [] => []
  | stmt :: rest => print stmt ++ printAll rest

end

/-- The canonical source text of statements. A line in which nothing follows the keyword has no
blank at its end. -/
def source (stmts : List Stmt) : String :=
  String.ofList ((printAll stmts).flatMap fun line => trim line ++ ['\n'])

mutual

/-- The statement without places and without the source lines of methods. -/
def bare : Stmt → Stmt
  | .whileLoop _ cond body => .whileLoop ⟨0, ⟨0, 0⟩⟩ cond (bareAll body)
  | .forLoop _ header body => .forLoop ⟨0, ⟨0, 0⟩⟩ header (bareAll body)
  | .ifThen _ cond thenBody => .ifThen ⟨0, ⟨0, 0⟩⟩ cond (bareAll thenBody)
  | .ifElse _ cond thenBody elseBody =>
    .ifElse ⟨0, ⟨0, 0⟩⟩ cond (bareAll thenBody) (bareAll elseBody)
  | .method _ header _ body => .method ⟨0, ⟨0, 0⟩⟩ header [] (bareAll body)
  | .call _ name args => .call ⟨0, ⟨0, 0⟩⟩ name args
  | .command _ cmd => .command ⟨0, ⟨0, 0⟩⟩ cmd

/-- The statements without places and without the source lines of methods. -/
def bareAll : List Stmt → List Stmt
  | [] => []
  | stmt :: rest => bare stmt :: bareAll rest

end

theorem printAll_singleton (stmt : Stmt) : printAll [stmt] = stmt.print := by
  rw [printAll, printAll, List.append_nil]

theorem bareAll_singleton (stmt : Stmt) : bareAll [stmt] = [stmt.bare] := by
  rw [bareAll, bareAll]

/-- The lines of statements in a row are the lines of each, in order. -/
theorem printAll_append (first second : List Stmt) :
    printAll (first ++ second) = printAll first ++ printAll second := by
  induction first with
  | nil => rfl
  | cons stmt rest ih => rw [List.cons_append, printAll, printAll, ih, List.append_assoc]

theorem bareAll_append (first second : List Stmt) :
    bareAll (first ++ second) = bareAll first ++ bareAll second := by
  induction first with
  | nil => rfl
  | cons stmt rest ih => rw [List.cons_append, bareAll, bareAll, ih, List.cons_append]

end Stmt

/-! ## Texts on one line -/

/-- The text has no line feed. -/
def OneLine (text : List Char) : Prop :=
  '\n' ∉ text

instance (text : List Char) : Decidable (OneLine text) :=
  inferInstanceAs (Decidable ('\n' ∉ text))

/-- No part of a text on one line has a line feed. -/
theorem OneLine.of_subset {text part : List Char} (h : OneLine text) (hpart : part ⊆ text) :
    OneLine part :=
  fun hmem => h (hpart hmem)

theorem OneLine.append {first second : List Char} (h : OneLine first) (h' : OneLine second) :
    OneLine (first ++ second) :=
  List.not_mem_append h h'

/-- A keyword in front leaves a text on one line. -/
theorem OneLine.phrase {rest : List Char} (h : OneLine rest) {keyword : String}
    (hkeyword : OneLine keyword.toList) : OneLine (phrase keyword rest) :=
  hkeyword.append (List.not_mem_cons_of_ne_of_not_mem (by decide) h)

/-- Texts on one line stay so when they are joined by one. -/
theorem oneLine_intercalate {between : List Char} (hbetween : OneLine between)
    {parts : List (List Char)} (hparts : ∀ part ∈ parts, OneLine part) :
    OneLine (List.intercalate between parts) := by
  intro hmem
  rcases mem_intercalate hmem with hmem | ⟨part, hpart, hmem⟩
  · exact hbetween hmem
  · exact hparts part hpart hmem

/-! ## Reading a phrase -/

section

variable {keyword : String} (hkeyword : IsWord keyword.toList) (rest : List Char)

include hkeyword

/-- A phrase is read back as its keyword and what follows it, without blanks at the ends. -/
theorem firstWord_phrase : firstWord (phrase keyword rest) = (keyword.toList, trim rest) := by
  have hblank : ∀ c ∈ (' ' :: rest).head?, isBlank c = true := by
    intro c hc
    cases hc
    decide
  rw [phrase, firstWord_append hkeyword hblank]
  exact congrArg _ (trim_space_cons rest)

/-- A phrase whose keyword neither opens nor divides nor closes a block is a line of its own. -/
theorem isSimple_phrase (hordinary : isOrdinary keyword.toList = true) :
    IsSimple (trim (phrase keyword rest)) := by
  refine isSimple_of_isOrdinary (trim_trim _) ?_
  rw [firstWord_trim, firstWord_phrase hkeyword rest]
  exact hordinary

end

end Drawscript
