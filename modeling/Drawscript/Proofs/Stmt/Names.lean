import Drawscript.Proofs.Source.Lines
import Drawscript.Proofs.Stmt.Command
import Drawscript.Proofs.Stmt.Header
import Drawscript.Proofs.Stmt.Reading

/-!
# The names that a program gives

A statement gives names to what it declares, defines or sets (`Stmt.targets`): variables, arrays and
methods. Reading a source checks that all of them are identifiers (`ofSource_targets`). The
parameters of a method and the name in a call are not among them, and reading takes any words for
those.
-/

set_option autoImplicit false

namespace Drawscript

open Text

/-- The variables and arrays that a command declares or sets. -/
def Command.targets : Command → List String
  | .declareInt name _ => [name]
  | .declareReal name _ => [name]
  | .declareArray _ name _ => [name]
  | .peek target _ _ => [target]
  | .assign name _ => [name]
  | _ => []

/-- The variables, arrays and methods that a statement by itself declares, defines or sets. -/
def Stmt.targets : Stmt → List String
  | .forLoop _ header _ => [header.var]
  | .method _ header _ _ => [header.name]
  | .command _ cmd => cmd.targets
  | _ => []

/-! ## Commands -/

theorem isIdentifier_of_form {keyword : String} {read : List Char → Option Command}
    (hform : (keyword, read) ∈ Command.forms) {rest : List Char} {cmd : Command}
    (h : read rest = some cmd) : ∀ name ∈ cmd.targets, isIdentifier name.toList = true := by
  simp only [Command.forms, List.mem_cons, Prod.mk.injEq, List.not_mem_nil, or_false] at hform
  rcases hform with ⟨-, rfl⟩ | ⟨-, rfl⟩ | ⟨-, rfl⟩ | ⟨-, rfl⟩ | ⟨-, rfl⟩ | ⟨-, rfl⟩
  · obtain ⟨⟨name, init⟩, hread, rfl⟩ := Option.map_eq_some_iff.1 h
    exact List.forall_mem_singleton.2 (Command.isDeclared_of_declaration? hread).1.name
  · obtain ⟨⟨name, init⟩, hread, rfl⟩ := Option.map_eq_some_iff.1 h
    exact List.forall_mem_singleton.2 (Command.isDeclared_of_declaration? hread).1.name
  · obtain ⟨kind, name, size, -, -, hname, rfl⟩ := Command.array?_eq_some_iff.1 h
    refine List.forall_mem_singleton.2 ?_
    rwa [String.toList_ofList]
  · obtain ⟨target, source, array, index, -, -, htarget, -, rfl⟩ := Command.peek?_eq_some_iff.1 h
    refine List.forall_mem_singleton.2 ?_
    rwa [String.toList_ofList]
  · obtain ⟨target, value, array, index, -, -, -, -, rfl⟩ := Command.poke?_eq_some_iff.1 h
    exact List.forall_mem_nil _
  · cases h
    exact List.forall_mem_nil _

/-- The name that a command gives a value to is checked where the command is read. -/
theorem isIdentifier_of_parse {text : List Char} (htext : trim text = text) {cmd : Command}
    (h : Command.parse text = .ok cmd) : ∀ name ∈ cmd.targets, isIdentifier name.toList = true := by
  have hoption := Command.toOption_parse htext
  rw [h] at hoption
  cases hform : Command.form? (firstWord text).1 with
  | some read =>
    simp only [hform] at hoption
    obtain ⟨keyword, hmem⟩ := Command.exists_of_form? hform
    exact isIdentifier_of_form hmem hoption.symm
  | none =>
    simp only [hform] at hoption
    cases hplain : Command.parsePlain text with
    | error e =>
      rw [hplain] at hoption
      cases hoption
    | ok found =>
      rw [hplain] at hoption
      cases hoption
      cases Command.readsPlain_of_parsePlain hplain with
      | assign _ _ hname _ =>
        refine List.forall_mem_singleton.2 ?_
        rwa [String.toList_ofList]
      | draw _ _ => exact List.forall_mem_nil _
      | unknown _ _ => exact List.forall_mem_nil _

/-! ## Statements -/

theorem isIdentifier_of_parseLine {place : Place} {text : List Char} {stmt : Stmt}
    (htext : trim text = text) (h : Stmt.parseLine place text = .ok stmt) :
    ∀ name ∈ stmt.targets, isIdentifier name.toList = true := by
  rcases Parsed.parseLine_cases h with ⟨name, args, rfl⟩ | ⟨cmd, hcmd, rfl⟩
  · exact List.forall_mem_nil _
  · exact isIdentifier_of_parse htext hcmd

/-- The counter of a `for` loop and the name of a method are checked where the header is read. -/
theorem isIdentifier_of_hasHeader {stmt : Stmt} (h : Parsed.HasHeader stmt) :
    ∀ name ∈ stmt.targets, isIdentifier name.toList = true := by
  cases stmt with
  | forLoop place header body =>
    obtain ⟨rest, hparse⟩ := h
    cases ForHeader.parse_eq_ok_iff.1 hparse with
    | intro _ _ _ hbounds =>
      refine List.forall_mem_singleton.2 ?_
      rw [ForHeader.ofWords, String.toList_ofList]
      exact hbounds.identifier
  | method place header lines body =>
    obtain ⟨rest, hparse⟩ := h
    obtain ⟨result, kind, name, params, -, -, hname, rfl⟩ := MethodHeader.parse_eq_ok_iff.1 hparse
    refine List.forall_mem_singleton.2 ?_
    rwa [String.toList_ofList]
  | whileLoop place cond body => exact List.forall_mem_nil _
  | ifThen place cond thenBody => exact List.forall_mem_nil _
  | ifElse place cond thenBody elseBody => exact List.forall_mem_nil _
  | call place name args => cases h
  | command place cmd => cases h

/-- All names that the statements of a source give are identifiers. -/
theorem ofSource_targets (source : String) :
    ∀ stmt ∈ insideAll (Parsed.ofSource source).stmts,
      ∀ name ∈ stmt.targets, isIdentifier name.toList = true :=
  Parsed.forall_insideAll_ofLines (fun _ _ _ htext h => isIdentifier_of_parseLine htext h)
    (fun _ h => isIdentifier_of_hasHeader h) _ fun _ hline => Line.tidy_of_mem_split hline

end Drawscript
