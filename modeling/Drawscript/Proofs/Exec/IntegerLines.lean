import Drawscript.Interpreter
import Drawscript.Proofs.Exec.Confined
import Drawscript.Proofs.Expr.Literals
import Drawscript.Proofs.Stmt.RoundTrip

/-!
# Integers declared in a line

A line `int x = n`, where `n` is a 64-bit integer and a double, is read as one declaration
(`ofSource_intLine`). It gives `x` the value `n` and reports nothing but a note. Only the least
integer is not taken for a whole number: `x` becomes zero, and a problem is reported
(`execute_intLine`).
-/

set_option autoImplicit false

namespace Drawscript

open Machine Number Text

/-! ## Reading -/

/-- The canonical line of a command, alone in a source text, is read as this command. -/
theorem ofSource_print {text : List Char} {cmd : Command} (h : Command.Stable text cmd)
    (hone : OneLine cmd.print) :
    Parsed.ofSource (String.ofList cmd.print) =
      ⟨[.command (Line.ofPiece 1 0 cmd.print).place cmd], []⟩ := by
  -- a line that starts with `call` would be read as a call and not as a command
  have hcall : (firstWord (trim cmd.print)).1 ≠ "call".toList := by
    rw [firstWord_trim]
    exact h.call
  refine ofSource_line hone h.simple ?_
  rw [Stmt.parseLine, afterKeyword?_eq_none (by decide) (trim_trim _) hcall, h.again]

/-- The line that declares a variable with an integer. -/
def intLine (name : String) (n : Int64) : String :=
  "int " ++ name ++ " = " ++ toString n.toInt

theorem toList_intLine (name : String) (n : Int64) :
    (intLine name n).toList = phrase "int" (Command.declared name (some (toString n.toInt))) := by
  simp [intLine, phrase, Command.declared]

/-- The line of an integer is read as its declaration. -/
theorem ofSource_intLine {name : String} (hname : isIdentifier name.toList = true) (n : Int64) :
    ∃ place, Parsed.ofSource (intLine name n) =
      ⟨[.command place (.declareInt name (some (toString n.toInt)))], []⟩ := by
  have hnumeral := isNumeral_int n.toInt
  have hdeclared : Command.IsDeclared name (some (toString n.toInt)) :=
    ⟨hname, by
      rintro expr ⟨⟩
      exact hnumeral.isTrimmed⟩
  have hread : Command.declaration? (firstWord (intLine name n).toList).2 =
      some (name, some (toString n.toInt)) := by
    rw [toList_intLine, firstWord_phrase (by decide), Command.declaration?_declared hdeclared]
  have hstable : Command.Stable (intLine name n).toList
      (.declareInt name (some (toString n.toInt))) := by
    apply Command.stable_of_form List.mem_cons_self
    rw [hread]
    rfl
  have hone : OneLine (intLine name n).toList := by
    have honeName : OneLine name.toList := not_mem_of_isIdentifier hname (by decide)
    have honeLiteral : OneLine (toString n.toInt).toList := by
      intro hmem
      rcases hnumeral.mem hmem with hc | hc | hc <;> cases hc
    rw [toList_intLine]
    exact ((honeName.append (by decide)).append honeLiteral).phrase (by decide)
  have hprint : intLine name n =
      String.ofList (Command.declareInt name (some (toString n.toInt))).print := by
    rw [Command.print, ← toList_intLine, String.ofList_toList]
  rw [hprint]
  exact ⟨_, ofSource_print hstable (hstable.oneLine hone)⟩

/-! ## Running -/

section

variable {σ : Type}

theorem Machine.evalNumber?_toString (mode : EvalMode) (place : Place) {m : Machine σ}
    (hnamed : m.store.scope.Named) {n : Int64} (hn : IsDouble n.toInt) :
    m.evalNumber? mode place (toString n.toInt) =
      (some (if n = Int64.minValue then .real (ofInt64 n) else .int n), m) := by
  rw [evalNumber?, eval, evaluate_toString mode hnamed, Value.ofFloat_ofInt64 hn]
  split_ifs <;> rfl

/-- The integer that a variable has after its declaration with an integer. -/
def declaredInt (n : Int64) : Int64 :=
  if n = Int64.minValue then 0 else n

/-- What a declaration with an integer reports. -/
def declaredNotices (name : String) (n : Int64) : List Notice :=
  (if n = Int64.minValue then [.problem (.evaluation (.notIntegral (ofInt64 n)))] else []) ++
    [.note ("int " ++ name ++ " = " ++ (Value.int (declaredInt n)).display)]

theorem Machine.declareInt_toString (config : Config) (place : Place) (name : String)
    {m : Machine σ} (hnamed : m.store.scope.Named) {n : Int64} (hn : IsDouble n.toInt) :
    m.declareInt config place name (some (toString n.toInt)) =
      (m.sayAll place (declaredNotices name n)).set name (.int (declaredInt n)) := by
  rw [declareInt, evalNumber?_toString config.evalMode place hnamed hn, declaredNotices,
    declaredInt]
  dsimp only
  split_ifs with hleast
  · -- the value is a real, and to narrow it once more does not help
    have hwhole : (Value.real (ofInt64 n)).whole? = none := by
      rw [Value.whole?, Value.ofFloat_ofInt64 hn, if_pos hleast]
    rw [hwhole]
    rfl
  · rfl

variable [Surface σ]

/-- The whole result of a source text with the line of an integer: the variable is set, the notices
are reported at the place of the line, and all else stays. -/
theorem execute_intLine {interpreter : Interpreter} (hnamed : interpreter.store.scope.Named)
    (surface : σ) {name : String} (hname : isIdentifier name.toList = true) {n : Int64}
    (hn : IsDouble n.toInt) :
    ∃ place, interpreter.execute (Parsed.ofSource (intLine name n)).stmts surface =
      { interpreter :=
          { interpreter with store := interpreter.store.set name (.int (declaredInt n)) }
        surface := surface
        diagnostics := (declaredNotices name n).map fun notice => ⟨notice, some place⟩
        error := none } := by
  obtain ⟨place, hsource⟩ := ofSource_intLine hname n
  let m : Machine σ := { store := interpreter.store, surface := surface }
  have houtcome : interpreter.outcome (Parsed.ofSource (intLine name n)).stmts surface =
      .done ((m.sayAll place (declaredNotices name n)).set name (.int (declaredInt n))) := by
    rw [hsource, Interpreter.outcome, runBody_eq_runAll, runAll_singleton, Stmt.run, command,
      declareInt_toString interpreter.config place name hnamed hn]
  have hdiagnostics :
      ((m.sayAll place (declaredNotices name n)).set name (.int (declaredInt n))).diagnostics =
        (declaredNotices name n).map fun notice => ⟨notice, some place⟩ :=
    diagnostics_sayAll place (declaredNotices name n) m
  refine ⟨place, ?_⟩
  simp only [Interpreter.execute, houtcome, Outcome.machine, Outcome.refusal?, hdiagnostics]
  rfl

/-- **All 64-bit integers that are doubles, the least one apart, are taken for whole numbers.** In
both modes the decimal text of such an integer has this integer for its value, and its line declares
a variable with it, with a note and no problem. The text of the least integer has a real for its
value, and its line declares zero and reports that this real is no integer. -/
theorem whole_numbers_recognized {n : Int64} (hn : IsDouble n.toInt) :
    (∀ (mode : EvalMode) (scope : Scope), scope.Named →
      evaluate mode scope (toString n.toInt).toList =
        .ok (if n = Int64.minValue then .real (ofInt64 n) else .int n)) ∧
      ∀ (interpreter : Interpreter) (surface : σ) (name : String),
        interpreter.store.scope.Named → isIdentifier name.toList = true →
          let program := Parsed.ofSource (intLine name n)
          let result := interpreter.execute program.stmts surface
          let stored := if n = Int64.minValue then 0 else n
          program.diagnostics = [] ∧ result.error = none ∧
            result.interpreter.get? name = some (.int stored) ∧
            result.diagnostics.map (·.notice) =
              (if n = Int64.minValue then [.problem (.evaluation (.notIntegral (ofInt64 n)))]
                else []) ++ [.note ("int " ++ name ++ " = " ++ (Value.int stored).display)] := by
  constructor
  · intro mode scope hnamed
    rw [evaluate_toString mode hnamed, Value.ofFloat_ofInt64 hn]
  · intro interpreter surface name hnamed hname
    obtain ⟨_, hsource⟩ := ofSource_intLine hname n
    obtain ⟨place, hresult⟩ := execute_intLine hnamed surface hname hn
    dsimp only
    rw [hresult]
    refine ⟨by rw [hsource], rfl, Table.get?_insert_self _ _ _, ?_⟩
    rw [List.map_map]
    exact List.map_id _

end

/-- An interpreter that has a variable already. -/
def redeclaring : Interpreter :=
  ⟨{}, (Store.empty .stack).set "x" (.int 7)⟩

theorem named_redeclaring : redeclaring.store.scope.Named :=
  Table.all_empty.insert rfl

/-- The least double above the least integer is the new value of the variable. -/
theorem whole_numbers_recognized_low :
    IsDouble (-9223372036854774784 : Int64).toInt ∧
      (∀ mode, evaluate mode redeclaring.store.scope "-9223372036854774784".toList =
        .ok (.int (-9223372036854774784))) ∧
      (redeclaring.execute (Parsed.ofSource "int x = -9223372036854774784").stmts
        ({ width := 640, height := 480 } : Canvas)).interpreter.get? "x" =
          some (.int (-9223372036854774784)) ∧
      (redeclaring.execute (Parsed.ofSource "int x = -9223372036854774784").stmts
        ({ width := 640, height := 480 } : Canvas)).diagnostics.map (·.notice) =
          [.note "int x = -9223372036854774784"] := by
  have hdouble : IsDouble (-9223372036854774784 : Int64).toInt :=
    ⟨ofInt64 (-9223372036854774784), by decide +kernel⟩
  obtain ⟨hvalue, hline⟩ := whole_numbers_recognized (σ := Canvas) hdouble
  obtain ⟨-, -, hget, hnotices⟩ :=
    hline redeclaring { width := 640, height := 480 } "x" named_redeclaring rfl
  exact ⟨hdouble, fun mode => hvalue mode _ named_redeclaring, hget, hnotices⟩

/-- The least integer is a double, but its text has a real for its value in both modes, and its line
declares zero and reports a problem. -/
theorem least_integer_not_recognized :
    IsDouble Int64.minValue.toInt ∧
      (∀ mode, evaluate mode {} "-9223372036854775808".toList =
        .ok (.real (ofInt64 Int64.minValue))) ∧
      ((Interpreter.new {}).execute (Parsed.ofSource "int x = -9223372036854775808").stmts
        ({ width := 640, height := 480 } : Canvas)).interpreter.get? "x" = some (.int 0) ∧
      ((Interpreter.new {}).execute (Parsed.ofSource "int x = -9223372036854775808").stmts
        ({ width := 640, height := 480 } : Canvas)).diagnostics.map (·.notice.severity) =
          [.warning, .note] := by
  have hdouble : IsDouble Int64.minValue.toInt := ⟨ofInt64 Int64.minValue, by decide +kernel⟩
  have hline : intLine "x" Int64.minValue = "int x = -9223372036854775808" := rfl
  obtain ⟨place, hresult⟩ := @execute_intLine Canvas _ (Interpreter.new {}) Table.all_empty
    { width := 640, height := 480 } "x" rfl Int64.minValue hdouble
  rw [hline] at hresult
  refine ⟨hdouble, fun mode => ?_, ?_, ?_⟩
  · exact (evaluate_toString mode Table.all_empty Int64.minValue).trans
      (congrArg Except.ok (Value.ofFloat_ofInt64 hdouble))
  · rw [hresult]
    exact Table.get?_insert_self _ _ _
  · rw [hresult]
    rfl

end Drawscript
