import Drawscript.Proofs.Canvas.History
import Drawscript.Proofs.Exec.Confined
import Drawscript.Proofs.Exec.Flow
import Drawscript.Proofs.Expr.Integers
import Drawscript.Proofs.Stmt.Arguments
import Drawscript.Proofs.Stmt.Command
import Drawscript.Proofs.Stmt.Written

/-!
# Texts written by a line

A line `write`, with texts in quotes and expressions that have a value, is read as a single command
(`ofSource_writeLine`). It puts the text that its parts give, one after the other, to the surface
and does nothing else (`runBody_writeLine`); a canvas then has one mark more, or none if that text
is empty (`write_concatenates`).
-/

set_option autoImplicit false

namespace Drawscript

open Machine Text

/-! ## Reading -/

/-- The line that writes the parts. -/
def writeLine (parts : List WritePart) : String :=
  String.ofList (phrase "write" (WritePart.joined parts))

/-- The line of a `write` is read as one command, with no blanks around its text. -/
theorem ofSource_writeLine {parts : List WritePart} (h : ∀ part ∈ parts, part.IsValid) :
    ∃ place, Parsed.ofSource (writeLine parts) =
      ⟨[.command place (.write (String.ofList (trim (WritePart.joined parts))))], []⟩ := by
  have hform : ("write", fun rest => some (Command.write (String.ofList rest))) ∈
      Command.forms := by
    simp only [Command.forms, List.mem_cons, true_or, or_true]
  obtain ⟨hword, hordinary, honeLine, hcall⟩ := Command.keyword_of_mem_forms hform
  have hfirst : (firstWord (trim (phrase "write" (WritePart.joined parts)))).1 ≠
      "call".toList := by
    rw [firstWord_trim, firstWord_phrase hword]
    exact hcall
  have hparse (place : Place) :
      Stmt.parseLine place (trim (phrase "write" (WritePart.joined parts))) =
        .ok (.command place (.write (String.ofList (trim (WritePart.joined parts))))) := by
    rw [Stmt.parseLine, afterKeyword?_eq_none (by decide) (trim_trim _) hfirst,
      Command.parse_phrase hform rfl]
  exact ⟨_, ofSource_line ((WritePart.oneLine_joined h).phrase honeLine)
    (isSimple_phrase hword _ hordinary) (hparse _)⟩

/-! ## Running -/

/-- The text that a part gives: what stands in quotes as it is, else the value as it is shown. -/
inductive WritePart.Gives (mode : EvalMode) (scope : Scope) : WritePart → String → Prop
  | quoted (content : List Char) : Gives mode scope (.quoted content) (String.ofList content)
  | expression {text : List Char} {value : Value} (hvalue : evaluate mode scope text = .ok value) :
    Gives mode scope (.expression text) value.display

section

variable {σ : Type} {m : Machine σ} {parts : List WritePart} {texts : List String}

/-- The texts of the parts are put together, and nothing is reported. -/
theorem Machine.writtenText_of_gives (config : Config) (place : Place)
    (hvalid : ∀ part ∈ parts, part.IsValid)
    (hgives : List.Forall₂ (WritePart.Gives config.evalMode m.store.scope) parts texts) :
    m.writtenText config place (parts.map fun part => trim part.print) =
      (String.join texts, m) := by
  induction hgives with
  | nil => rfl
  | @cons part text parts texts hpart _ ih =>
    have hrest := ih fun p hp => hvalid p (List.mem_cons_of_mem part hp)
    rw [List.map_cons, writtenText, String.join_cons]
    cases hpart with
    | quoted content =>
      have hquoted : unquote? (trim (WritePart.print (.quoted content))) = some content := by
        rw [(WritePart.isTrimmed_quoted content).trim_eq]
        exact unquote?_quoted content
      simp only [hquoted, hrest]
    | @expression text value hvalue =>
      obtain ⟨-, hquote, -, -⟩ := hvalid _ List.mem_cons_self
      have hplain : unquote? (trim (WritePart.print (.expression text))) = none :=
        unquote?_of_not_mem fun hmem => hquote (trim_subset text hmem)
      have heval : m.eval config.evalMode place
          (String.ofList (trim (WritePart.print (.expression text)))) = (value, m) := by
        simp only [eval, String.toList_ofList, evaluate_trim, WritePart.print, hvalue]
      simp only [hplain, heval, hrest]

/-- A line `write` does no more than put the text of its parts to the surface. -/
theorem runBody_writeLine [Surface σ] (config : Config) (room : Nat) (hparts : parts ≠ [])
    (hvalid : ∀ part ∈ parts, part.IsValid)
    (hgives : List.Forall₂ (WritePart.Gives config.evalMode m.store.scope) parts texts) :
    runBody config room (Parsed.ofSource (writeLine parts)).stmts m =
      m.perform (.text (String.join texts)) := by
  obtain ⟨place, hsource⟩ := ofSource_writeLine hvalid
  rw [hsource, runBody_eq_runAll, runAll_singleton, Stmt.run, command, String.toList_ofList,
    WritePart.writeParts_joined hparts hvalid, writtenText_of_gives config place hvalid hgives]

end

/-- The canvas with a text written at the pen. An empty text leaves no mark. -/
def Canvas.write (canvas : Canvas) (text : String) : Canvas :=
  if text = "" then canvas
  else { canvas with marks := canvas.marks.push (.text canvas.position text) }

theorem Canvas.perform_text (canvas : Canvas) (text : String) :
    Surface.perform (.text text) canvas = (none, canvas.write text) := by
  apply perform_of_ok
  rw [draw, write]
  by_cases h : text = ""
  · rw [if_pos h, if_pos (String.isEmpty_iff.2 h)]
  · rw [if_neg h, if_neg (mt String.isEmpty_iff.1 h)]
    rfl

/-- **A line `write` writes its parts one after the other.** Whatever stands in quotes is written as
it is, and each expression as its value is shown. Nothing is reported, the variables stay as they
are, and the canvas has one more text where the pen is, or none if that text is empty. -/
theorem write_concatenates (config : Config) (room : Nat) (m : Machine Canvas)
    {parts : List WritePart} (hparts : parts ≠ []) (hvalid : ∀ part ∈ parts, part.IsValid)
    {texts : List String}
    (hgives : List.Forall₂ (WritePart.Gives config.evalMode m.store.scope) parts texts) :
    (Parsed.ofSource (writeLine parts)).diagnostics = [] ∧
      ∃ after, runBody config room (Parsed.ofSource (writeLine parts)).stmts m = .done after ∧
        after.diagnostics = m.diagnostics ∧ after.store = m.store ∧ after.frames = m.frames ∧
        after.surface = m.surface.write (String.join texts) := by
  obtain ⟨place, hsource⟩ := ofSource_writeLine hvalid
  refine ⟨by rw [hsource], ?_⟩
  have hdiagnostics := diagnostics_perform (.text (String.join texts)) m
  have hperform := Canvas.perform_text m.surface (String.join texts)
  rw [runBody_writeLine config room hparts hvalid hgives]
  simp only [Machine.perform, hperform] at hdiagnostics ⊢
  exact ⟨_, rfl, hdiagnostics, rfl, rfl, rfl⟩

/-- A machine with a variable, in front of an empty canvas. -/
def labelling : Machine Canvas :=
  { store := (Store.empty .stack).set "x" (.int 7), surface := { width := 640, height := 480 } }

/-- Signs, names and blanks in quotes are written as they are; outside, they are not. -/
theorem write_concatenates_label :
    evaluate .legacy labelling.store.scope "  x ".toList = .ok (.int 7) ∧
      ∃ after, runBody {} 0 (Parsed.ofSource "write \" x + 1 = \" +   x  + \" \"").stmts labelling =
          .done after ∧
        after.diagnostics = [] ∧ after.store = labelling.store ∧
        after.surface.marks = #[.text Point.origin " x + 1 = 7 "] := by
  have hvalue : evaluate .legacy labelling.store.scope "  x ".toList = .ok (.int 7) := by
    have hplain : labelling.store.scope.Plain := Table.all_empty.insert ⟨rfl, rfl⟩
    rw [← evaluate_trim]
    exact evaluate_name hplain (a := "x") rfl (Value.readsBack_int 7) .legacy
  let parts : List WritePart :=
    [.quoted " x + 1 = ".toList, .expression "  x ".toList, .quoted " ".toList]
  have hvalid : ∀ part ∈ parts, part.IsValid := by decide
  obtain ⟨-, after, hrun, hdiagnostics, hstore, -, hsurface⟩ :=
    write_concatenates {} 0 labelling (List.cons_ne_nil _ _) hvalid
      (.cons (.quoted _) (.cons (.expression hvalue) (.cons (.quoted _) .nil)))
  exact ⟨hvalue, after, hrun, hdiagnostics, hstore, hsurface ▸ rfl⟩

end Drawscript
