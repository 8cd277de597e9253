import Drawscript.Interpreter
import Drawscript.Proofs.Exec.Writing
import Drawscript.Proofs.Number.Narrowing

/-!
# Variables written by a line

A line `write` with the name of a variable is read as one command (`isValid_name`), and both modes
evaluate the name to the number that the variable holds, narrowed. So what is written is the narrowed
value, and not the one that is stored: a real within the tolerance of an integer in range is written
as that integer, without a fraction (`write_variable`).
-/

set_option autoImplicit false

namespace Drawscript

open Machine Number Text

/-- A name is one expression. -/
theorem WritePart.isValid_name {name : String} (h : isIdentifier name.toList = true) :
    (WritePart.expression name.toList).IsValid := by
  have hword := isWord_of_isIdentifier h
  refine ⟨?_, ?_, ?_, ?_⟩
  · rw [hword.isTrimmed.trim_eq]
    exact hword.1
  · exact not_mem_of_isIdentifier h rfl
  · exact not_mem_of_isIdentifier h rfl
  · exact not_mem_of_isIdentifier h rfl

theorem writeLine_name (name : String) :
    writeLine [.expression name.toList] = "write " ++ name := by
  have hjoined : WritePart.joined [.expression name.toList] = name.toList :=
    List.intercalate_singleton
  apply String.toList_injective
  rw [writeLine, String.toList_ofList, String.toList_append, phrase, hjoined]
  simp

/-- Writing a text on a canvas is always done, and only marks the canvas. -/
theorem Machine.exists_perform_text (m : Machine Canvas) (text : String) :
    ∃ after, m.perform (.text text) = .done after ∧ after.diagnostics = m.diagnostics ∧
      after.store = m.store ∧ after.frames = m.frames ∧ after.surface = m.surface.write text := by
  have hdiagnostics := diagnostics_perform (.text text) m
  simp only [perform, Canvas.perform_text m.surface text] at hdiagnostics ⊢
  exact ⟨_, rfl, hdiagnostics, rfl, rfl, rfl⟩

section

variable {m : Machine Canvas} (hscope : m.store.scope.Plain) {name : String} {value : Value}
  (hvalue : m.store.scope.get? name = some value)

include hscope hvalue

/-- A line `write` with a name puts the text of the narrowed value on the canvas, and does nothing
else. -/
theorem runBody_writeName (config : Config) (room : Nat) :
    (Parsed.ofSource ("write " ++ name)).diagnostics = [] ∧
      ∃ x after, value.number? = some x ∧
        runBody config room (Parsed.ofSource ("write " ++ name)).stmts m = .done after ∧
        after.diagnostics = m.diagnostics ∧ after.store = m.store ∧ after.frames = m.frames ∧
        after.surface = m.surface.write (Value.ofFloat x).display := by
  obtain ⟨hname, hfinite⟩ := hscope.get? hvalue
  obtain ⟨x, hreads, -⟩ := Value.exists_readsBack hfinite
  have hvalid : ∀ part ∈ [WritePart.expression name.toList], part.IsValid :=
    List.forall_mem_singleton.2 (WritePart.isValid_name hname)
  have hevaluate := evaluate_name hscope hvalue hreads config.evalMode
  obtain ⟨place, hsource⟩ := ofSource_writeLine hvalid
  have hrun := runBody_writeLine config room (List.cons_ne_nil _ _) hvalid
    (.cons (.expression hevaluate) .nil)
  have hjoin : String.join [(Value.ofFloat x).display] = (Value.ofFloat x).display := by
    rw [String.join_cons]
    exact String.append_empty
  rw [hjoin] at hrun
  rw [writeLine_name] at hsource hrun
  obtain ⟨after, hperform, hrest⟩ := m.exists_perform_text (Value.ofFloat x).display
  refine ⟨by rw [hsource], x, after, hreads.1, ?_, hrest⟩
  rw [hrun, hperform]

/-- **A variable is written as its value is shown after narrowing.** The line is read and done
without a report and leaves all variables. What it writes is how the stored value is shown, an
integer by its digits and a real with a fraction, exactly if narrowing leaves that value as it is. A
real within the tolerance of an integer in range is written as the integer. -/
theorem write_variable (config : Config) (room : Nat) :
    (Parsed.ofSource ("write " ++ name)).diagnostics = [] ∧
      ∃ x after, value.number? = some x ∧
        runBody config room (Parsed.ofSource ("write " ++ name)).stmts m = .done after ∧
        after.diagnostics = m.diagnostics ∧ after.store = m.store ∧ after.frames = m.frames ∧
        after.surface = m.surface.write (Value.ofFloat x).display ∧
        value.ShownAs value.display.toList ∧
        ((Value.ofFloat x).display = value.display ↔ value.Kept) ∧
        ∀ k : Int, k.natAbs < int64Bound → NearWhole x k →
          (Value.ofFloat x).display = toString k := by
  obtain ⟨-, hfinite⟩ := hscope.get? hvalue
  obtain ⟨hread, x, after, hx, hrun, hdiagnostics, hstore, hframes, hsurface⟩ :=
    runBody_writeName hscope hvalue config room
  refine ⟨hread, x, after, hx, hrun, hdiagnostics, hstore, hframes, hsurface, ?_, ?_, ?_⟩
  · exact Value.shownAs_display hfinite
  · exact Value.display_ofFloat_iff hfinite hx
  · intro k hk hnear
    exact Value.display_ofFloat_of_nearWhole hk hnear

end

/-- A machine with two reals, in front of an empty canvas. -/
def measuring : Machine Canvas :=
  { store := ((Store.empty .stack).set "whole" (.real 3)).set "half" (.real 2.5)
    surface := { width := 640, height := 480 } }

/-- The real `3.0` is written as `3`, and the real `2.5` as it is shown. -/
theorem write_variable_reals :
    measuring.store.scope.Plain ∧ ¬ (Value.real 3).Kept ∧ (Value.real 2.5).Kept ∧
      (∃ after, runBody {} 0 (Parsed.ofSource "write whole").stmts measuring = .done after ∧
        after.surface.marks = #[.text Point.origin "3"]) ∧
      ∃ after, runBody {} 0 (Parsed.ofSource "write half").stmts measuring = .done after ∧
        after.surface.marks = #[.text Point.origin "2.5"] := by
  have hplain : measuring.store.scope.Plain :=
    (Table.all_empty.insert ⟨rfl, by decide +kernel⟩).insert ⟨rfl, by decide +kernel⟩
  have hwhole : (Value.ofFloat 3).display = "3" := by decide +kernel
  have hhalf : (Value.ofFloat 2.5).display = "2.5" := by decide +kernel
  have hshown : (Value.real 3).display = "3.0" := by decide +kernel
  have hshown' : (Value.real 2.5).display = "2.5" := by decide +kernel
  have hget : measuring.store.scope.get? "whole" = some (.real 3) := rfl
  have hget' : measuring.store.scope.get? "half" = some (.real 2.5) := rfl
  obtain ⟨-, x, after, hx, hrun, -, -, -, hsurface, -, hkept, -⟩ :=
    write_variable hplain hget {} 0
  obtain ⟨-, x', after', hx', hrun', -, -, -, hsurface', -, hkept', -⟩ :=
    write_variable hplain hget' {} 0
  cases hx
  cases hx'
  rw [hwhole, hshown] at hkept
  rw [hhalf, hshown'] at hkept'
  refine ⟨hplain, fun h => ?_, hkept'.1 rfl, ⟨after, hrun, ?_⟩, ⟨after', hrun', ?_⟩⟩
  · exact absurd (hkept.2 h) (by decide)
  · rw [hsurface, hwhole]
    rfl
  · rw [hsurface', hhalf]
    rfl

/-- A program declares the real `3.0` and writes it without its fraction. -/
theorem whole_real_loses_fraction :
    let result := (Interpreter.new {}).run "real r = 3\nwrite r" measuring.surface
    (result.interpreter.get? "r").map Value.display = some "3.0" ∧
      result.surface.marks = #[.text Point.origin "3"] := by
  decide +kernel

end Drawscript
