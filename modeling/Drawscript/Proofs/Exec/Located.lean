import Drawscript.Proofs.Exec.History
import Drawscript.Proofs.Exec.Origin
import Drawscript.Proofs.Stmt.Account

/-!
# Every report points at a line of the source

A step of a run reports at the place of the statement that it goes on with and nowhere else
(`Task.Does.reports`), and that statement is one of the program, also inside the body of a method
that was called from elsewhere. The places of the statements of a program are places of lines of the
source, and so are the places of the problems met in reading it. So every diagnostic of a run has a
place, which is that of a line that is not skipped, and the source can be cut there
(`run_diagnostics_located`).
-/

set_option autoImplicit false

namespace Drawscript

open Machine

variable {σ : Type}

/-! ## Reports of a step -/

/-- From one machine to the other all that was reported belongs to the place. Without a place,
nothing was reported. -/
def ReportsAt (place? : Option Place) (m m' : Machine σ) : Prop :=
  ∃ news, m'.events = news ++ m.events ∧
    ∀ d, Event.reported d ∈ news → ∃ place ∈ place?, d.place = some place

namespace ReportsAt

variable {place? : Option Place} {m m' m'' : Machine σ}

theorem of_events (h : m'.events = m.events) : ReportsAt place? m m' :=
  ⟨[], h, fun _ hd => absurd hd List.not_mem_nil⟩

theorem trans (h : ReportsAt place? m m') (h' : ReportsAt place? m' m'') :
    ReportsAt place? m m'' := by
  obtain ⟨news, hnews, hplace⟩ := h
  obtain ⟨news', hnews', hplace'⟩ := h'
  refine ⟨news' ++ news, by rw [hnews', hnews, List.append_assoc], fun d hd => ?_⟩
  rcases List.mem_append.1 hd with hlate | hearly
  · exact hplace' d hlate
  · exact hplace d hearly

/-- Reports of the first machine stay, and each new one belongs to the place. -/
theorem mem (h : ReportsAt place? m m') {d : Diagnostic} (hd : Event.reported d ∈ m'.events) :
    Event.reported d ∈ m.events ∨ ∃ place ∈ place?, d.place = some place := by
  obtain ⟨news, hnews, hplace⟩ := h
  rw [hnews] at hd
  rcases List.mem_append.1 hd with hnew | hold
  · exact Or.inr (hplace d hnew)
  · exact Or.inl hold

end ReportsAt

theorem reportsAt_sayAll (place : Place) (notices : List Notice) (m : Machine σ) :
    ReportsAt (some place) m (m.sayAll place notices) := by
  refine ⟨_, rfl, fun d hd => ?_⟩
  obtain ⟨notice, -, hnotice⟩ := List.mem_map.1 (List.mem_reverse.1 hd)
  cases hnotice
  exact ⟨place, rfl, rfl⟩

theorem reportsAt_perform [Surface σ] (place? : Option Place) (request : Request)
    (m : Machine σ) : ReportsAt place? m (m.perform request).machine := by
  -- a request is an event, but no report
  have hrequest (refusal : Option CanvasError) (d : Diagnostic)
      (hd : Event.reported d ∈ [Event.requested request refusal]) :
      ∃ place ∈ place?, d.place = some place := by
    cases List.mem_singleton.1 hd
  unfold Machine.perform
  rcases Surface.perform request m.surface with ⟨_ | e, surface⟩
  · exact ⟨[.requested request none], rfl, hrequest none⟩
  · exact ⟨[.requested request (some e)], rfl, hrequest (some e)⟩

theorem reportsAt_command [Surface σ] (config : Config) (place : Place) (cmd : Command)
    (m : Machine σ) : ReportsAt (some place) m (m.command config place cmd).machine := by
  obtain ⟨plan, hplan⟩ := planned_command (σ := σ) config place cmd m.view
  have hsay := reportsAt_sayAll place plan.notices m
  rw [(hplan m rfl).run, carryOut]
  cases plan.effect with
  | keep => exact hsay
  | bind bindings => exact hsay.trans (.of_events (events_setAll bindings _))
  | arrays arrays => exact hsay
  | request request => exact hsay.trans (reportsAt_perform _ request _)

/-- A step reports at the place of the statement that its task goes on with. -/
theorem Task.Does.reports [Surface σ] {config : Config} {m : Machine σ} {task : Task}
    {next : List Task × Outcome σ} (h : task.Does config m next) :
    ReportsAt task.place? m next.2.machine := by
  cases h with
  | leave place name => exact reportsAt_sayAll place [_] (m.leaveCall name).2
  | @enter name args method place rest henters =>
    obtain ⟨scope, notices, hentered⟩ := entered_eq config place name args method m
    rw [hentered]
    exact reportsAt_sayAll place notices m
  | register place header lines body rest notice => exact reportsAt_sayAll place [notice] m
  | command place cmd rest => exact reportsAt_command config place cmd m
  | round place var stop step body counter made => exact .of_events rfl
  | endFor place var stop step body counter made notices => exact reportsAt_sayAll place notices m
  | look place notices htask htasks hplace =>
    rcases hplace with rfl | hplace
    · exact .of_events rfl
    · rw [hplace]
      exact reportsAt_sayAll place notices m

/-! ## Reports of a run -/

/-- All that was reported belongs to statements of the program. -/
def Machine.Located (program : List Stmt) (m : Machine σ) : Prop :=
  ∀ d, Event.reported d ∈ m.events → ∃ stmt ∈ insideAll program, d.place = some stmt.place

theorem Machine.Located.reports {program : List Stmt} {m m' : Machine σ} (h : m.Located program)
    {task : Task} (htask : task.From program) (hreports : ReportsAt task.place? m m') :
    m'.Located program := by
  intro d hd
  rcases hreports.mem hd with hold | ⟨place, hplace, hd⟩
  · exact h d hold
  · obtain ⟨stmt, hstmt, rfl⟩ := htask.stmt hplace
    exact ⟨stmt, hstmt, hd⟩

theorem events_giveUp (task : Task) (e : CanvasError) (m : Machine σ) :
    (task.giveUp (.stopped e m)).machine.events = m.events := by
  cases task with
  | leave place name => rfl
  | stmts rest => rfl
  | whileLoop place cond body made => rfl
  | forLoop place var stop step body counter made => rfl

/-- Every step reports at statements of the program. -/
theorem located_next [Surface σ] {config : Config} {program : List Stmt} {s s' : Stage σ}
    (hfrom : s.From program) (h : s.machine.Located program)
    (hnext : s.next? config = some s') : s'.machine.Located program := by
  cases moves_of_next? hnext with
  | goOn task rest m =>
    have htask : task.From program := (List.forall_mem_cons.1 hfrom.tasks).1
    have hm : m.Located program := h
    exact hm.reports htask (task.step_does config m).reports
  | giveUp task rest e m =>
    intro d hd
    refine h d ?_
    -- a call that is left because the run was stopped does not report its result
    exact (events_giveUp task e m) ▸ hd

/-- A run reports at statements of its program and nowhere else. -/
theorem run_located [Surface σ] (interpreter : Interpreter) (program : List Stmt) (surface : σ) :
    (interpreter.reset.outcome program surface).machine.Located program := by
  obtain ⟨visited, hpath⟩ := interpreter.reset.leads_outcome program surface
  have hstart : (Stage.start program
      { store := interpreter.reset.store, surface := surface }).From program :=
    .start rfl
  have hnone : (Stage.start program
      { store := interpreter.reset.store, surface := surface }).machine.Located program :=
    fun d hd => absurd hd List.not_mem_nil
  refine (hpath.invariant (P := fun s => s.From program ∧ s.machine.Located program) ?_
    ⟨hstart, hnone⟩).2.2
  rintro s s' ⟨hfrom, hlocated⟩ hnext
  exact ⟨hfrom.next hnext, located_next hfrom hlocated hnext⟩

/-! ## Sources -/

namespace Parsed.Accounts

variable {parsed : Parsed} {lines : List Line} {marks : List (Line × Bool)}

/-- A line with a mark, whichever it is, is one of the lines and is not skipped. -/
theorem of_marked (h : parsed.Accounts lines marks) {flag : Bool} {line : Line}
    (hline : line ∈ marked flag marks) : line ∈ lines ∧ line.isSkippable = false :=
  ⟨h.inOrder.subset ((marked_sublist flag marks).subset hline), h.relevant _ (mem_marked.1 hline)⟩

/-- A statement has the place of a line that is not skipped. -/
theorem line_of_stmt (h : parsed.Accounts lines marks) {stmt : Stmt}
    (hstmt : stmt ∈ insideAll parsed.stmts) :
    ∃ line ∈ lines, line.isSkippable = false ∧ stmt.place = line.place := by
  have hplace : stmt.place ∈ (marked true marks).map Line.place :=
    h.stmts ▸ List.mem_map_of_mem hstmt
  obtain ⟨line, hline, hsame⟩ := List.mem_map.1 hplace
  obtain ⟨hmem, hskip⟩ := h.of_marked hline
  exact ⟨line, hmem, hskip, hsame.symm⟩

/-- A problem met in reading has the place of a line that is not skipped. -/
theorem line_of_diagnostic (h : parsed.Accounts lines marks) {d : Diagnostic}
    (hd : d ∈ parsed.diagnostics) :
    ∃ line ∈ lines, line.isSkippable = false ∧ d.place = some line.place := by
  have hplace : d.place ∈ (marked false marks).map fun line => some line.place :=
    h.diagnostics ▸ List.mem_map_of_mem hd
  obtain ⟨line, hline, hsame⟩ := List.mem_map.1 hplace
  obtain ⟨hmem, hskip⟩ := h.of_marked hline
  exact ⟨line, hmem, hskip, hsame.symm⟩

end Parsed.Accounts

/-- Every diagnostic of a run, met in reading the source or in running its program, has the number
and the span of a line of the source that is not skipped. The span starts and ends between
characters of the source, and what stands there is the piece of the source with the number of the
line, without blanks at its ends. -/
theorem run_diagnostics_located [Surface σ] (interpreter : Interpreter) (source : String)
    (surface : σ) (d : Diagnostic)
    (hd : d ∈ (interpreter.run source surface).diagnostics) :
    ∃ line ∈ Line.split source, line.isSkippable = false ∧ d.place = some line.place ∧
      line.StandsIn source := by
  obtain ⟨marks, haccounts⟩ := Parsed.ofSource_accounts source
  have hline : ∃ line ∈ Line.split source, line.isSkippable = false ∧
      d.place = some line.place := by
    rcases List.mem_append.1 hd with hparsed | hrun
    · exact haccounts.line_of_diagnostic hparsed
    · have hreported := mem_diagnostics.1 hrun
      obtain ⟨stmt, hstmt, hplace⟩ := run_located interpreter _ surface d hreported
      obtain ⟨line, hline, hskip, hsame⟩ := haccounts.line_of_stmt hstmt
      exact ⟨line, hline, hskip, hsame ▸ hplace⟩
  obtain ⟨line, hmem, hskip, hplace⟩ := hline
  exact ⟨line, hmem, hskip, hplace, Line.standsIn_of_mem_split hmem⟩

/-- A program with a line of no known form in the body of a method that is called further down. -/
def bogus : String :=
  "method int f\n  bogus é\nend method\ncall f"

/-- The line of no known form is reported when the method is called, at its own place. -/
theorem run_diagnostics_located_bogus :
    ∃ d ∈ ((Interpreter.new {}).run bogus ({ width := 640, height := 480 } : Canvas)).diagnostics,
      d.place = some ⟨2, ⟨15, 23⟩⟩ ∧ ∃ line ∈ Line.split bogus, line.isSkippable = false ∧
        d.place = some line.place ∧ line.StandsIn bogus := by
  have hplace : some ⟨2, ⟨15, 23⟩⟩ ∈ ((Interpreter.new {}).run bogus
      ({ width := 640, height := 480 } : Canvas)).diagnostics.map Diagnostic.place := by
    decide +kernel
  obtain ⟨d, hd, hplace⟩ := List.mem_map.1 hplace
  exact ⟨d, hd, hplace, run_diagnostics_located _ bogus _ d hd⟩

end Drawscript
