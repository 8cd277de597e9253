import Drawscript.Interpreter
import Drawscript.Proofs.Exec.RunLaw

/-!
# A refused request ends the run

The events of a run are the diagnostics reported and the requests put to the surface with their
answers, in order. A run is stopped if and only if the surface refuses a request, and then the
refused request is the last event, however many loops and calls it was nested in
(`run_error_iff_refused`). Nothing else stops a run.

The events are the true history of the surface: put to it one after the other, the requests get the
answers recorded, and lead to the surface that the run leaves behind (`Answers`).
-/

set_option autoImplicit false

namespace Drawscript

open Machine

variable {σ : Type}

/-! ## Histories -/

namespace Event

/-- The refusal of a request that the surface refused. -/
def refusal? : Event → Option CanvasError
  | reported _ => none
  | requested _ refusal => refusal

/-- The diagnostic that was reported. -/
def diagnostic? : Event → Option Diagnostic
  | reported d => some d
  | requested _ _ => none

end Event

/-- Put to a surface in order, the requests of the events get their answers and lead to another
surface. -/
inductive Answers [Surface σ] : σ → List Event → σ → Prop
  | nil (surface : σ) : Answers surface [] surface
  | reported {surface last : σ} {events : List Event} (d : Diagnostic)
      (hrest : Answers surface events last) : Answers surface (.reported d :: events) last
  | requested {surface next last : σ} {events : List Event} {request : Request}
      {refusal : Option CanvasError} (hanswer : Surface.perform request surface = (refusal, next))
      (hrest : Answers next events last) :
      Answers surface (.requested request refusal :: events) last

/-- Histories one after the other, the second starting from the surface that the first has left. -/
theorem Answers.append [Surface σ] {surface middle last : σ} {first second : List Event}
    (h : Answers surface first middle) (h' : Answers middle second last) :
    Answers surface (first ++ second) last := by
  induction h with
  | nil surface => exact h'
  | reported d _ ih => exact .reported d (ih h')
  | requested hanswer _ ih => exact .requested hanswer (ih h')

/-- Reports ask nothing of the surface. -/
theorem answers_reported [Surface σ] (surface : σ) (diagnostics : List Diagnostic) :
    Answers surface (diagnostics.map .reported) surface := by
  induction diagnostics with
  | nil => exact .nil surface
  | cons d rest ih => exact .reported d ih

/-- The events go with the end of a run: without a refusal no request was refused, and a run that
was stopped ends with the one request that was. -/
inductive EndsWith : Option CanvasError → List Event → Prop
  | granted {events : List Event} (hgranted : ∀ event ∈ events, event.refusal? = none) :
      EndsWith none events
  | refused {events : List Event} (hgranted : ∀ event ∈ events, event.refusal? = none)
      (request : Request) (e : CanvasError) :
      EndsWith (some e) (events ++ [.requested request (some e)])

namespace EndsWith

theorem append {first second : List Event} {refusal : Option CanvasError}
    (h : EndsWith none first) (h' : EndsWith refusal second) :
    EndsWith refusal (first ++ second) := by
  cases h with
  | granted hfirst =>
    cases h' with
    | granted hsecond => exact .granted (List.forall_mem_append.2 ⟨hfirst, hsecond⟩)
    | refused hsecond request e =>
      rw [← List.append_assoc]
      exact .refused (List.forall_mem_append.2 ⟨hfirst, hsecond⟩) request e

/-- A refusal ends the run if and only if a request met it. -/
theorem eq_some_iff {events : List Event} {refusal : Option CanvasError}
    (h : EndsWith refusal events) (e : CanvasError) :
    refusal = some e ↔ ∃ request, Event.requested request (some e) ∈ events := by
  cases h with
  | granted hgranted =>
    constructor
    · intro hrefusal
      cases hrefusal
    · rintro ⟨request, hmem⟩
      cases hgranted _ hmem
  | @refused before hgranted request e' =>
    constructor
    · intro hrefusal
      cases hrefusal
      exact ⟨request, List.mem_append_right before (List.mem_singleton_self _)⟩
    · rintro ⟨request', hmem⟩
      rcases List.mem_append.1 hmem with hbefore | hlast
      · cases hgranted _ hbefore
      · cases List.mem_singleton.1 hlast
        rfl

/-- Nothing comes after a refused request. -/
theorem eq_nil_of_refused {before after : List Event} {refusal : Option CanvasError}
    {request : Request} {e : CanvasError}
    (h : EndsWith refusal (before ++ .requested request (some e) :: after)) : after = [] := by
  generalize hevents : before ++ .requested request (some e) :: after = events at h
  cases h with
  | granted hgranted =>
    have hmem : Event.requested request (some e) ∈ events :=
      hevents ▸ List.mem_append_right before List.mem_cons_self
    cases hgranted _ hmem
  | @refused granted hgranted request' e' =>
    rcases List.eq_nil_or_concat' after with rfl | ⟨rest, last, rfl⟩
    · rfl
    · -- the refused request would stand before the last event, among those that were granted
      have hsame : (before ++ .requested request (some e) :: rest) ++ [last] =
          granted ++ [.requested request' (some e')] := by
        rw [← hevents, List.append_assoc, List.cons_append]
      have hbefore := (List.append_inj' hsame rfl).1
      have hmem : Event.requested request (some e) ∈ granted :=
        hbefore ▸ List.mem_append_right before List.mem_cons_self
      cases hgranted _ hmem

end EndsWith

/-! ## Runs -/

/-- The news are what happens from a machine to the outcome of a run, in order. -/
structure Happens [Surface σ] (m : Machine σ) (o : Outcome σ) (news : List Event) : Prop where
  events : o.machine.events = news.reverse ++ m.events
  answers : Answers m.surface news o.machine.surface
  ending : EndsWith o.refusal? news

theorem happens_none [Surface σ] {m m' : Machine σ} (hevents : m'.events = m.events)
    (hsurface : m'.surface = m.surface) : Happens m (.done m') [] where
  events := hevents
  answers := by
    show Answers m.surface [] m'.surface
    rw [hsurface]
    exact .nil m.surface
  ending := .granted (List.forall_mem_nil _)

/-- What happens in a run that is done, and then in what follows it. -/
theorem Happens.trans [Surface σ] {m m' : Machine σ} {o : Outcome σ} {first second : List Event}
    (h : Happens m (.done m') first) (h' : Happens m' o second) :
    Happens m o (first ++ second) where
  events := by
    have hfirst : m'.events = first.reverse ++ m.events := h.events
    rw [h'.events, hfirst, List.reverse_append, List.append_assoc]
  answers := h.answers.append h'.answers
  ending := h.ending.append h'.ending

/-- Every run has a history: the surface answers its requests in order, and a refusal is the last
event. -/
theorem runLaw_happens [Surface σ] :
    RunLaw fun (m : Machine σ) (o : Outcome σ) => ∃ news, Happens m o news where
  done m := ⟨[], happens_none rfl rfl⟩
  seq := by
    rintro m m' o ⟨first, hfirst⟩ ⟨second, hsecond⟩
    exact ⟨first ++ second, hfirst.trans hsecond⟩
  say m place notice :=
    ⟨[.reported ⟨notice, some place⟩], rfl, .reported _ (.nil m.surface),
      .granted (List.forall_mem_singleton.2 rfl)⟩
  set m _ _ := ⟨[], happens_none rfl rfl⟩
  remove m _ := ⟨[], happens_none rfl rfl⟩
  setArrays m _ := ⟨[], happens_none rfl rfl⟩
  register m _ := ⟨[], happens_none rfl rfl⟩
  perform m request := by
    unfold Machine.perform
    cases hanswer : Surface.perform request m.surface with
    | mk refusal surface =>
      cases refusal with
      | none =>
        exact ⟨[.requested request none], rfl, .requested hanswer (.nil surface),
          .granted (List.forall_mem_singleton.2 rfl)⟩
      | some e =>
        exact ⟨[.requested request (some e)], rfl, .requested hanswer (.nil surface),
          .refused (List.forall_mem_nil _) request e⟩
  -- entering and leaving a call changes the variables and the running calls alone
  finish := by
    rintro m m' method name scope ⟨news, h⟩
    exact ⟨news, h.events, h.answers, h.ending⟩
  abort := by
    rintro m m' e method name scope ⟨news, h⟩
    exact ⟨news, h.events, h.answers, h.ending⟩

/-! ## Programs -/

/-- The events of the run of a source text, in order. Problems of the text come first. -/
def Interpreter.events [Surface σ] (interpreter : Interpreter) (source : String) (surface : σ) :
    List Event :=
  let parsed := Parsed.ofSource source
  parsed.diagnostics.map .reported ++
    (interpreter.reset.outcome parsed.stmts surface).machine.events.reverse

theorem filterMap_diagnostic?_reported (diagnostics : List Diagnostic) :
    (diagnostics.map Event.reported).filterMap Event.diagnostic? = diagnostics := by
  rw [List.filterMap_map]
  exact List.filterMap_some

theorem diagnostics_eq_filterMap (m : Machine σ) :
    m.diagnostics = m.events.reverse.filterMap Event.diagnostic? := by
  unfold diagnostics
  refine List.filterMap_congr fun event _ => ?_
  cases event with
  | reported d => rfl
  | requested request refusal => rfl

/-- The run of a program is stopped for a reason if and only if the surface refuses a request for
it, and nothing happens after a refused request. The diagnostics among the events are those that the
run reports, and the requests among them are those that the surface has answered. -/
theorem run_error_iff_refused [Surface σ] (interpreter : Interpreter) (source : String)
    (surface : σ) :
    let result := interpreter.run source surface
    let events := interpreter.events source surface
    (∀ e, result.error = some e ↔ ∃ request, Event.requested request (some e) ∈ events) ∧
      (∀ before request e after, events = before ++ .requested request (some e) :: after →
        after = []) ∧
      result.diagnostics = events.filterMap Event.diagnostic? ∧
      Answers surface events result.surface := by
  intro result events
  let parsed := Parsed.ofSource source
  let outcome := interpreter.reset.outcome parsed.stmts surface
  obtain ⟨news, hnews⟩ : ∃ news, Happens _ outcome news :=
    runLaw_happens.runBody interpreter.config interpreter.config.maxCallDepth parsed.stmts
      { store := interpreter.reset.store, surface := surface }
  have hevents : events = parsed.diagnostics.map .reported ++ news := by
    have hreverse : outcome.machine.events.reverse = news := by
      rw [hnews.events, List.append_nil, List.reverse_reverse]
    show parsed.diagnostics.map .reported ++ outcome.machine.events.reverse = _
    rw [hreverse]
  -- nothing is asked of the surface while the source is read
  have hparsed : EndsWith none (parsed.diagnostics.map .reported) := by
    refine .granted fun event hevent => ?_
    obtain ⟨d, -, rfl⟩ := List.mem_map.1 hevent
    rfl
  have hending : EndsWith result.error events := by
    rw [hevents]
    exact hparsed.append hnews.ending
  refine ⟨hending.eq_some_iff, ?_, ?_, ?_⟩
  · intro before request e after hsplit
    rw [hsplit] at hending
    exact hending.eq_nil_of_refused
  · show parsed.diagnostics ++ outcome.machine.diagnostics =
      (parsed.diagnostics.map Event.reported ++ outcome.machine.events.reverse).filterMap
        Event.diagnostic?
    rw [List.filterMap_append, filterMap_diagnostic?_reported, diagnostics_eq_filterMap]
  · rw [hevents]
    exact (answers_reported surface parsed.diagnostics).append hnews.answers

end Drawscript
