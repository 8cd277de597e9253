import Drawscript.Proofs.Exec.Steps

/-!
# Every run ends

The steps of a run come to an end, whatever the statements, the machine and the limits
(`run_ends`). All along, no more calls are running than the limit on nested calls allows, and a loop
goes into its body at most as often as the limit on rounds allows. The outcome at the end is what
`runBody` computes with any sufficient room for nested calls, so that more room never changes it.
-/

set_option autoImplicit false

namespace Drawscript

open Machine

variable {σ : Type}

/-! ## Running calls -/

theorem length_frames_leave (place : Place) (name : String) (o : Outcome σ) :
    (o.leave place name).machine.frames.length ≤ o.machine.frames.length := by
  have htail (frames : List Frame) : frames.tail.length ≤ frames.length := by
    rw [List.length_tail]
    exact Nat.sub_le _ 1
  cases o with
  | done m => exact htail m.frames
  | stopped e m => exact htail m.frames

/-- A step starts a call only below the limit. -/
theorem frames_next? [Surface σ] {config : Config} {s s' : Stage σ}
    (hnext : s.next? config = some s') :
    s'.machine.frames.length ≤ max s.machine.frames.length config.maxCallDepth := by
  cases moves_of_next? hnext with
  | goOn task rest m =>
    rcases runLaw_keeps.step_cases config m task with
      ⟨place, name, rfl⟩ | ⟨place, name, args, stmts, method, rfl, henters⟩ | ⟨-, hkeeps, -⟩
    · exact (length_frames_leave place name (.done m)).trans (le_max_left _ _)
    · have hlength := length_frames_entered config place name args method m
      rw [henters.step_eq]
      exact (hlength.le.trans henters.depth).trans (le_max_right _ _)
    · exact (congrArg List.length hkeeps.frames).le.trans (le_max_left _ _)
  | giveUp task rest e m =>
    by_cases htask : task.isLeave = true
    · obtain ⟨place, name, rfl⟩ := eq_leave_of_isLeave htask
      exact (length_frames_leave place name (.stopped e m)).trans (le_max_left _ _)
    · rw [giveUp_of_not_leave (Bool.eq_false_iff.2 htask)]
      exact le_max_left _ _

/-- At every point of a run, the limit on nested calls is kept. -/
theorem Leads.frames_le [Surface σ] {config : Config} {s s' : Stage σ} (h : Leads config s s') :
    s'.machine.frames.length ≤ max s.machine.frames.length config.maxCallDepth := by
  obtain ⟨visited, hpath⟩ := h
  refine (hpath.invariant (P := fun s' => s'.machine.frames.length ≤
    max s.machine.frames.length config.maxCallDepth) (fun s₁ s₂ hs₁ hnext => ?_) ?_).2
  · exact (frames_next? hnext).trans (max_le hs₁ (le_max_right _ _))
  · exact le_max_left _ _

/-! ## Rounds of a loop -/

/-- The number of rounds that a loop has made. -/
def Task.rounds? : Task → Option Nat
  | .whileLoop _ _ _ made => some made
  | .forLoop _ _ _ _ _ _ made => some made
  | _ => none

/-- From a stage at which the loop above some tasks comes next, the run goes into its body. -/
def Stage.startsRound [Surface σ] (config : Config) (rest : List Task) (s : Stage σ) : Bool :=
  s.tasks.length == rest.length + 1 &&
    (s.next? config).map (fun s' => s'.tasks.length) == some (rest.length + 2)

/-- A loop ends, or it makes a round more and counts it, which it does only below the limit. -/
theorem Task.step_of_rounds [Surface σ] (config : Config) (m : Machine σ) {task : Task} {made : Nat}
    (htask : task.rounds? = some made) :
    (task.step config m).1 = [] ∨
    (made ≠ config.maxIterations ∧ ∃ body task', task'.rounds? = some (made + 1) ∧
      (task.step config m).1 = [.stmts body, task']) := by
  cases task with
  | stmts rest => cases htask
  | leave place name => cases htask
  | whileLoop place cond body made' =>
    cases htask
    rw [Task.step]
    rcases m.test config.evalMode place cond with ⟨_ | _, after⟩
    · exact Or.inl rfl
    · by_cases hmade : made = config.maxIterations
      · exact Or.inl (by simp only [if_true, if_pos hmade])
      · refine Or.inr ⟨hmade, body, .whileLoop place cond body (made + 1), rfl, ?_⟩
        simp only [if_true, if_neg hmade]
  | forLoop place var stop step body counter made' =>
    cases htask
    rw [Task.step]
    by_cases hrange : inRange counter stop step = true
    · by_cases hmade : made = config.maxIterations
      · exact Or.inl (by simp only [if_pos hrange, if_pos hmade])
      · refine Or.inr ⟨hmade, body,
          .forLoop place var stop step body (counter + step) (made + 1), rfl, ?_⟩
        simp only [if_pos hrange, if_neg hmade]
    · exact Or.inl (by simp only [if_neg hrange])

/-- A step leaves all tasks but the first as they are. -/
theorem tasks_next? [Surface σ] {config : Config} {s s' : Stage σ} {task : Task} {rest : List Task}
    (htasks : s.tasks = task :: rest) (hnext : s.next? config = some s') :
    ∃ before, s'.tasks = before ++ rest := by
  cases moves_of_next? hnext with
  | goOn task' rest' m =>
    obtain ⟨rfl, rfl⟩ := List.cons.inj htasks
    exact ⟨_, rfl⟩
  | giveUp task' rest' e m =>
    obtain ⟨rfl, rfl⟩ := List.cons.inj htasks
    exact ⟨[], rfl⟩

/-- A loop that has made some rounds goes on for as many rounds as are left to the limit at most.
The tasks before it belong to the round that it is making. -/
theorem Path.countP_startsRound [Surface σ] {config : Config} {s last : Stage σ}
    {during : List (Stage σ)} (hpath : Path config s during last) {before rest : List Task}
    {loop : Task} {made : Nat} (htasks : s.tasks = before ++ loop :: rest)
    (hloop : loop.rounds? = some made) (hmade : made ≤ config.maxIterations)
    (hduring : ∀ s' ∈ during, rest.length < s'.tasks.length) :
    during.countP (Stage.startsRound config rest) ≤ config.maxIterations - made := by
  induction hpath generalizing before loop made with
  | refl s => exact Nat.zero_le _
  | @step s s' last visited hnext hpath ih =>
    have hvisited := (List.forall_mem_cons.1 hduring).2
    rw [List.countP_cons]
    cases before with
    | cons task before =>
      -- inside a round: the loop itself does not come next
      have hinside : s.startsRound config rest = false := by
        have hlength : s.tasks.length ≠ rest.length + 1 := by
          rw [htasks]
          simp only [List.length_cons, List.length_append]
          omega
        rw [Stage.startsRound, beq_false_of_ne hlength, Bool.false_and]
      obtain ⟨more, hmore⟩ := tasks_next? htasks hnext
      rw [hinside, if_neg Bool.false_ne_true]
      exact ih (hmore.trans (List.append_assoc more before _).symm) hloop hmade hvisited
    | nil =>
      -- if the loop is over after this step, then so is the part of the run that is looked at
      have hover (htasks' : s'.tasks = rest) :
          s.startsRound config rest = false ∧ visited = [] := by
        constructor
        · have hlength : some s'.tasks.length ≠ some (rest.length + 2) := by
            rw [htasks', Ne, Option.some.injEq]
            omega
          rw [Stage.startsRound, hnext, Option.map_some, beq_false_of_ne hlength, Bool.and_false]
        · cases hpath with
          | refl => rfl
          | step hnext' hpath' =>
            have hlonger := hvisited _ List.mem_cons_self
            rw [htasks'] at hlonger
            exact absurd hlonger (Nat.lt_irrefl _)
      have hend (htasks' : s'.tasks = rest) :
          List.countP (Stage.startsRound config rest) visited +
            (if s.startsRound config rest = true then 1 else 0) ≤ config.maxIterations - made := by
        obtain ⟨hnone, hvisited'⟩ := hover htasks'
        rw [hnone, hvisited', if_neg Bool.false_ne_true]
        exact Nat.zero_le _
      cases moves_of_next? hnext with
      | giveUp task rest' e m =>
        obtain ⟨rfl, rfl⟩ := List.cons.inj htasks
        exact hend rfl
      | goOn task rest' m =>
        obtain ⟨rfl, rfl⟩ := List.cons.inj htasks
        rcases Task.step_of_rounds config m hloop with
          hdone | ⟨hlimit, body, loop', hloop', hround⟩
        · exact hend (congrArg (· ++ rest') hdone)
        · have htasks' : (task.step config m).1 ++ rest' = [.stmts body] ++ loop' :: rest' :=
            congrArg (· ++ rest') hround
          have hrest := ih htasks' hloop' (by omega) hvisited
          split <;> omega

/-! ## Runs -/

/-- Every run ends, with the outcome that `runBody` computes with any room for the calls that the
limit still allows. At every point of the run the running calls are within the limit, and from its
start on a loop goes into its body no more often than the limit on rounds allows. -/
theorem run_ends [Surface σ] (config : Config) (stmts : List Stmt) (m : Machine σ) :
    (∃ outcome, Leads config (.start stmts m) ⟨[], outcome⟩ ∧
      ∀ room, config.maxCallDepth ≤ room + m.frames.length →
        runBody config room stmts m = outcome) ∧
    (∀ s, Leads config (.start stmts m) s →
      s.machine.frames.length ≤ max m.frames.length config.maxCallDepth) ∧
    (∀ s during last loop rest, Leads config (.start stmts m) s → s.tasks = loop :: rest →
      loop.rounds? = some 0 → Path config s during last →
      (∀ s' ∈ during, rest.length < s'.tasks.length) →
      during.countP (Stage.startsRound config rest) ≤ config.maxIterations) := by
  have hleads : Leads config (.start stmts m) ⟨[], runBody config config.maxCallDepth stmts m⟩ :=
    leads_runBody config config.maxCallDepth stmts m [] (Nat.le_add_right _ _)
  refine ⟨⟨_, hleads, fun room hroom => ?_⟩, fun s hs => hs.frames_le,
    fun s during last loop rest _ htasks hloop hpath hduring => ?_⟩
  · obtain ⟨visited, hpath⟩ := hleads
    exact runBody_eq_of_path hroom hpath
  · have htasks' : s.tasks = [] ++ loop :: rest := htasks
    exact hpath.countP_startsRound htasks' hloop (Nat.zero_le _) hduring

end Drawscript
