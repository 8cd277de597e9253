import Drawscript.Proofs.Exec.Scoping
import Mathlib.Order.Bounds.Basic

/-!
# The rounds of a loop

What a loop does is its body, run some number of times, one after the other (`Rounds`). How often is
decided by the header alone. A `for` loop counts from its start by its step until it has passed its
end or has made as many rounds as the limit allows; before each round the counter is given to its
variable, whatever the round before has made of that. A `while` loop tests its condition before each
round and once more at its end. A loop that is ended by the limit says so, after the last round, and
no other loop does (`loop_rounds_of_stack`).
-/

set_option autoImplicit false

namespace Drawscript

open Machine

variable {σ : Type}

/-- The body of a loop is run `n` times, one after the other. Each round is made ready on the
machine that the one before has left. -/
def Rounds (body : Machine σ → Outcome σ) (ready : Nat → Machine σ → Machine σ) (n : Nat)
    (between : Nat → Machine σ) : Prop :=
  ∀ k < n, body (ready k (between k)) = .done (between (k + 1))

/-- The machines between the rounds of a loop, with one more round before them. -/
def startingAt (m : Machine σ) (between : Nat → Machine σ) : Nat → Machine σ
  | 0 => m
  | k + 1 => between k

theorem startingAt_succ (m : Machine σ) (between : Nat → Machine σ) (k : Nat) :
    startingAt m between (k + 1) = between k :=
  rfl

namespace Rounds

variable {body : Machine σ → Outcome σ} {ready : Nat → Machine σ → Machine σ} {n : Nat}
  {between : Nat → Machine σ}

theorem zero (body : Machine σ → Outcome σ) (ready : Nat → Machine σ → Machine σ)
    (between : Nat → Machine σ) : Rounds body ready 0 between :=
  fun k hk => absurd hk (Nat.not_lt_zero k)

/-- One round, and then the others. -/
theorem cons {m : Machine σ} (hfirst : body (ready 0 m) = .done (between 0))
    (hrest : Rounds body (fun k => ready (k + 1)) n between) :
    Rounds body ready (n + 1) (startingAt m between) := by
  intro k hk
  cases k with
  | zero => exact hfirst
  | succ k => exact hrest k (Nat.lt_of_succ_lt_succ hk)

/-- What each round keeps is kept by all of them. -/
theorem keeps (h : Rounds body ready n between) (hbody : ∀ m, Keeps m (body m).machine)
    (hready : ∀ k m, Keeps m (ready k m)) {k : Nat} (hk : k ≤ n) :
    Keeps (between 0) (between k) := by
  induction k with
  | zero => exact Keeps.refl _
  | succ k ih =>
    have hround := hbody (ready k (between k))
    rw [h k hk] at hround
    exact ((ih (Nat.le_of_succ_le hk)).trans (hready k _)).trans hround

end Rounds

theorem eq_done_of_refusal? {o : Outcome σ} (h : o.refusal? = none) : o = .done o.machine := by
  cases o with
  | done m => rfl
  | stopped e m => cases h

namespace Machine

/-! ## `for` loops -/

/-- The counter of a `for` loop after some rounds. -/
def counterAt (start step : Float) : Nat → Float
  | 0 => start
  | k + 1 => counterAt start step k + step

theorem counterAt_succ (start step : Float) (k : Nat) :
    counterAt (start + step) step k = counterAt start step (k + 1) := by
  induction k with
  | zero => rfl
  | succ k ih =>
    rw [counterAt, ih]
    rfl

/-- The number of rounds at which a loop that may make a number of rounds comes to its end. -/
def EndsAfter (start stop step : Float) (rounds n : Nat) : Prop :=
  IsLeast {k | k = rounds ∨ inRange (counterAt start step k) stop step = false} n

theorem endsAfter_zero {start stop step : Float} {rounds : Nat}
    (h : rounds = 0 ∨ inRange start stop step = false) : EndsAfter start stop step rounds 0 :=
  ⟨h.imp_left Eq.symm, fun k _ => Nat.zero_le k⟩

theorem EndsAfter.succ {start stop step : Float} {rounds n : Nat}
    (h : EndsAfter (start + step) stop step rounds n) (hrange : inRange start stop step = true) :
    EndsAfter start stop step (rounds + 1) (n + 1) := by
  obtain ⟨hend, hleast⟩ := h
  refine ⟨?_, fun k hk => ?_⟩
  · rcases hend with rfl | hend
    · exact Or.inl rfl
    · exact Or.inr (counterAt_succ start step n ▸ hend)
  · cases k with
    | zero =>
      -- there are rounds left, and the first counter is in range
      rcases hk with hk | hk
      · cases hk
      · exact absurd (hrange.symm.trans hk) Bool.true_eq_false.mp
    | succ k =>
      refine Nat.succ_le_succ (hleast ?_)
      rcases hk with hk | hk
      · exact Or.inl (Nat.succ.inj hk)
      · exact Or.inr ((counterAt_succ start step k).symm ▸ hk)

/-- How a `for` loop ends after its last round, with a warning if its counter is still in range. -/
def forEnd (config : Config) (place : Place) (counter stop step : Float) (m : Machine σ) :
    Machine σ :=
  if inRange counter stop step then
    m.warn place s!"for loop stopped after {config.maxIterations} iterations"
  else m

theorem forRounds_of_not_inRange {stop step counter : Float}
    (hrange : inRange counter stop step = false) (config : Config) (place : Place) (var : String)
    (body : Machine σ → Outcome σ) (rounds : Nat) (m : Machine σ) :
    m.forRounds config place var stop step body rounds counter = .done m := by
  have hnot : ¬ inRange counter stop step = true := by rw [hrange]; exact Bool.false_ne_true
  cases rounds with
  | zero => rw [forRounds, if_neg hnot]
  | succ rounds => rw [forRounds_succ, if_neg hnot]

theorem forRounds_zero (config : Config) (place : Place) (var : String) (stop step counter : Float)
    (body : Machine σ → Outcome σ) (m : Machine σ) :
    m.forRounds config place var stop step body 0 counter =
      .done (m.forEnd config place counter stop step) := by
  rw [forRounds, forEnd]
  by_cases hrange : inRange counter stop step = true
  · rw [if_pos hrange, if_pos hrange]
  · rw [if_neg hrange, if_neg hrange]

/-- What a `for` loop has done, given the number of rounds that it may make. -/
theorem forRounds_eq_done {config : Config} {place : Place} {var : String} {stop step : Float}
    {body : Machine σ → Outcome σ} {rounds : Nat} {counter : Float} {m after : Machine σ}
    (h : m.forRounds config place var stop step body rounds counter = .done after) :
    ∃ n between, EndsAfter counter stop step rounds n ∧ between 0 = m ∧
      Rounds body (fun k m => m.set var (Value.ofFloat (counterAt counter step k))) n between ∧
      after = (between n).forEnd config place (counterAt counter step n) stop step := by
  -- on the rounds that are left; after one round the rest is a loop from the next counter
  induction rounds generalizing counter m with
  | zero =>
    rw [forRounds_zero] at h
    exact ⟨0, fun _ => m, endsAfter_zero (Or.inl rfl), rfl, Rounds.zero _ _ _,
      (Outcome.done.inj h).symm⟩
  | succ rounds ih =>
    cases hrange : inRange counter stop step with
    | false =>
      rw [forRounds_of_not_inRange hrange] at h
      refine ⟨0, fun _ => m, endsAfter_zero (Or.inr hrange), rfl, Rounds.zero _ _ _, ?_⟩
      rw [forEnd, counterAt, hrange, ← Outcome.done.inj h]
      rfl
    | true =>
      rw [forRounds_succ, if_pos hrange] at h
      obtain ⟨next, hfirst, hrest⟩ := Outcome.andThen_eq_done h
      obtain ⟨n, between, hends, rfl, hrounds, hafter⟩ := ih hrest
      -- the counters of the rest are those of the whole loop, one round later
      simp only [counterAt_succ] at hrounds hafter
      refine ⟨n + 1, startingAt m between, hends.succ hrange, rfl, Rounds.cons hfirst hrounds, ?_⟩
      rw [startingAt_succ, hafter]

/-! ## `while` loops -/

/-- How a `while` loop ends after its last round: its condition is tested once more, and there is a
warning if that still holds. -/
def whileEnd (config : Config) (place : Place) (cond : String) (m : Machine σ) : Machine σ :=
  let tested := m.test config.evalMode place cond
  if tested.1 then
    tested.2.warn place s!"while loop stopped after {config.maxIterations} iterations"
  else tested.2

/-- What a `while` loop has done, given the number of rounds that it may make. -/
theorem whileLoop_eq_done {config : Config} {place : Place} {cond : String}
    {body : Machine σ → Outcome σ} {rounds : Nat} {m after : Machine σ}
    (h : m.whileLoop config place cond body rounds = .done after) :
    ∃ n between, n ≤ rounds ∧ between 0 = m ∧
      Rounds body (fun _ m => (m.test config.evalMode place cond).2) n between ∧
      (∀ k < n, ((between k).test config.evalMode place cond).1 = true) ∧
      (((between n).test config.evalMode place cond).1 = true → n = rounds) ∧
      after = (between n).whileEnd config place cond := by
  induction rounds generalizing m with
  | zero =>
    refine ⟨0, fun _ => m, Nat.le_refl 0, rfl, Rounds.zero _ _ _,
      fun k hk => absurd hk (Nat.not_lt_zero k), fun _ => rfl, ?_⟩
    rw [whileLoop_zero] at h
    -- with no round left the condition is tested all the same
    by_cases hholds : (m.test config.evalMode place cond).1 = true
    · rw [branch_of_true hholds] at h
      rw [whileEnd, if_pos hholds, Outcome.done.inj h]
    · rw [branch_of_false hholds] at h
      rw [whileEnd, if_neg hholds, Outcome.done.inj h]
  | succ rounds ih =>
    rw [whileLoop_succ] at h
    by_cases hholds : (m.test config.evalMode place cond).1 = true
    · rw [branch_of_true hholds] at h
      obtain ⟨next, hfirst, hrest⟩ := Outcome.andThen_eq_done h
      obtain ⟨n, between, hn, rfl, hrounds, htests, hlast, hafter⟩ := ih hrest
      refine ⟨n + 1, startingAt m between, Nat.succ_le_succ hn, rfl, Rounds.cons hfirst hrounds,
        fun k hk => ?_, ?_⟩
      · cases k with
        | zero => exact hholds
        | succ k => exact htests k (Nat.lt_of_succ_lt_succ hk)
      · rw [startingAt_succ]
        exact ⟨fun h => congrArg Nat.succ (hlast h), hafter⟩
    · -- the loop is over although there are rounds left, so it does not warn
      rw [branch_of_false hholds] at h
      refine ⟨0, fun _ => m, Nat.zero_le _, rfl, Rounds.zero _ _ _,
        fun k hk => absurd hk (Nat.not_lt_zero k), fun h => absurd h hholds, ?_⟩
      rw [whileEnd, if_neg hholds, Outcome.done.inj h]

end Machine

/-! ## Statements -/

section

variable [Surface σ] {config : Config} {room : Nat} {place : Place} {body : List Stmt}
  {m after : Machine σ}

/-- What a `for` statement has done, whatever the mode of its scopes. -/
theorem run_forLoop_eq_done {header : ForHeader} {start stop step : Float} {before : Machine σ}
    (hrange : m.forRange config place header = ((start, stop, step), before))
    (hstep : ¬ step.abs < tolerance)
    (h : runBody config room [.forLoop place header body] m = .done after) :
    ∃ n between, EndsAfter start stop step config.maxIterations n ∧ between 0 = before ∧
      Rounds (runBody config room body)
        (fun k m => m.set header.var (Value.ofFloat (counterAt start step k))) n between ∧
      after = ((between n).forEnd config place (counterAt start step n) stop step).remove
        header.var := by
  rw [runBody_eq_runAll, runAll_singleton, Stmt.run, forLoop_eq, hrange] at h
  simp only [if_neg hstep] at h
  obtain ⟨last, hrounds, hremoved⟩ := Outcome.andThen_eq_done h
  obtain ⟨n, between, hends, hfirst, hrounds, hlast⟩ := forRounds_eq_done hrounds
  -- the body runs with as much room for calls as the statement itself
  rw [← runBody_eq_runAll] at hrounds
  exact ⟨n, between, hends, hfirst, hrounds, hlast ▸ (Outcome.done.inj hremoved).symm⟩

/-- Each round of a `for` statement starts among the scopes and calls of the statement itself. -/
theorem keeps_begun {header : ForHeader} {value : Nat → Value} {n : Nat}
    {between : Nat → Machine σ}
    (hfirst : (m.forRange config place header).2 = between 0)
    (hrounds : Rounds (runBody config room body) (fun k m => m.set header.var (value k)) n between)
    {k : Nat} (hk : k < n) : Keeps m ((between k).set header.var (value k)) := by
  have hheader : Keeps m (between 0) := by
    rw [← hfirst]
    exact runLaw_keeps.query (isQuery_forRange config place header) m
  have hset : ∀ (k : Nat) (m : Machine σ), Keeps m (m.set header.var (value k)) :=
    fun k m => runLaw_keeps.set m header.var (value k)
  have hbefore : Keeps (between 0) (between k) :=
    hrounds.keeps (runBody_keeps config room body) hset (Nat.le_of_lt hk)
  exact (hheader.trans hbefore).trans (hset k (between k))

end

/-- A loop does what its header says. A `for` loop with a step other than zero (or with one that is
no number) makes the rounds up to the first counter that has passed the end, and no more than the
limit allows. In each the variable starts as the counter, in the scope of the statement, and it is
unknown when the loop is done. A `while` loop makes a round each time that its condition holds, and
tests it once more than it makes rounds. A loop warns if it would still go on, which only the limit
keeps it from. -/
theorem loop_rounds_of_stack [Surface σ] (config : Config) (room : Nat) (place : Place)
    (body : List Stmt) (m : Machine σ) (hstack : m.store.scopes.mode = .stack) :
    (∀ header start stop step before after,
      m.forRange config place header = ((start, stop, step), before) →
      ¬ step.abs < tolerance →
      runBody config room [.forLoop place header body] m = .done after →
      ∃ (n : Nat) (between : Nat → Machine σ),
        IsLeast {k | k = config.maxIterations ∨
          inRange (counterAt start step k) stop step = false} n ∧
        between 0 = before ∧
        (∀ k < n, ∃ begun,
          begun = (between k).set header.var (Value.ofFloat (counterAt start step k)) ∧
          begun.store.get? header.var = some (Value.ofFloat (counterAt start step k)) ∧
          begun.store.scopes.kept = m.store.scopes.kept ∧ begun.frames = m.frames ∧
          runBody config room body begun = .done (between (k + 1))) ∧
        after = ((between n).forEnd config place (counterAt start step n) stop step).remove
          header.var ∧
        after.store.get? header.var = none) ∧
    (∀ cond after,
      runBody config room [.whileLoop place cond body] m = .done after →
      ∃ (n : Nat) (between : Nat → Machine σ), n ≤ config.maxIterations ∧ between 0 = m ∧
        (∀ k < n, ((between k).test config.evalMode place cond).1 = true ∧
          runBody config room body ((between k).test config.evalMode place cond).2 =
            .done (between (k + 1))) ∧
        (((between n).test config.evalMode place cond).1 = true → n = config.maxIterations) ∧
        after = (between n).whileEnd config place cond) := by
  refine ⟨fun header start stop step before after hrange hstep h => ?_, fun cond after h => ?_⟩
  · obtain ⟨n, between, hends, hfirst, hrounds, hafter⟩ := run_forLoop_eq_done hrange hstep h
    have hbefore : (m.forRange config place header).2 = between 0 := by rw [hrange, hfirst]
    refine ⟨n, between, hends, hfirst, fun k hk => ⟨_, rfl, ?_, ?_, ?_, hrounds k hk⟩, hafter, ?_⟩
    · exact Table.get?_insert_self _ _ _
    · exact (keeps_begun hbefore hrounds hk).kept hstack
    · exact (keeps_begun hbefore hrounds hk).frames
    · rw [hafter]
      exact Table.get?_erase_self _ _
  · rw [runBody_eq_runAll, runAll_singleton, Stmt.run, ← runBody_eq_runAll] at h
    obtain ⟨n, between, hn, hfirst, hrounds, htests, hlast, hafter⟩ := whileLoop_eq_done h
    exact ⟨n, between, hn, hfirst, fun k hk => ⟨htests k hk, hrounds k hk⟩, hlast, hafter⟩

/-- A machine with a variable that the loops below count with and that their body sets. -/
def counting : Machine Canvas where
  store := { scopes := { mode := .stack, active := ⟨[("i", .int 9)]⟩ } }
  surface := { width := 640, height := 480 }

/-- A `for` loop that is ended by the limit after two rounds, and a `while` loop that makes at least
one. Their body sets the variable that they count with. -/
theorem loop_rounds_counting :
    let config : Config := { maxIterations := 2 }
    let place : Place := ⟨1, ⟨0, 12⟩⟩
    let header : ForHeader := ⟨"i", "1", "5", none⟩
    let body : List Stmt := [.command ⟨2, ⟨13, 19⟩⟩ (.assign "i" "10")]
    let range := counting.forRange config place header
    counting.store.scopes.mode = .stack ∧ ¬ range.1.2.2.abs < tolerance ∧
      (∃ after first second,
        runBody config 1 [.forLoop place header body] counting = .done after ∧
        runBody config 1 body (range.2.set "i" (Value.ofFloat range.1.1)) = .done first ∧
        runBody config 1 body (first.set "i" (Value.ofFloat (range.1.1 + range.1.2.2))) =
          .done second ∧
        after = (second.warn place
          s!"for loop stopped after {config.maxIterations} iterations").remove "i" ∧
        after.store.get? "i" = none) ∧
      ∃ after n, ∃ between : Nat → Machine Canvas,
        runBody config 1 [.whileLoop place "i < 20" body] counting = .done after ∧
        0 < n ∧ n ≤ 2 ∧ between 0 = counting ∧
        after = (between n).whileEnd config place "i < 20" := by
  intro config place header body range
  have hrun : runBody config 1 [.forLoop place header body] counting =
      .done (runBody config 1 [.forLoop place header body] counting).machine :=
    eq_done_of_refusal? (by decide +kernel)
  have hwhile : runBody config 1 [.whileLoop place "i < 20" body] counting =
      .done (runBody config 1 [.whileLoop place "i < 20" body] counting).machine :=
    eq_done_of_refusal? (by decide +kernel)
  have hstep : ¬ range.1.2.2.abs < tolerance := by decide +kernel
  have hloops := loop_rounds_of_stack config 1 place body counting rfl
  obtain ⟨n, between, ⟨hend, hleast⟩, hfirst, hrounds, hafter, hunknown⟩ :=
    hloops.1 header range.1.1 range.1.2.1 range.1.2.2 range.2 _ rfl hstep hrun
  obtain ⟨made, states, hmade, hstates, -, hlimit, hlast⟩ := hloops.2 _ _ hwhile
  have hpositive : 0 < made := by
    have htested : (counting.test config.evalMode place "i < 20").1 = true := by decide +kernel
    refine Nat.pos_of_ne_zero fun hnone => ?_
    rw [hnone, hstates] at hlimit
    cases hlimit htested
  -- neither of the first two counters has passed the end
  have hn : n = 2 := by
    have hle : n ≤ 2 := hleast (Or.inl rfl)
    rcases hend with hn | hpassed
    · exact hn
    · have hzero : inRange (counterAt range.1.1 range.1.2.2 0) range.1.2.1 range.1.2.2 = true := by
        decide +kernel
      have hone : inRange (counterAt range.1.1 range.1.2.2 1) range.1.2.1 range.1.2.2 = true := by
        decide +kernel
      have hn0 : n ≠ 0 := fun h => Bool.false_ne_true (hpassed.symm.trans (h ▸ hzero))
      have hn1 : n ≠ 1 := fun h => Bool.false_ne_true (hpassed.symm.trans (h ▸ hone))
      omega
  subst hn
  obtain ⟨_, rfl, -, -, -, hbegun₀⟩ := hrounds 0 (by decide)
  obtain ⟨_, rfl, -, -, -, hbegun₁⟩ := hrounds 1 (by decide)
  rw [hfirst] at hbegun₀
  have htwo : inRange (counterAt range.1.1 range.1.2.2 2) range.1.2.1 range.1.2.2 = true := by
    decide +kernel
  rw [forEnd, if_pos htwo] at hafter
  exact ⟨rfl, hstep, ⟨_, between 1, between 2, hrun, hbegun₀, hbegun₁, hafter, hunknown⟩,
    _, made, states, hwhile, hpositive, hmade, hstates, hlast⟩

end Drawscript
