import Mathlib
import Reachability.Proofs.Precomputation
import Reachability.Proofs.Unbounded

/-!
# Unbounded runs as bounded runs

Without precomputation, an iteration by Jacobi rounds starts from the vector of a bounded run and
makes the same rounds, so that it goes through the vectors of bounded runs (`Arena.stage`).  It
stops after the first round that moves no value as far as the threshold, with the answer of the
bounded run of as many rounds, and fails if there is no such round among those allowed
(`Checker.unboundedUntil_eq_bounded`).  No law of arithmetic is used for this.
-/

namespace Reachability

/-- The states of a model that remain and are not in the target. -/
def Until.pending (u : Until) (numStates : Nat) : StateSet :=
  .ofList numStates ((List.range numStates).filter fun s => u.remains s && !u.target.contains s)

/-- The pending states are those that a run sweeps over if it leaves none out. -/
theorem Until.contains_pending (u : Until) (numStates s : Nat) :
  (u.pending numStates).contains s
    = ((u.resized numStates).unknown numStates (u.resized numStates).target none).contains s
  := by
  rw [Bool.eq_iff_iff, contains_unknown]
  simp [pending]

variable {V W : Type} [Arithmetic V]

/-! ### Rounds that may be the last -/

namespace Settings

variable (settings : Settings W) (sel : Selection) (vector : Nat → Array V)

/-- How far a round moves the values of the selected states, for the vectors after any number of
rounds. -/
def movement (i : Nat) : V := settings.measure.maxChange sel (vector (i - 1)) (vector i)

/-- How far the last of some rounds moves the values of the selected states, if there is one. -/
def lastMovement (rounds : Nat) : Option V :=
  if rounds = 0 then none else some (settings.movement sel vector rounds)

/-- The rounds, of those allowed, that move no value of a selected state as far as the
threshold. -/
def stops [Precision V W] : Set Nat :=
  { i | 0 < i ∧ i ≤ settings.maxIterations
    ∧ settings.movement sel vector i < Precision.narrow settings.threshold }

/-- A movement depends on which states are selected only. -/
theorem movement_congr {sel sel' : Selection} (h : sel.has = sel'.has) :
  settings.movement sel vector = settings.movement sel' vector
  := by
  funext i
  rw [movement, movement, ChangeMeasure.maxChange, ChangeMeasure.maxChange, ChangeMeasure.changes,
    ChangeMeasure.changes, h]

end Settings

/-! ### Stages of an iteration -/

namespace Arena

variable (a : Arena V) (settings : Settings W) (u : Until) (o : Objective)

/-- Where an iteration stands after `k` rounds if it goes through the vectors of bounded runs. -/
def stage (k : Nat) : Iterate V where
  values := a.runVector settings u o none k
  previous := a.runVector settings u o none (k - 1)
  rounds := k
  change := settings.lastMovement (.only (a.sweptStates settings u o none))
    (a.runVector settings u o none) k

/-- A stage has converged if its last round moves no value as far as the threshold. -/
theorem converged_stage {threshold : V} {k : Nat} :
  (a.stage settings u o k).converged threshold = true
    ↔ 0 < k ∧ settings.movement (.only (a.sweptStates settings u o none))
      (a.runVector settings u o none) k < threshold
  := by
  cases k with
  | zero => simp [stage, Settings.lastMovement, Iterate.converged]
  | succ k => simp [stage, Settings.lastMovement, Iterate.converged]

variable {settings}

section Jacobi

variable (hiteration : settings.iteration = .jacobi)

include hiteration

/-- A Jacobi round over the states of a bounded run leads from a stage to the next one. -/
theorem iterate_stage (k : Nat) :
  a.iterate settings o (a.sweptStates settings u o none) (a.stage settings u o k)
    = a.stage settings u o (k + 1)
  := by
  have hnext : a.runVector settings u o none (k + 1)
      = a.sweep settings.parallel o (a.sweptStates settings u o none)
        (a.runVector settings u o none k) := Function.iterate_succ_apply' _ _ _
  rw [iterate, hiteration]
  simp only [current_round, stage, Settings.lastMovement, Settings.movement, hnext]
  rfl

/-- After `k` rounds from the first stage, the iteration is at stage `k`. -/
theorem iterate_iterate_stage (k : Nat) :
  (a.iterate settings o (a.sweptStates settings u o none))^[k] (a.stage settings u o 0)
    = a.stage settings u o k
  := by
  induction k with
  | zero => rfl
  | succ k ih => rw [Function.iterate_succ_apply', ih, iterate_stage a u o hiteration]

/-- An iteration from the first stage ends at a stage, which no stage before it has converged, and
which has so itself unless no round was left. -/
theorem run_stage (threshold : V) (rounds : Nat) :
  ∃ j ≤ rounds, (a.stage settings u o 0).run threshold
        (a.iterate settings o (a.sweptStates settings u o none)) rounds
      = a.stage settings u o j
    ∧ (∀ i < j, (a.stage settings u o i).converged threshold = false)
    ∧ (j = rounds ∨ (a.stage settings u o j).converged threshold = true)
  := by
  have hloop := loop_eq_iterate
    (Iterate.run threshold (a.iterate settings o (a.sweptStates settings u o none)))
    (Iterate.converged threshold) (fun _ => rfl) (fun _ _ => rfl) rounds (a.stage settings u o 0)
  simpa only [iterate_iterate_stage a u o hiteration] using hloop

end Jacobi

/-! ### The last stage -/

/-- Without precomputation, only the target is known before the iteration. -/
theorem decided_of_plain (hprecomputation : settings.precomputation = false) :
  a.decided settings u o = ⟨u.target, none, a.sweptStates settings u o none⟩
  := by
  simp [decided, sweptStates, settledStates, hprecomputation]

variable [Precision V W]

variable (settings) in
/-- The rounds that may be the last of a run over its swept states. -/
def runStops : Set Nat :=
  settings.stops (.only (a.sweptStates settings u o none)) (a.runVector settings u o none)

/-- A round allowed may be the last one if its stage has converged. -/
theorem mem_runStops {i : Nat} :
  i ∈ a.runStops settings u o
    ↔ i ≤ settings.maxIterations
      ∧ (a.stage settings u o i).converged (Precision.narrow settings.threshold) = true
  := by
  rw [converged_stage]
  exact and_left_comm

/-- Without precomputation, an iteration by Jacobi rounds stops after the first round that may be
the last one, and fails if there is none. -/
theorem converge_of_plain (hprecomputation : settings.precomputation = false)
    (hiteration : settings.iteration = .jacobi) :
  ((a.runStops settings u o).Nonempty →
      ∃ solution, a.converge settings o (a.decided settings u o) = .ok solution
        ∧ IsLeast (a.runStops settings u o) solution.iterations
        ∧ solution.values = a.runVector settings u o none solution.iterations
        ∧ solution.previous = some (a.runVector settings u o none (solution.iterations - 1)))
    ∧ (a.runStops settings u o = ∅ →
      a.converge settings o (a.decided settings u o)
        = .error (.notConverged settings.maxIterations
          (settings.lastMovement (.only (a.sweptStates settings u o none))
            (a.runVector settings u o none) settings.maxIterations)))
  := by
  have hstart : (⟨u.target.indicator a.numStates, u.target.indicator a.numStates, 0, none⟩
      : Iterate V) = a.stage settings u o 0 := by
    rw [stage, runVector, startVector_none]
    rfl
  obtain ⟨j, hj, hrun, hbefore, hend⟩ := a.run_stage u o hiteration
    (Precision.narrow settings.threshold) settings.maxIterations
  -- No stage before the last one has converged, whether or not that one has.
  have hleast : ∀ i ∈ a.runStops settings u o, j ≤ i := by
    intro i hi
    by_contra hlt
    have hconverged := (a.mem_runStops u o).mp hi
    rw [hbefore i (Nat.lt_of_not_le hlt)] at hconverged
    exact Bool.false_ne_true hconverged.2
  rw [decided_of_plain a u o hprecomputation, converge]
  dsimp only
  rw [hstart, hrun, hiteration]
  cases hconverged : (a.stage settings u o j).converged (Precision.narrow settings.threshold) with
  | true =>
      have hmem : j ∈ a.runStops settings u o := (a.mem_runStops u o).mpr ⟨hj, hconverged⟩
      constructor
      · intro _
        exact ⟨_, rfl, ⟨hmem, hleast⟩, rfl, rfl⟩
      · intro hempty
        rw [hempty] at hmem
        cases hmem
  | false =>
      obtain rfl : j = settings.maxIterations := by
        apply hend.resolve_right
        rw [hconverged]
        exact Bool.false_ne_true
      constructor
      · rintro ⟨i, hi⟩
        obtain ⟨hle, hconverged'⟩ := (a.mem_runStops u o).mp hi
        rw [Nat.le_antisymm hle (hleast i hi), hconverged] at hconverged'
        cases hconverged'
      · intro _
        rfl

end Arena

namespace Checker

variable [Wide W] [Precision V W] (checker : Checker W)

/-- The rounds, of those allowed, that move no value of a state that remains and is not in the
target as far as the threshold, for the answers within any number of steps. -/
def stops (a : Arena V) (u : Until) (answer : Nat → Solution V) : Set Nat :=
  checker.settings.stops (.only (u.pending a.numStates)) fun i => (answer i).values

/-- Without precomputation, a query without a bound that is answered by Jacobi rounds has the answer
within the least number of steps that may be the number of rounds, and fails after all rounds that
are allowed if there is no such number. -/
theorem unboundedUntil_eq_bounded (hprecomputation : checker.settings.precomputation = false)
    (hiteration : checker.settings.iteration = .jacobi) {a : Arena V} {u : Until}
    (hu : u.Within a.numStates) (o : Objective) :
  ∃ answer, checker.Answers a u o answer
    ∧ ((checker.stops a u answer).Nonempty →
      ∃ solution, (checker.unboundedUntil a u o).outcome = .ok solution
        ∧ IsLeast (checker.stops a u answer) solution.iterations
        ∧ solution.values = (answer solution.iterations).values
        ∧ solution.previous = (answer solution.iterations).previous)
    ∧ (checker.stops a u answer = ∅ →
      (checker.unboundedUntil a u o).outcome
        = .error (.notConverged checker.settings.maxIterations
          (checker.settings.lastMovement (.only (u.pending a.numStates))
            (fun i => (answer i).values) checker.settings.maxIterations)))
  := by
  use fun k => (a.runRounds checker.settings (u.resized a.numStates) o k none).solution
  constructor
  · intro k
    use checker.reachWithin_eq_ok hu k o
    rw [Arena.values_eq_runVector, Arena.size_runVector]
  · have hswept : (Selection.only (u.pending a.numStates)).has
        = (Selection.only
          (a.sweptStates checker.settings (u.resized a.numStates) o none)).has := by
      -- The run has a formula with other room for its sets, but with the same states.
      rw [a.sweptStates_of_swept (by simp [hprecomputation])]
      funext s
      rw [Selection.has_only, Selection.has_only, Until.contains_pending]
    simp only [stops, Settings.stops, Settings.lastMovement, Arena.values_eq_runVector,
      Arena.previous_runRounds, Settings.movement_congr _ _ hswept,
      checker.outcome_unboundedUntil hu]
    apply a.converge_of_plain (u.resized a.numStates) o hprecomputation hiteration

/-- The hasty checker without precomputation answers the sample query as a bounded query. -/
theorem unboundedUntil_eq_bounded_sample :
  ∃ answer, (hasty.precomputing false).Answers Model.sample.arena .sample .opposed answer
    ∧ ∃ solution, ((hasty.precomputing false).unboundedUntil Model.sample.arena .sample .opposed
        : Account ℝ ℝ (Solution ℝ)).outcome = .ok solution
      ∧ IsLeast ((hasty.precomputing false).stops Model.sample.arena .sample answer)
        solution.iterations
      ∧ solution.values = (answer solution.iterations).values
      ∧ solution.previous = (answer solution.iterations).previous
  := by
  obtain ⟨solution, h⟩ := Arena.exists_converge Model.built_sample.proper_arena
    Model.stochastic_sample (hasty.precomputing false).settings rfl rfl rfl (lt_add_one 1)
  obtain ⟨answer, hanswers, hok, herror⟩ := (hasty.precomputing false).unboundedUntil_eq_bounded
    (a := Model.sample.arena) rfl rfl Until.within_sample .opposed
  refine ⟨answer, hanswers, hok ?_⟩
  apply Set.nonempty_iff_ne_empty.mpr
  intro hempty
  have hfails := herror hempty
  rw [outcome_unboundedUntil _ Until.within_sample, h] at hfails
  cases hfails

end Checker

end Reachability
