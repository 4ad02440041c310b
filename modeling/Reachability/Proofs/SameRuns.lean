import Mathlib
import Reachability.Proofs.Rounds
import Reachability.Proofs.Uniformised

/-!
# Settings that run alike

Two settings run an arena alike if its runs have the same vectors under both (`Arena.RunsAlike`).
All that a checker computes by rounds is made of these vectors: the numbers of bounded runs, the
mixtures of uniformisation, and the runs of the process that is seen in short steps.  So the answers
to all bounded queries have the same numbers, or fail for the same cause
(`Arena.RunsAlike.boundedUntil`, `Ctmdp.RunsAlike.timedUntil`).
-/

namespace Reachability

variable {V W : Type} [Arithmetic V]

/-- The numbers of the answer when no step is allowed do not depend on settings. -/
theorem numbers_indicatorSolution (settings settings' : Settings W) (target : StateSet)
    (numStates : Nat) :
  (indicatorSolution settings target numStates : Except (CheckError V W) (Solution V)).map
      Solution.numbers
    = (indicatorSolution settings' target numStates).map Solution.numbers
  := by
  rw [indicatorSolution, indicatorSolution]
  cases (target.restrict numStates : Except (CheckError V W) StateSet) with
  | error e => rfl
  | ok target => rfl

namespace Arena

/-- Two settings run an arena alike if its runs have the same vectors, whatever the formula and the
starting vector. -/
def RunsAlike (a : Arena V) (o : Objective) (settings settings' : Settings W) : Prop :=
  ∀ u init k, a.runVector settings u o init k = a.runVector settings' u o init k

namespace RunsAlike

variable {a : Arena V} {o : Objective}

section Runs

variable {settings settings' : Settings W} (h : a.RunsAlike o settings settings') (u : Until)

include h

/-- The numbers of a bounded run, or its failure, are the same. -/
theorem boundedRun (k : Nat) (init : Option (Array V)) :
  (a.boundedRun settings u o k init : Except (CheckError V W) _).map BoundedRun.numbers
    = (a.boundedRun settings' u o k init).map BoundedRun.numbers
  := by
  have hnumbers : ∀ u : Until, (a.runRounds settings u o k init).numbers
      = (a.runRounds settings' u o k init).numbers := by
    intro u
    simp only [numbers_runRounds, h u init]
  simp only [Arena.boundedRun, bind, Except.bind]
  cases (u.restrict a.numStates : Except (CheckError V W) Until) with
  | error e => rfl
  | ok u =>
      cases (checkInit a.numStates init : Except (CheckError V W) Unit) with
      | error e => rfl
      | ok =>
          dsimp only [pure, Except.pure, Except.map]
          rw [hnumbers]

/-- The numbers of the answer of a bounded run, or its failure, are the same. -/
theorem solution_boundedRun (k : Nat) (init : Option (Array V)) :
  ((a.boundedRun settings u o k init : Except (CheckError V W) _).map BoundedRun.solution).map
      Solution.numbers
    = ((a.boundedRun settings' u o k init).map BoundedRun.solution).map Solution.numbers
  := by
  rw [BoundedRun.map_solution_numbers, BoundedRun.map_solution_numbers, h.boundedRun]

/-- The last vector and the sum of a mixture are the same. -/
theorem mixAfter (weights : PoissonWeights V) (k : Nat) :
  (a.mixAfter settings u o weights k).progress.current
      = (a.mixAfter settings' u o weights k).progress.current
    ∧ (a.mixAfter settings u o weights k).sum = (a.mixAfter settings' u o weights k).sum
  := by
  have hcurrent : ∀ k, (a.mixAfter settings u o weights k).progress.current
      = (a.mixAfter settings' u o weights k).progress.current := by
    intro k
    rw [current_mixAfter, current_mixAfter, values_eq_runVector, values_eq_runVector, h u none]
  use hcurrent k
  induction k with
  | zero => rfl
  | succ k ih => rw [sum_mixAfter_succ, sum_mixAfter_succ, hcurrent, ih]

end Runs

section Answers

variable {checker checker' : Checker W} (h : a.RunsAlike o checker.settings checker'.settings)
  (u : Until)

include h

/-- The numbers of the bounded run of a checker, or its failure, are the same. -/
theorem boundedReach (k : Nat) (init : Option (Array V)) :
  (checker.boundedReach a u k o init : Account V W _).outcome.map BoundedRun.numbers
    = (checker'.boundedReach a u k o init).outcome.map BoundedRun.numbers
  := by
  rw [Checker.boundedReach, Checker.boundedReach, outcome_boundedAccount, outcome_boundedAccount]
  apply h.boundedRun

/-- The numbers of an answer within a number of steps, or its failure, are the same. -/
theorem reachWithin (k : Nat) :
  (checker.reachWithin a u k o : Account V W _).outcome.map Solution.numbers
    = (checker'.reachWithin a u k o).outcome.map Solution.numbers
  := by
  rw [Checker.reachWithin, Checker.reachWithin, Account.outcome_map, Account.outcome_map,
    Checker.boundedReach, Checker.boundedReach, outcome_boundedAccount, outcome_boundedAccount]
  apply h.solution_boundedRun

/-- The numbers of an answer within a bound on steps, or its failure, are the same. -/
theorem boundedUntil (bound : StepBound) :
  (checker.boundedUntil a u bound o : Account V W _).outcome.map Solution.numbers
    = (checker'.boundedUntil a u bound o).outcome.map Solution.numbers
  := by
  rw [Checker.boundedUntil, Checker.boundedUntil]
  cases (bound.steps : Except (CheckError V W) Nat) with
  | error e => rfl
  | ok k =>
      dsimp only
      split
      · apply numbers_indicatorSolution
      · apply h.reachWithin

end Answers

end RunsAlike

end Arena

/-! ### Bounds on time -/

/-- Two settings run a model in continuous time alike if they do not differ in how time is treated,
and run alike its process and the processes that are seen in steps of any length. -/
structure Ctmdp.RunsAlike [Arithmetic W] (m : Ctmdp V) (o : Objective)
    (settings settings' : Settings W) : Prop where
  timedMethod : settings.timedMethod = settings'.timedMethod
  discretisationError : settings.discretisationError = settings'.discretisationError
  underflow : settings.underflow = settings'.underflow
  overflow : settings.overflow = settings'.overflow
  poissonAccuracy : settings.poissonAccuracy = settings'.poissonAccuracy
  process : m.mdp.arena.RunsAlike o settings settings'
  discretised : ∀ tau mdp, (m.discretise tau : Except (CheckError V W) (Mdp V)) = .ok mdp →
    mdp.arena.RunsAlike o settings settings'

namespace Ctmdp.RunsAlike

variable [Wide W] [Precision V W] {m : Ctmdp V} {o : Objective}

section Methods

variable {settings settings' : Settings W} (h : m.RunsAlike o settings settings') (u : Until)
  (t : W)

include h

/-- The numbers of an answer by discretisation, or its failure, are the same. -/
theorem discretisedReach (verbose verbose' : Bool) :
  (m.discretisedReach settings verbose u t o).outcome.map Solution.numbers
    = (m.discretisedReach settings' verbose' u t o).outcome.map Solution.numbers
  := by
  have hsteps : (m.steps settings t : Except (CheckError V W) Nat) = m.steps settings' t := by
    rw [steps, steps, stepCount, stepCount, h.discretisationError]
  rw [Ctmdp.discretisedReach, Ctmdp.discretisedReach, hsteps]
  cases (m.steps settings' t : Except (CheckError V W) Nat) with
  | error e => rfl
  | ok k =>
      dsimp only
      split
      · rw [Account.outcome_map, Account.outcome_map, Arena.outcome_boundedAccount,
          Arena.outcome_boundedAccount]
        apply h.process.solution_boundedRun
      · cases hstep : (m.discretise (Precision.narrow (t / Arithmetic.ofNat k))
            : Except (CheckError V W) (Mdp V)) with
        | error e => rfl
        | ok mdp =>
            simp only [Account.outcome_map, Account.outcome_after, Arena.outcome_boundedAccount]
            apply (h.discretised _ mdp hstep).solution_boundedRun

/-- The numbers of an answer by uniformisation, or its failure, are the same. -/
theorem uniformisedReach :
  (m.uniformisedReach settings u t o).outcome.map Solution.numbers
    = (m.uniformisedReach settings' u t o).outcome.map Solution.numbers
  := by
  have hweights : (m.poissonWeights settings t : Except (CheckError V W) (PoissonWeights V))
      = m.poissonWeights settings' t := by
    rw [poissonWeights, poissonWeights, h.underflow, h.overflow, h.poissonAccuracy]
  rw [Ctmdp.uniformisedReach, Ctmdp.uniformisedReach, hweights]
  cases (u.restrict m.mdp.numStates : Except (CheckError V W) Until) with
  | error e => rfl
  | ok u =>
      dsimp only
      split
      · apply numbers_indicatorSolution
      · cases (m.poissonWeights settings' t : Except (CheckError V W) (PoissonWeights V)) with
        | error e => rfl
        | ok weights =>
            obtain ⟨hcurrent, hsum⟩ := h.process.mixAfter u weights weights.right
            simp only [Except.map, Solution.numbers, Arena.mixRounds_eq, arena, hcurrent, hsum]

end Methods

variable {checker checker' : Checker W} (h : m.RunsAlike o checker.settings checker'.settings)
  (u : Until)

include h

/-- The numbers of an answer within a time, or its failure, are the same. -/
theorem timedReach (t : W) :
  (checker.timedReach m u t o).outcome.map Solution.numbers
    = (checker'.timedReach m u t o).outcome.map Solution.numbers
  := by
  rw [Checker.timedReach, Checker.timedReach, Ctmdp.timedReach, Ctmdp.timedReach, h.timedMethod]
  cases (m.checkLocallyUniform : Except (CheckError V W) Unit) with
  | error e => rfl
  | ok _ =>
      cases checker'.settings.timedMethod with
      | discretisation => apply h.discretisedReach
      | uniformisation => apply h.uniformisedReach

/-- The numbers of an answer within a bound on time, or its failure, are the same. -/
theorem timedUntil (bound : TimeBound W) :
  (checker.timedUntil m u bound o).outcome.map Solution.numbers
    = (checker'.timedUntil m u bound o).outcome.map Solution.numbers
  := by
  rw [Checker.timedUntil, Checker.timedUntil]
  cases (bound.validate : Except (CheckError V W) Unit) with
  | error e => rfl
  | ok _ =>
      dsimp only
      split
      · apply numbers_indicatorSolution
      · apply h.timedReach

end Ctmdp.RunsAlike

end Reachability
