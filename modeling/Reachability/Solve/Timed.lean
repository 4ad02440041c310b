import Reachability.Poisson
import Reachability.Solve.Bounded

/-!
# Time-bounded reachability

For a locally uniform model in continuous time there are two methods.

Discretisation splits the time `t` into `k = ⌈q² t² / 2 ε⌉` steps, for the largest exit rate `q`
and the allowed error `ε`, and makes a bounded run of `k` rounds on the process that is seen in
such steps.

Uniformisation makes the rounds on the jump process and adds up their vectors, each weighted with
the Poisson weight of its number of jumps for the rate `q t`.
-/

namespace Reachability

variable {V W : Type} [Arithmetic V]

/-- The bounded run of a process, with its notices. -/
def Arena.boundedAccount (a : Arena V) (settings : Settings W) (verbose : Bool) (u : Until)
    (o : Objective) (k : Nat) (init : Option (Array V)) : Account V W (BoundedRun V) :=
  match a.boundedRun settings u o k init with
  | .ok run => ⟨run.notices o verbose, .ok run⟩
  | .error e => .silent (.error e)

/-- A vector to which another one is added, each entry times the weight. -/
def addWeighted (sum v : Array V) (weight : V) : Array V :=
  sum.zipWith (fun total value => total + weight * value) v

/-- Where a weighted sum of rounds stands: the progress of the rounds, and the sum so far. -/
structure Mixture (V : Type) where
  progress : Progress V
  sum : Array V

/-- The sum after one more round, which is the given number of jumps. -/
def Arena.mixRound (a : Arena V) (parallel : Bool) (o : Objective) (set : StateSet)
    (weights : PoissonWeights V) (m : Mixture V) (jumps : Nat) : Mixture V :=
  let next := a.round parallel o set m.progress
  ⟨next,
    if weights.left ≤ jumps then addWeighted m.sum next.current (weights.weight jumps) else m.sum⟩

/-- The sum over all rounds up to the right truncation point, for a formula within the model. -/
def Arena.mixRounds (a : Arena V) (settings : Settings W) (u : Until) (o : Objective)
    (weights : PoissonWeights V) : Mixture V :=
  let n := a.numStates
  let unknown := u.unknown n u.target (a.settledStates settings u o)
  let start : Array V := u.target.indicator n
  let zero : Array V := Array.replicate n 0
  let first := if weights.left = 0 then addWeighted zero start (weights.weight 0) else zero
  ((List.range weights.right).map (· + 1)).foldl
    (a.mixRound settings.parallel o unknown weights)
    ⟨⟨start, start, noChoices n settings.exportStrategy⟩, first⟩

variable [Wide W] [Precision V W]

namespace Ctmdp

/-- The number of steps into which a time is split, before it is rounded down to an index. -/
def stepCount (m : Ctmdp V) (settings : Settings W) (t : W) : W :=
  let q : W := Precision.widen m.maxExitRate
  Wide.ceil (q * q * t * t / (Arithmetic.ofNat 2 * settings.discretisationError))

/-- The number of steps into which a time is split; it must fit a machine word. -/
def steps (m : Ctmdp V) (settings : Settings W) (t : W) : Except (CheckError V W) Nat :=
  let count := m.stepCount settings t
  if Arithmetic.isFinite count = false ∨ count < 0 ∨ Arithmetic.ofNat (indexLimit + 1) < count then
    .error (.invalidBound (.time ⟨t, false⟩))
  else .ok (Wide.toIndex count)

/-- The answer by discretisation. -/
def discretisedReach (m : Ctmdp V) (settings : Settings W) (verbose : Bool) (u : Until) (t : W)
    (o : Objective) : Account V W (Solution V) :=
  match m.steps settings t with
  | .error e => .silent (.error e)
  | .ok k =>
    if k = 0 then (m.mdp.arena.boundedAccount settings verbose u o 0 none).map BoundedRun.solution
    else
      let tau := t / Arithmetic.ofNat k
      let account : Account V W (BoundedRun V) :=
        match m.discretise (Precision.narrow tau) with
        | .error e => .silent (.error e)
        | .ok mdp => mdp.arena.boundedAccount settings verbose u o k none
      (account.after [.discretising (Precision.widen m.maxExitRate) k tau]).map BoundedRun.solution

/-- The Poisson weights, which sum to one, for the expected number of jumps within a time. -/
def poissonWeights (m : Ctmdp V) (settings : Settings W) (t : W) :
    Except (CheckError V W) (PoissonWeights V) :=
  (PoissonWeights.compute (m.maxExitRate * Precision.narrow t)
    (Precision.narrow settings.underflow) (Precision.narrow settings.overflow)
    (Precision.narrow settings.poissonAccuracy)).map PoissonWeights.normalize

/-- The answer by uniformisation. -/
def uniformisedReach (m : Ctmdp V) (settings : Settings W) (u : Until) (t : W) (o : Objective) :
    Account V W (Solution V) :=
  let n := m.mdp.numStates
  match u.restrict n with
  | .error e => .silent (.error e)
  | .ok u =>
    if m.maxExitRate == 0 then .silent (indicatorSolution settings u.target n)
    else
      match m.poissonWeights settings t with
      | .error e => .silent (.error e)
      | .ok weights =>
        let mixture := m.arena.mixRounds settings u o weights
        { notices :=
            [.weighted (m.maxExitRate * Precision.narrow t) weights.left weights.right,
              .finishedUniformised o weights.right]
          outcome := .ok
            { values := mixture.sum
              previous := some mixture.progress.current
              iterations := weights.right
              strategy := keptStrategy mixture.progress.strategy settings.exportStrategy } }

/-- The answer within a time, by the method that is set.  The model must be locally uniform. -/
def timedReach (m : Ctmdp V) (settings : Settings W) (verbose : Bool) (u : Until) (t : W)
    (o : Objective) : Account V W (Solution V) :=
  match m.checkLocallyUniform with
  | .error e => .silent (.error e)
  | .ok () =>
    match settings.timedMethod with
    | .discretisation => m.discretisedReach settings verbose u t o
    | .uniformisation => m.uniformisedReach settings u t o

end Ctmdp

end Reachability
