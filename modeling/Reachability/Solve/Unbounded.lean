import Reachability.Solve.Bounded

/-!
# Unbounded reachability

`Arena.unboundedRun` iterates, from the states that are known to have probability one, until the
largest change of a round is below the threshold.  It fails if the rounds allowed do not suffice.
With precomputation the states with probability zero and one are found first; otherwise only the
target is known.
-/

namespace Reachability

variable {V W : Type} [Arithmetic V]

/-- The states with probability one, those with probability zero if they were looked for, and
those that are to be iterated. -/
structure Decided where
  yes : StateSet
  no : Option StateSet
  maybe : StateSet

/-- What is known of each state before the iteration. -/
def Arena.decided (a : Arena V) (settings : Settings W) (u : Until) (o : Objective) : Decided :=
  let no := a.settledStates settings u o
  let yes := if settings.precomputation then a.sureStates u.remain u.target o else u.target
  ⟨yes, no, u.unknown a.numStates yes no⟩

/-- Where an iteration stands: the vector, that of the round before, the number of rounds, and
the largest change of the last one, if there was one. -/
structure Iterate (V : Type) where
  values : Array V
  previous : Array V
  rounds : Nat
  change : Option V

namespace Iterate

/-- Whether the largest change of the last round is below the threshold. -/
def converged (threshold : V) (i : Iterate V) : Bool :=
  match i.change with
  | some change => decide (change < threshold)
  | none => false

/-- Makes rounds until the iteration has converged, but no more than allowed. -/
def run (threshold : V) (step : Iterate V → Iterate V) : Nat → Iterate V → Iterate V
  | 0, i => i
  | rounds + 1, i => if i.converged threshold then i else run threshold step rounds (step i)

end Iterate

/-- One round of the iteration. -/
def Arena.iterate (a : Arena V) (settings : Settings W) (o : Objective) (maybe : StateSet)
    (i : Iterate V) : Iterate V :=
  match settings.iteration with
  | .jacobi =>
    let next := a.round settings.parallel o maybe ⟨i.values, i.previous, #[]⟩
    { values := next.current
      previous := next.previous
      rounds := i.rounds + 1
      change := some (settings.measure.maxChange (.only maybe) next.previous next.current) }
  | .gaussSeidel =>
    let (change, values) := a.gaussSeidel none o (.only maybe) settings.measure i.values
    { values := values
      previous := i.values
      rounds := i.rounds + 1
      change := some change }

/-- The choices that are best for a vector in the states of a set, and none elsewhere. -/
def Arena.greedyStrategy (a : Arena V) (o : Objective) (set : StateSet) (v : Array V) : Strategy :=
  (Array.range a.numStates).map fun s =>
    if set.contains s then (a.update none o (valuation v) s).2 else none

variable [Precision V W]

/-- The iteration for what is known of each state. -/
def Arena.converge (a : Arena V) (settings : Settings W) (o : Objective) (d : Decided) :
    Except (CheckError V W) (Solution V) :=
  let threshold : V := Precision.narrow settings.threshold
  let start : Array V := d.yes.indicator a.numStates
  let last := Iterate.run threshold (a.iterate settings o d.maybe) settings.maxIterations
    ⟨start, start, 0, none⟩
  if last.converged threshold then
    .ok
      { values := last.values
        previous := match settings.iteration with
          | .jacobi => some last.previous
          | .gaussSeidel => none
        iterations := last.rounds
        strategy := if settings.exportStrategy then some (a.greedyStrategy o d.maybe last.values)
          else none }
  else .error (.notConverged last.rounds last.change)

/-- The answer for a formula without a bound. -/
def Arena.unboundedRun (a : Arena V) (settings : Settings W) (u : Until) (o : Objective) :
    Account V W (Solution V) :=
  match u.restrict a.numStates with
  | .error e => .silent (.error e)
  | .ok u =>
    let d := a.decided settings u o
    let outcome := a.converge settings o d
    { notices :=
        [.startingUnbounded o,
          .decided d.yes.size (match d.no with
            | some set => set.size
            | none => 0) d.maybe.size]
        ++ (match outcome with
            | .ok solution => [.finishedUnbounded o solution.iterations]
            | .error _ => [])
      outcome := outcome }

end Reachability
