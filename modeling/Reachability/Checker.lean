import Reachability.Labelling
import Reachability.Solve.Timed
import Reachability.Solve.Unbounded

/-!
# The checker

A `Checker` answers queries under its settings and gives notices to its sink.  Bounds are
validated before anything else; a bound that allows no step or no time is answered by the target
alone.  `Checker.check` looks the labels of a query up and answers it for a model of the kind
that goes with its bound.
-/

namespace Reachability

/-- A checker with its settings and its sink. -/
structure Checker (W : Type) where
  settings : Settings W
  sink : Sink

namespace Checker

variable {V W : Type} [Arithmetic V] [Wide W] [Precision V W] (checker : Checker W)

/-- The bounded run of `k` rounds, from a starting vector if there is one. -/
def boundedReach (a : Arena V) (u : Until) (k : Nat) (o : Objective) (init : Option (Array V)) :
    Account V W (BoundedRun V) :=
  a.boundedAccount checker.settings checker.sink.verbose u o k init

/-- The answer within `k` steps. -/
def reachWithin (a : Arena V) (u : Until) (k : Nat) (o : Objective) : Account V W (Solution V) :=
  (checker.boundedReach a u k o none).map BoundedRun.solution

/-- The answer within a bound on steps. -/
def boundedUntil (a : Arena V) (u : Until) (bound : StepBound) (o : Objective) :
    Account V W (Solution V) :=
  match bound.steps with
  | .error e => .silent (.error e)
  | .ok steps =>
    if steps = 0 then .silent (indicatorSolution checker.settings u.target a.numStates)
    else checker.reachWithin a u steps o

/-- The answer without a bound. -/
def unboundedUntil (a : Arena V) (u : Until) (o : Objective) : Account V W (Solution V) :=
  a.unboundedRun checker.settings u o

/-- The answer within a time. -/
def timedReach (m : Ctmdp V) (u : Until) (t : W) (o : Objective) : Account V W (Solution V) :=
  m.timedReach checker.settings checker.sink.verbose u t o

/-- The answer within a bound on time. -/
def timedUntil (m : Ctmdp V) (u : Until) (bound : TimeBound W) (o : Objective) :
    Account V W (Solution V) :=
  match bound.validate with
  | .error e => .silent (.error e)
  | .ok () =>
    if bound.bound == 0 then
      .silent (indicatorSolution checker.settings u.target m.mdp.numStates)
    else checker.timedReach m u bound.bound o

/-- The states of the labels of a query. -/
def resolve (labels : Labelling) (query : BoundedUntil W) : Except (CheckError V W) Until := do
  let target ← labels.statesFor query.target
  match query.remain with
  | some label => return ⟨some (← labels.statesFor label), target⟩
  | none => return ⟨none, target⟩

/-- The answer to a query for the states of its labels. -/
def answer (m : Model V) (u : Until) (query : BoundedUntil W) : Account V W (Solution V) :=
  match m, query.interval with
  | .mdp m, .steps bound => checker.boundedUntil m.arena u bound query.objective
  | .game g, .steps bound => checker.boundedUntil g.arena u bound query.objective
  | .ctmdp m, .time bound => checker.timedUntil m u bound query.objective
  | m, .steps _ => .silent (.error (.unsupportedBound .step m.kind))
  | m, .time _ => .silent (.error (.unsupportedBound .time m.kind))

/-- The answer to a query on a model whose states are labelled. -/
def check (m : Model V) (labels : Labelling) (query : BoundedUntil W) :
    Account V W (Solution V) :=
  if labels.numStates ≠ m.numStates then
    .silent (.error (.dimensionMismatch .labelling m.numStates labels.numStates))
  else
    match resolve labels query with
    | .error e => .silent (.error e)
    | .ok u => (checker.answer m u query).after [.checking query]

end Checker

end Reachability
