import Reachability.Certainty
import Reachability.Notice
import Reachability.Settings

/-!
# Bounded reachability

`Arena.boundedRun` computes, for every state, the optimal probability of reaching the target
within a number of steps while all states before remain in a set.  It makes one Jacobi sweep over
the open states for each step.  Target states have value one throughout, and the states that are
neither open nor in the target have value zero.

With precomputation the states whose probability is zero whatever the number of steps are not
among the open ones.  A run that starts from a given vector makes no use of them, since that
vector may hold anything.
-/

namespace Reachability

/-- The states of an until formula: the target is to be reached, and all states before remain in
a set, if there is one. -/
structure Until where
  remain : Option StateSet
  target : StateSet

/-- The answer of the checker: a probability for every state, the vector of the round before,
the number of rounds, and the choices taken, if they are kept. -/
structure Solution (V : Type) where
  values : Array V
  previous : Option (Array V)
  iterations : Nat
  strategy : Option Strategy

/-- The answer of a bounded run, the value of the initial state before the first and after every
round, and the sizes of the target and of the set with probability zero, if that was found. -/
structure BoundedRun (V : Type) where
  solution : Solution V
  trace : Array (Option V)
  settled : Option (Nat × Nat)

variable {V W : Type}

/-- A set whose states must all be states of the model. -/
def StateSet.restrict (set : StateSet) (numStates : Nat) : Except (CheckError V W) StateSet :=
  match set.toList.find? fun s => decide (numStates ≤ s) with
  | some s => .error (.stateOutOfRange s numStates)
  | none => .ok (.ofList numStates set.toList)

namespace Until

/-- A formula whose states must all be states of the model; the target is checked first. -/
def restrict (u : Until) (numStates : Nat) : Except (CheckError V W) Until := do
  let target ← u.target.restrict numStates
  match u.remain with
  | some set => return ⟨some (← set.restrict numStates), target⟩
  | none => return ⟨none, target⟩

/-- The states that remain and are not decided, where those with probability zero are decided,
too. -/
def unknown (u : Until) (numStates : Nat) (decided : StateSet) (no : Option StateSet) : StateSet :=
  let settled := match no with
    | some set => decided.union set numStates
    | none => .ofList numStates decided.toList
  match u.remain with
  | some set => set.difference settled numStates
  | none => settled.complement numStates

end Until

section Rounds

variable [Arithmetic V]

/-- Where a computation by rounds stands: the vector of the last round and that of the round
before, and the choices of the last round. -/
structure Progress (V : Type) where
  current : Array V
  previous : Array V
  strategy : Strategy

/-- The progress after one more Jacobi sweep over the states of a set. -/
def Arena.round (a : Arena V) (parallel : Bool) (o : Objective) (set : StateSet)
    (p : Progress V) : Progress V :=
  let out := (p.current, p.strategy)
  let (values, choices) :=
    if parallel then a.jacobiAtOnce none o (.only set) p.current out
    else a.jacobi none o (.only set) p.current out
  ⟨values, p.current, choices⟩

/-- The strategy that takes no choice anywhere; it has no places if choices are not kept. -/
def noChoices (numStates : Nat) (kept : Bool) : Strategy :=
  if kept then Array.replicate numStates none else #[]

/-- The strategy, if choices are kept. -/
def keptStrategy (strategy : Strategy) (kept : Bool) : Option Strategy :=
  if kept then some strategy else none

/-- The vector that a bounded run starts from: one on the target, the given vector on the open
states, and zero elsewhere. -/
def startVector (numStates : Nat) (target unknown : StateSet) (init : Option (Array V)) :
    Array V :=
  (Array.range numStates).map fun s =>
    if target.contains s then 1
    else if unknown.contains s then
      match init with
      | some v => valuation v s
      | none => 0
    else 0

@[simp]
theorem size_startVector (numStates : Nat) (target unknown : StateSet)
    (init : Option (Array V)) :
  (startVector numStates target unknown init).size = numStates
  := by
  simp [startVector]

/-- A bounded run under way: its progress and the values of the initial state so far. -/
structure Tracked (V : Type) where
  progress : Progress V
  trace : Array (Option V)

/-- The run after one more round. -/
def Arena.trackedRound (a : Arena V) (parallel : Bool) (o : Objective) (set : StateSet)
    (t : Tracked V) : Tracked V :=
  let next := a.round parallel o set t.progress
  ⟨next, t.trace.push next.current[a.mdp.initialState]?⟩

/-- The answer when no step is allowed: one on the target and zero elsewhere. -/
def indicatorSolution (settings : Settings W) (target : StateSet) (numStates : Nat) :
    Except (CheckError V W) (Solution V) := do
  let target ← target.restrict numStates
  return ⟨target.indicator numStates, none, 0,
    keptStrategy (noChoices numStates true) settings.exportStrategy⟩

/-- A starting vector must have a value for every state. -/
def checkInit (numStates : Nat) (init : Option (Array V)) : Except (CheckError V W) Unit :=
  match init with
  | some v =>
    if v.size = numStates then .ok ()
    else .error (.dimensionMismatch .initialVector numStates v.size)
  | none => .ok ()

/-- The states with probability zero, if they are to be found first. -/
def Arena.settledStates (a : Arena V) (settings : Settings W) (u : Until) (o : Objective) :
    Option StateSet :=
  if settings.precomputation then some (a.zeroStates u.remain u.target o) else none

/-- The run of `k` rounds for a formula within the model. -/
def Arena.runRounds (a : Arena V) (settings : Settings W) (u : Until) (o : Objective) (k : Nat)
    (init : Option (Array V)) : BoundedRun V :=
  let n := a.numStates
  let no := if init.isNone then a.settledStates settings u o else none
  let unknown := u.unknown n u.target no
  let start := startVector n u.target unknown init
  let tracked := Nat.repeat (a.trackedRound settings.parallel o unknown) k
    ⟨⟨start, start, noChoices n settings.exportStrategy⟩, #[start[a.mdp.initialState]?]⟩
  { solution :=
      { values := tracked.progress.current
        previous := some tracked.progress.previous
        iterations := k
        strategy := keptStrategy tracked.progress.strategy settings.exportStrategy }
    trace := tracked.trace
    settled := no.map fun set => (u.target.size, set.size) }

/-- The run of `k` rounds, from a starting vector if there is one. -/
def Arena.boundedRun (a : Arena V) (settings : Settings W) (u : Until) (o : Objective) (k : Nat)
    (init : Option (Array V)) : Except (CheckError V W) (BoundedRun V) := do
  let u ← u.restrict a.numStates
  checkInit a.numStates init
  return a.runRounds settings u o k init

/-- The values of the initial state, if the model has states. -/
def BoundedRun.results (run : BoundedRun V) : List V := run.trace.toList.filterMap id

/-- What a list of results holds after a run: its results, or what it held before if the run
fails. -/
def resultsAfter (outcome : Except (CheckError V W) (BoundedRun V)) (before : List V) : List V :=
  match outcome with
  | .ok run => run.results
  | .error _ => before

end Rounds

/-- The notices of the rounds of a run, from round `number` on. -/
def roundNotices (number : Nat) : List (Option V) → List (Notice V W)
  | [] => []
  | value :: values => .round number value :: roundNotices (number + 1) values

/-- The notices of a run. -/
def BoundedRun.notices (run : BoundedRun V) (o : Objective) (verbose : Bool) : List (Notice V W) :=
  [.startingBounded o]
    ++ (match run.settled with
        | some (target, no) => [.settled target no]
        | none => [])
    ++ (if verbose then roundNotices 1 run.trace.toList.tail else [])
    ++ [.finishedBounded o run.solution.iterations]

end Reachability
