import Mathlib
import Reachability.Proofs.Bounded

/-!
# Runs as iterated sweeps

What a round leaves depends on its vector only, not on the vector before or on the choices taken
(`Arena.sweep`).  Hence a run is a sequence of vectors, each the sweep of the one before
(`Arena.runVector`): its answer is the last of them, the vector before that is the last but one,
and its results are the entries of the initial state in all of them (`Arena.numbers_runRounds`).
-/

namespace Reachability

variable {V W : Type}

/-- The numbers of an answer: its values, the vector of the round before, and the number of
rounds. -/
def Solution.numbers (solution : Solution V) : Array V × Option (Array V) × Nat :=
  (solution.values, solution.previous, solution.iterations)

variable [Arithmetic V]

/-- The numbers of a bounded run: those of its answer, and its results. -/
def BoundedRun.numbers (run : BoundedRun V) : (Array V × Option (Array V) × Nat) × List V :=
  (run.solution.numbers, run.results)

omit [Arithmetic V] in
/-- The numbers of the answer of a run are the first part of the numbers of the run. -/
theorem BoundedRun.map_solution_numbers (outcome : Except (CheckError V W) (BoundedRun V)) :
  (outcome.map solution).map Solution.numbers = (outcome.map numbers).map Prod.fst
  := by
  change Solution.numbers <$> solution <$> outcome = Prod.fst <$> numbers <$> outcome
  rw [Functor.map_map, Functor.map_map]
  rfl

namespace Arena

/-! ### Sweeps -/

section Sweep

variable (a : Arena V) (parallel : Bool) (o : Objective) (set : StateSet)

/-- The vector after a Jacobi sweep over the states of a set. -/
def sweep (v : Array V) : Array V := (a.round parallel o set ⟨v, v, #[]⟩).current

/-- A round leaves the sweep of its vector, whatever else was kept of the rounds before. -/
theorem current_round (p : Progress V) :
  (a.round parallel o set p).current = a.sweep parallel o set p.current
  := by
  cases parallel with
  | false =>
      simp only [sweep, round, Bool.false_eq_true, if_false, jacobi]
      rw [writeStates_eq, writeStates_eq]
  | true => rfl

/-- A sweep changes no length. -/
@[simp]
theorem size_sweep (v : Array V) :
  (a.sweep parallel o set v).size = v.size
  := a.size_round o parallel set _

/-- A sweep gives every state of the set its value from the vector, and leaves the other states as
they are. -/
theorem valuation_sweep {v : Array V} (hsize : v.size = a.numStates) {s : Nat}
    (hs : s < a.numStates) :
  valuation (a.sweep parallel o set v) s
    = if set.contains s = true then (a.update none o (valuation v) s).1 else valuation v s
  := a.valuation_round o parallel set _ s hs hsize

/-- Sweeps change no length. -/
theorem size_iterate_sweep (k : Nat) (v : Array V) :
  ((a.sweep parallel o set)^[k] v).size = v.size
  := by
  induction k with
  | zero => rfl
  | succ k ih => rw [Function.iterate_succ_apply', size_sweep, ih]

/-- Sweeps leave the states outside of their set as they are. -/
theorem valuation_iterate_sweep (k : Nat) {v : Array V} (hsize : v.size = a.numStates) {s : Nat}
    (hs : s < a.numStates) (hout : set.contains s = false) :
  valuation ((a.sweep parallel o set)^[k] v) s = valuation v s
  := by
  induction k with
  | zero => rfl
  | succ k ih =>
      rw [Function.iterate_succ_apply', valuation_sweep, if_neg (Bool.eq_false_iff.mp hout), ih]
      · rw [size_iterate_sweep, hsize]
      · apply hs

end Sweep

/-! ### Rounds -/

section Rounds

variable (a : Arena V) (parallel : Bool) (o : Objective) (set : StateSet) (k : Nat)
  (start : Tracked V)

/-- After rounds, the current vector is the sweep of the first one as many times. -/
theorem current_trackedRounds :
  (Nat.repeat (a.trackedRound parallel o set) k start).progress.current
    = (a.sweep parallel o set)^[k] start.progress.current
  := by
  induction k with
  | zero => rfl
  | succ k ih =>
      rw [Nat.repeat, Function.iterate_succ_apply', ← ih]
      apply current_round

/-- After a round, the vector before is the current one of one round less. -/
theorem previous_trackedRounds_succ :
  (Nat.repeat (a.trackedRound parallel o set) (k + 1) start).progress.previous
    = (a.sweep parallel o set)^[k] start.progress.current
  := a.current_trackedRounds parallel o set k start

/-- Each round adds the entry of the initial state to the trace. -/
theorem trace_trackedRounds :
  (Nat.repeat (a.trackedRound parallel o set) k start).trace.toList
    = start.trace.toList ++ (List.range k).map fun i =>
      ((a.sweep parallel o set)^[i + 1] start.progress.current)[a.mdp.initialState]?
  := by
  induction k with
  | zero => simp [Nat.repeat]
  | succ k ih =>
      have hlast := a.current_trackedRounds parallel o set (k + 1) start
      rw [Nat.repeat] at hlast ⊢
      rw [List.range_succ, List.map_append, ← List.append_assoc, ← ih, List.map_singleton, ← hlast,
        trackedRound, Array.toList_push]

end Rounds

/-! ### Runs -/

variable (a : Arena V) (settings : Settings W) (u : Until) (o : Objective)
  (init : Option (Array V))

/-- The states that a run sweeps over. -/
def sweptStates : StateSet :=
  u.unknown a.numStates u.target (if init.isNone then a.settledStates settings u o else none)

variable {settings u o init} in
/-- A run leaves no states out if it does not find the states with probability zero first, or has a
starting vector. -/
theorem sweptStates_of_swept (h : settings.precomputation = true → init ≠ none) :
  a.sweptStates settings u o init = u.unknown a.numStates u.target none
  := by
  cases init with
  | none => rw [sweptStates, settledStates, if_neg fun hon => h hon rfl, ite_self]
  | some v => rfl

/-- The vector of a run after `k` rounds. -/
def runVector (k : Nat) : Array V :=
  (a.sweep settings.parallel o (a.sweptStates settings u o init))^[k]
    (startVector a.numStates u.target (a.sweptStates settings u o init) init)

/-- The vectors of a run have a value for every state. -/
@[simp]
theorem size_runVector (k : Nat) :
  (a.runVector settings u o init k).size = a.numStates
  := by
  rw [runVector, size_iterate_sweep, size_startVector]

/-- The values of a run are its last vector. -/
theorem values_eq_runVector (k : Nat) :
  (a.runRounds settings u o k init).solution.values = a.runVector settings u o init k
  := a.current_trackedRounds _ _ _ _ _

/-- The vector of the round before is the last but one, or the first if there are no rounds. -/
theorem previous_runRounds (k : Nat) :
  (a.runRounds settings u o k init).solution.previous
    = some (a.runVector settings u o init (k - 1))
  := by
  cases k with
  | zero => rfl
  | succ k => exact congrArg some (a.previous_trackedRounds_succ _ _ _ _ _)

/-- The numbers of a run are those of its sequence of vectors. -/
theorem numbers_runRounds (k : Nat) :
  (a.runRounds settings u o k init).numbers
    = ((a.runVector settings u o init k, some (a.runVector settings u o init (k - 1)), k),
      ((List.range (k + 1)).map fun i =>
        (a.runVector settings u o init i)[a.mdp.initialState]?).filterMap id)
  := by
  have htrace := a.trace_trackedRounds settings.parallel o (a.sweptStates settings u o init) k
    ⟨⟨startVector a.numStates u.target (a.sweptStates settings u o init) init,
      startVector a.numStates u.target (a.sweptStates settings u o init) init,
      noChoices a.numStates settings.exportStrategy⟩,
      #[(startVector a.numStates u.target (a.sweptStates settings u o init)
        init)[a.mdp.initialState]?]⟩
  rw [BoundedRun.numbers, Solution.numbers, values_eq_runVector, previous_runRounds,
    BoundedRun.results]
  congr 2
  apply htrace.trans
  rw [List.range_succ_eq_map, List.map_cons, List.map_map]
  rfl

/-- The results of a run are the values of the initial state before the first and after every
round, if the model has that state. -/
theorem results_runRounds (k : Nat) :
  (a.runRounds settings u o k init).results
    = if a.mdp.initialState < a.numStates then
        (List.range (k + 1)).map fun i => valuation (a.runVector settings u o init i)
          a.mdp.initialState
      else []
  := by
  apply (congrArg Prod.snd (a.numbers_runRounds settings u o init k)).trans
  rw [List.filterMap_map]
  split
  · next h =>
      apply List.filterMap_eq_map_iff_forall_eq_some.mpr
      intro i _
      have hi : a.mdp.initialState < (a.runVector settings u o init i).size := by
        rwa [size_runVector]
      rw [Function.comp_apply, valuation, Array.getElem?_eq_getElem hi]
      rfl
  · next h =>
      apply List.filterMap_eq_nil_iff.mpr
      intro i _
      apply Array.getElem?_eq_none
      rw [size_runVector]
      omega

end Arena

end Reachability
