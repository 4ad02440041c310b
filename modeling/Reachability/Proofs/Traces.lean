import Mathlib
import Reachability.Proofs.Schedules
import Reachability.Proofs.Starts

/-!
# The results of a bounded run

A bounded run may write the value of the initial state, before the first and after every round, into
a list of results (`Arena.performRun`).  It checks the formula and the starting vector before it
clears that list, and its rounds write into two vectors in turn.  What it leaves in the list are the
results of the run, or what was there if the run fails (`Arena.run_performRun`).

For a model that starts in one of its states, the results of `k` rounds are as many and one more,
and each is the value of the initial state in the answer of as many rounds as come before it.  The
vector of the round before is the answer of one round less (`Checker.results_of_rounds`).
-/

namespace Reachability

variable {V W : Type} [Arithmetic V]

/-! ### Runs that write their results into a list -/

/-- The step that adds a value to the results, if there is one. -/
def addResult {ε : Type} (value : Option V) : EStateM ε (List V) Unit :=
  modify fun results => results ++ value.toList

namespace Arena

section Steps

variable (a : Arena V)

/-- The steps of `k` rounds over a set, of which each writes into the vector of the round before and
adds the value of the initial state to the results. -/
def performRounds {ε : Type} (parallel : Bool) (o : Objective) (set : StateSet) :
    Nat → Progress V → EStateM ε (List V) (Progress V)
  | 0, p => return p
  | k + 1, p => do
    let next := a.swappingRound parallel o set (← performRounds parallel o set k p)
    addResult next.current[a.mdp.initialState]?
    return next

/-- The steps of a bounded run: the formula and the starting vector are checked, the results are
cleared, and then each round adds to them. -/
def performRun (settings : Settings W) (u : Until) (o : Objective) (k : Nat)
    (init : Option (Array V)) : EStateM (CheckError V W) (List V) (Solution V) := do
  let u ← MonadExcept.ofExcept (u.restrict a.numStates)
  MonadExcept.ofExcept (checkInit a.numStates init)
  let unknown := a.sweptStates settings u o init
  let start := startVector a.numStates u.target unknown init
  modify fun _ => []
  addResult start[a.mdp.initialState]?
  let p ← a.performRounds settings.parallel o unknown k
    ⟨start, start, noChoices a.numStates settings.exportStrategy⟩
  return ⟨p.current, some p.previous, k, keptStrategy p.strategy settings.exportStrategy⟩

variable {a} {o : Objective} {init : Option (Array V)}

/-- Rounds in steps leave the progress of a run under way and the values that it has tracked. -/
theorem run_performRounds {ε : Type} (parallel : Bool) (set : StateSet) {start : Array V}
    (hsize : start.size = a.numStates) (strategy : Strategy) (trace : Array (Option V)) (k : Nat) :
  let tracked := Nat.repeat (a.trackedRound parallel o set) k ⟨⟨start, start, strategy⟩, trace⟩
  (a.performRounds parallel o set k ⟨start, start, strategy⟩
      : EStateM ε (List V) (Progress V)).run (trace.toList.filterMap id)
    = .ok tracked.progress (tracked.trace.toList.filterMap id)
  := by
  have hagree : ∀ k, a.AgreeOutside set
      (Nat.repeat (a.trackedRound parallel o set) k
        ⟨⟨start, start, strategy⟩, trace⟩).progress := by
    intro k
    induction k with
    | zero => exact ⟨hsize, hsize, fun _ _ _ => rfl⟩
    | succ k ih => apply ih.round
  induction k with
  | zero => rfl
  | succ k ih =>
      dsimp only at ih ⊢
      rw [performRounds, EStateM.run_bind, ih]
      dsimp only
      rw [(hagree k).swappingRound_eq, EStateM.run_bind, addResult, EStateM.run_modify]
      dsimp only
      rw [EStateM.run_pure, Nat.repeat, trackedRound]
      dsimp only
      rw [Array.toList_push, List.filterMap_append]
      cases (a.round parallel o set (Nat.repeat (a.trackedRound parallel o set) k
        ⟨⟨start, start, strategy⟩, trace⟩).progress).current[a.mdp.initialState]? with
      | none => rfl
      | some x => rfl

/-- A bounded run in steps has the answer of the run and leaves its results, or it fails for the
same cause and leaves the results as they were. -/
theorem run_performRun (settings : Settings W) (u : Until) (k : Nat) (before : List V) :
  (a.performRun settings u o k init : EStateM (CheckError V W) (List V) (Solution V)).run before
    = match (a.boundedRun settings u o k init : Except (CheckError V W) (BoundedRun V)) with
      | .ok run => .ok run.solution run.results
      | .error e => .error e before
  := by
  rw [performRun, boundedRun]
  cases (u.restrict a.numStates : Except (CheckError V W) Until) with
  | error e => rfl
  | ok u =>
      cases (checkInit a.numStates init : Except (CheckError V W) Unit) with
      | error e => rfl
      | ok _ =>
          have hrounds := run_performRounds (ε := CheckError V W) (o := o) settings.parallel
            (a.sweptStates settings u o init)
            (size_startVector a.numStates u.target (a.sweptStates settings u o init) init)
            (noChoices a.numStates settings.exportStrategy)
            #[(startVector a.numStates u.target (a.sweptStates settings u o init)
              init)[a.mdp.initialState]?] k
          have hfirst : ∀ value : Option V, [] ++ value.toList = [value].filterMap id := by
            intro value
            cases value with
            | none => rfl
            | some x => rfl
          dsimp only at hrounds
          simp only [MonadExcept.ofExcept, EStateM.run_bind, EStateM.run_pure, EStateM.run_modify,
            addResult, hfirst, hrounds]
          rfl

end Steps

omit [Arithmetic V] in
/-- A starting vector is accepted if it has a value for every state. -/
theorem checkInit_eq_ok_iff {numStates : Nat} {init : Option (Array V)} :
  (checkInit numStates init : Except (CheckError V W) Unit) = .ok ()
    ↔ ∀ v ∈ init, v.size = numStates
  := by
  constructor
  · rintro h v rfl
    by_contra hsize
    rw [checkInit, if_neg hsize] at h
    cases h
  · apply checkInit_eq_ok

variable {a : Arena V} {settings : Settings W} {u : Until} {o : Objective} {init : Option (Array V)}

/-- A bounded run has an answer if the formula is within the model and the starting vector has a
value for every state. -/
theorem exists_boundedRun_iff {k : Nat} :
  (∃ run, (a.boundedRun settings u o k init : Except (CheckError V W) (BoundedRun V)) = .ok run)
    ↔ u.Within a.numStates ∧ ∀ v ∈ init, v.size = a.numStates
  := by
  constructor
  · rintro ⟨run, h⟩
    obtain ⟨u', hu, h⟩ := Except.bind_eq_ok_iff.mp h
    obtain ⟨_, hinit, -⟩ := Except.bind_eq_ok_iff.mp h
    exact ⟨(Until.restrict_eq_ok_iff.mp hu).1, checkInit_eq_ok_iff.mp hinit⟩
  · rintro ⟨hu, hinit⟩
    exact ⟨_, a.boundedRun_eq_ok settings hu k init hinit⟩

end Arena

/-! ### Results of a model that starts in one of its states -/

namespace Checker

/-- The results of `k` rounds on a model that starts in one of its states are `k + 1` values, each
that of the initial state in the answer of as many rounds as come before it, and the vector of the
round before is the answer of one round less.  The rounds are made if the formula is within the
model and the starting vector has a value for every state.  If they are not, then the results are as
they were.  All this holds of a run that writes into a list, whatever that holds before. -/
theorem results_of_rounds (checker : Checker W) {m : Model V} (hm : m.Made) (hn : 0 < m.numStates)
    (u : Until) (o : Objective) (init : Option (Array V)) (before : List V) :
  let outcome (k : Nat) : Except (CheckError V W) (BoundedRun V) :=
    (checker.boundedReach m.arena u k o init).outcome
  let inPlace (k : Nat) : EStateM.Result (CheckError V W) (List V) (Solution V) :=
    (m.arena.performRun checker.settings u o k init).run before
  (∀ k, (∃ run, outcome k = .ok run)
      ↔ u.Within m.numStates ∧ ∀ v ∈ init, v.size = m.numStates)
    ∧ (∀ k run, outcome k = .ok run →
      inPlace k = .ok run.solution (resultsAfter (outcome k) before)
        ∧ (resultsAfter (outcome k) before).length = k + 1
        ∧ (∀ i ≤ k, ∃ earlier, outcome i = .ok earlier
          ∧ (resultsAfter (outcome k) before)[i]?
            = earlier.solution.values[m.process.initialState]?)
        ∧ (0 < k → ∃ earlier, outcome (k - 1) = .ok earlier
          ∧ run.solution.previous = some earlier.solution.values))
    ∧ ∀ k e, outcome k = .error e →
      inPlace k = .error e before ∧ resultsAfter (outcome k) before = before
  := by
  intro outcome inPlace
  have houtcome : ∀ k, outcome k = m.arena.boundedRun checker.settings u o k init :=
    fun k => m.arena.outcome_boundedAccount checker.settings _ u o k init
  have hinPlace : ∀ k, inPlace k = match outcome k with
      | .ok run => .ok run.solution run.results
      | .error e => .error e before := by
    intro k
    rw [houtcome]
    apply Arena.run_performRun
  have hsome : ∀ k, (∃ run, outcome k = .ok run)
      ↔ u.Within m.numStates ∧ ∀ v ∈ init, v.size = m.numStates := by
    intro k
    rw [houtcome, ← m.numStates_arena]
    apply Arena.exists_boundedRun_iff
  refine ⟨hsome, ?_, ?_⟩
  · intro k run hrun
    obtain ⟨hu, hinit⟩ := (hsome k).mp ⟨run, hrun⟩
    have hstart := hm.initialState_lt hn
    rw [← m.numStates_arena] at hu hinit hstart
    rw [← m.mdp_arena] at hstart ⊢
    have hruns : ∀ i, outcome i = .ok (m.arena.runRounds checker.settings
        (u.resized m.arena.numStates) o i init) := by
      intro i
      rw [houtcome, m.arena.boundedRun_eq_ok checker.settings hu i init hinit]
    obtain rfl : _ = run := Except.ok.inj ((hruns k).symm.trans hrun)
    have hresults :=
      m.arena.results_runRounds checker.settings (u.resized m.arena.numStates) o init k
    rw [if_pos hstart] at hresults
    have hafter : resultsAfter (outcome k) before = (m.arena.runRounds checker.settings
        (u.resized m.arena.numStates) o k init).results := by
      rw [hrun, resultsAfter]
    rw [hinPlace, hafter, hrun]
    refine ⟨rfl, ?_⟩
    rw [hresults]
    refine ⟨?_, ?_, ?_⟩
    · rw [List.length_map, List.length_range]
    · intro i hi
      refine ⟨_, hruns i, ?_⟩
      rw [List.getElem?_map, List.getElem?_range (Nat.lt_succ_of_le hi), Option.map_some,
        Arena.values_eq_runVector, getElem?_eq_valuation]
      rw [Arena.size_runVector]
      apply hstart
    · intro _
      refine ⟨_, hruns (k - 1), ?_⟩
      rw [Arena.previous_runRounds, Arena.values_eq_runVector]
  · intro k e herror
    rw [hinPlace, herror]
    exact ⟨rfl, rfl⟩

/-- A game of three states that calls make has three results after two rounds, whatever the list of
results holds before. -/
theorem results_of_rounds_ordered :
  let u : Until := ⟨none, .ofList 3 [2]⟩
  ∃ m : Model ℝ, m.MadeBy (.ofGame (Game.Draft.journal ℝ Game.Draft.ordered).accepted)
    ∧ ∃ first last : BoundedRun ℝ,
      (sample.boundedReach m.arena u 1 .max none : Account ℝ ℝ (BoundedRun ℝ)).outcome = .ok first
        ∧ (sample.boundedReach m.arena u 2 .max none : Account ℝ ℝ (BoundedRun ℝ)).outcome
          = .ok last
        ∧ (m.arena.performRun sample.settings u .max 2 none).run [5] = .ok last.solution
          (resultsAfter (sample.boundedReach m.arena u 2 .max none).outcome [5])
        ∧ (resultsAfter (sample.boundedReach m.arena u 2 .max none).outcome [5]).length = 3
        ∧ last.solution.previous = some first.solution.values
  := by
  intro u
  obtain ⟨m, hm⟩ := Game.Draft.exists_madeBy_ordered
  have hnum : m.numStates = 3 := m.numStates_arena.symm.trans hm.representsLayout.numStates
  have hu : u.Within m.numStates := by
    rw [hnum]
    exact Until.within_of_target (StateSet.within_ofList (by decide))
  obtain ⟨hsome, hok, -⟩ := sample.results_of_rounds (.calls hm) (by omega) u .max none [5]
  obtain ⟨last, hlast⟩ := (hsome 2).mpr ⟨hu, by rintro v ⟨⟩⟩
  obtain ⟨hinPlace, hlength, -, hprevious⟩ := hok 2 last hlast
  obtain ⟨first, hfirst, hprevious⟩ := hprevious Nat.two_pos
  exact ⟨m, hm, first, last, hfirst, hlast, hinPlace, hlength, hprevious⟩

end Checker

end Reachability
