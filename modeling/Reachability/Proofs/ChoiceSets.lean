import Mathlib
import Reachability.Proofs.Assembly
import Reachability.Proofs.Precomputation
import Reachability.Proofs.Rounds
import Reachability.Proofs.Searches
import Reachability.Proofs.Stochastic
import Reachability.Proofs.Unbounded

/-!
# Sets of choices

A distribution may be seen as a mapping that gives some states a positive mass
(`Distribution.positiveMass`), and the choices of a state as the set of these mappings
(`Mdp.distributions`).  Neither says in which order choices were added, how often, or how their
masses were listed.

The row of a choice is determined by its mapping, so two processes with the same mappings at each
state have the same rows there, in another order and number (`Arena.SameRows`).  For exact values
the optimum of a state depends on the set of its rows only, and so do the searches, the sweeps, and
all numbers that a checker computes (`Arena.SameRows.sameNumbers`).  The choice that is taken does
depend on the order.
-/

namespace Reachability

variable {V W : Type} [Arithmetic V]

/-! ### Distributions as mappings -/

namespace Distribution

omit [Arithmetic V] in
/-- Among entries in ascending order each of them is found under its state, and no other one. -/
theorem mem_iff_lookup_eq_some {row : List (Nat × V)}
    (hrow : row.Pairwise fun e e' => e.1 < e'.1) {e : Nat × V} :
  e ∈ row ↔ row.lookup e.1 = some e.2
  := Table.mem_iff_lookup_eq_some (nodup_of_ascending hrow)

omit [Arithmetic V] in
/-- Entries in ascending order are determined by what is found under the states. -/
theorem eq_of_lookup_eq {row row' : List (Nat × V)}
    (hrow : row.Pairwise fun e e' => e.1 < e'.1) (hrow' : row'.Pairwise fun e e' => e.1 < e'.1)
    (h : ∀ t, row.lookup t = row'.lookup t) :
  row = row'
  := by
  apply eq_of_mem_iff hrow hrow'
  intro e
  rw [mem_iff_lookup_eq_some hrow, mem_iff_lookup_eq_some hrow', h]

/-- The mass of a state, if it is positive. -/
def positiveMass (d : Distribution V) (t : Nat) : Option V :=
  (d.masses.get? t).filter fun p => decide (0 < p)

/-- In a row that lists masses, the positive ones are found. -/
theorem Lists.lookup_eq {row : List (Nat × V)} {mass : Nat → Option V} (h : Lists row mass)
    (t : Nat) :
  row.lookup t = (mass t).filter fun p => decide (0 < p)
  := by
  apply Option.ext
  intro p
  rw [Option.filter_eq_some_iff, decide_eq_true_eq, ← h.mem_iff, mem_iff_lookup_eq_some h.pairwise]

/-- The total mass that pairs list for a state. -/
noncomputable def listedMass (pairs : List (Nat × ℝ)) (t : Nat) : ℝ :=
  ((pairs.filter fun pair => pair.1 = t).map Prod.snd).sum

/-- The mass of a state in a distribution that is given by pairs is the total mass that they list
for it. -/
theorem get_ofPairs (pairs : List (Nat × ℝ)) (t : Nat) :
  (ofPairs pairs).get t = listedMass pairs t
  := by
  induction pairs using List.reverseRecOn with
  | nil => rfl
  | append_singleton pairs pair ih =>
      rw [ofPairs_append_singleton, get_add, listedMass, List.filter_append, List.map_append,
        List.sum_append, ← listedMass, ← ih]
      split
      · next h =>
          subst h
          simp
      · next h => simp [Ne.symm h]

/-- In a distribution that is given by pairs, a state has the total mass that they list for it as
its positive mass, if that is positive. -/
theorem positiveMass_ofPairs (pairs : List (Nat × ℝ)) (t : Nat) :
  (ofPairs pairs).positiveMass t
    = if 0 < listedMass pairs t then some (listedMass pairs t) else none
  := by
  rw [← get_ofPairs, positiveMass, get]
  cases (ofPairs pairs).masses.get? t with
  | none => simp
  | some p => simp [Option.filter_some]

end Distribution

/-- The choices of a state, each as the mapping of successors to their positive masses. -/
def Mdp.distributions (m : Mdp V) (s : Nat) : Set (Nat → Option V) :=
  {mass | ∃ c < m.numChoices s, mass = fun t => (m.successors s c).lookup t}

/-- Two arenas have the same choices if they have as many states with the same owners, and at each
of them the same set of distributions. -/
structure Arena.SameChoices (a a' : Arena V) : Prop where
  numStates : a.numStates = a'.numStates
  owner : ∀ s < a.numStates, a.owner s = a'.owner s
  distributions : ∀ s < a.numStates, a.mdp.distributions s = a'.mdp.distributions s

omit [Arithmetic V] in
/-- The relation is symmetric. -/
theorem Arena.SameChoices.symm {a a' : Arena V} (h : a.SameChoices a') :
  a'.SameChoices a
  where
  numStates := h.numStates.symm
  owner s hs := (h.owner s (h.numStates ▸ hs)).symm
  distributions s hs := (h.distributions s (h.numStates ▸ hs)).symm

/-! ### Choices with the same rows -/

/-- Two processes have the same rows at a state if each row of one of them is a row of the other
one. -/
def Mdp.SameRows (m m' : Mdp V) (s : Nat) : Prop :=
  ∀ row, (∃ c < m.numChoices s, m.successors s c = row)
    ↔ ∃ c < m'.numChoices s, m'.successors s c = row

namespace Mdp.SameRows

variable {m m' : Mdp V} {s : Nat} {d : Direction}

omit [Arithmetic V] in
/-- The relation is symmetric. -/
theorem symm (h : m.SameRows m' s) :
  m'.SameRows m s
  := fun row => (h row).symm

omit [Arithmetic V] in
/-- A condition on rows is satisfied by the choices of the second process if it is by those of the
first one. -/
theorem quantify (h : m.SameRows m' s) {p p' : Nat → Prop}
    (hp : ∀ c c', m.successors s c = m'.successors s c' → p c → p' c')
    (hquantify : d.Quantify (m.numChoices s) p) :
  d.Quantify (m'.numChoices s) p'
  := by
  cases d with
  | min =>
      intro c' hc'
      obtain ⟨c, hc, hrow⟩ := (h _).mpr ⟨c', hc', rfl⟩
      apply hp c c' hrow (hquantify c hc)
  | max =>
      obtain ⟨c, hc, hpc⟩ := hquantify
      obtain ⟨c', hc', hrow⟩ := (h _).mp ⟨c, hc, rfl⟩
      use c', hc'
      apply hp c c' hrow.symm hpc

omit [Arithmetic V] in
/-- A condition on rows is quantified over the choices of both processes in the same way. -/
theorem quantify_iff (h : m.SameRows m' s) {p p' : Nat → Prop}
    (hp : ∀ c c', m.successors s c = m'.successors s c' → (p c ↔ p' c')) :
  d.Quantify (m.numChoices s) p ↔ d.Quantify (m'.numChoices s) p'
  := by
  constructor
  · apply h.quantify
    intro c c' hrow
    apply (hp c c' hrow).mp
  · apply h.symm.quantify
    intro c' c hrow
    apply (hp c c' hrow.symm).mpr

omit [Arithmetic V] in
/-- Either both processes have choices or none has. -/
theorem choices (h : m.SameRows m' s) :
  0 < m.numChoices s ↔ 0 < m'.numChoices s
  := by
  have hexists : ∀ n, 0 < n ↔ Direction.max.Quantify n fun _ => True := by
    intro n
    constructor
    · intro hn
      exact ⟨0, hn, trivial⟩
    · rintro ⟨c, hc, -⟩
      apply Nat.zero_lt_of_lt hc
  rw [hexists, hexists]
  apply h.quantify_iff fun _ _ _ => Iff.rfl

/-- Exact values of rows have the same optimum in both processes. -/
theorem optimum_eq {m m' : Mdp ℝ} (h : m.SameRows m' s) {f f' : Nat → ℝ}
    (hf : ∀ c c', m.successors s c = m'.successors s c' → f c = f' c') :
  d.optimum (m.numChoices s) f = d.optimum (m'.numChoices s) f'
  := by
  obtain hn | hn := Nat.eq_zero_or_pos (m.numChoices s)
  · have hn' : m'.numChoices s = 0 := by
      apply Nat.eq_zero_of_not_pos
      rw [← h.choices, hn]
      apply Nat.lt_irrefl
    rw [hn, hn', Direction.optimum_zero, Direction.optimum_zero]
  · apply eq_of_forall_le_iff
    intro x
    rw [Direction.le_optimum_iff hn, Direction.le_optimum_iff (h.choices.mp hn)]
    apply h.quantify_iff
    intro c c' hrow
    rw [hf c c' hrow]

end Mdp.SameRows

/-- Proper processes with the same distributions at a state have the same rows there. -/
theorem Mdp.Proper.sameRows {m m' : Mdp V} (hm : m.Proper) (hm' : m'.Proper) {s : Nat}
    (h : m.distributions s = m'.distributions s) :
  m.SameRows m' s
  := by
  have hsubset : ∀ m m' : Mdp V, m.Proper → m'.Proper →
      m.distributions s ⊆ m'.distributions s → ∀ row, (∃ c < m.numChoices s, m.successors s c = row)
      → ∃ c < m'.numChoices s, m'.successors s c = row := by
    rintro m m' hm hm' hsubset row ⟨c, hc, rfl⟩
    obtain ⟨c', hc', hmass⟩ := hsubset ⟨c, hc, rfl⟩
    use c', hc'
    apply Distribution.eq_of_lookup_eq (hm'.pairwise s c') (hm.pairwise s c)
    intro t
    apply (congrFun hmass t).symm
  intro row
  constructor
  · apply hsubset m m' hm hm' h.subset
  · apply hsubset m' m hm' hm h.superset

/-- Two arenas have the same rows if they have as many states with the same owners, and at each of
them the same rows. -/
structure Arena.SameRows (a a' : Arena V) : Prop where
  numStates : a.numStates = a'.numStates
  owner : ∀ s < a.numStates, a.owner s = a'.owner s
  rows : ∀ s < a.numStates, a.mdp.SameRows a'.mdp s

/-- Proper arenas with the same choices have the same rows. -/
theorem Arena.SameChoices.sameRows {a a' : Arena V} (ha : a.mdp.Proper) (ha' : a'.mdp.Proper)
    (h : a.SameChoices a') :
  a.SameRows a'
  := ⟨h.numStates, h.owner, fun s hs => ha.sameRows ha' (h.distributions s hs)⟩

namespace Arena.SameRows

/-! ### Searches and sweeps -/

section Step

variable {a a' : Arena V} (h : a.SameRows a') (o : Objective)

include h

omit [Arithmetic V] in
/-- The owner of each state has the same direction. -/
theorem direction {s : Nat} (hs : s < a.numStates) :
  a.direction o s = a'.direction o s
  := by
  rw [Arena.direction, Arena.direction, h.owner s hs]

omit [Arithmetic V] in
/-- Arenas with the same rows are searched alike. -/
theorem searchedAlike :
  a.SearchedAlike o a' o
  where
  numStates := h.numStates
  choices s hs := (h.rows s hs).choices
  quantified condition s hs := by
    rw [Bool.eq_iff_iff, quantified_iff, quantified_iff, ← h.direction o hs]
    apply (h.rows s hs).quantify_iff
    intro c c' hrow
    rw [hrow]

end Step

variable {a a' : Arena ℝ} (h : a.SameRows a') (o : Objective)

include h

/-- A state is updated to the same value. -/
theorem update_fst (v : Nat → ℝ) {s : Nat} (hs : s < a.numStates) :
  (a.update none o v s).1 = (a'.update none o v s).1
  := by
  rw [Arena.update_fst, Arena.update_fst, ← h.direction o hs]
  apply (h.rows s hs).optimum_eq
  intro c c' hrow
  rw [hrow]

/-- A state is updated to the same value if the loops of choices are solved for. -/
theorem loopFreeOptimum (v : Nat → ℝ) {s : Nat} (hs : s < a.numStates) :
  a.loopFreeOptimum none v (a.direction o s) s = a'.loopFreeOptimum none v (a'.direction o s) s
  := by
  rw [← h.direction o hs]
  apply (h.rows s hs).optimum_eq
  intro c c' hrow
  rw [loopFreeValue, loopFreeValue, escapeValue, escapeValue, escapeMass, escapeMass, hrow]
  rfl

/-- A sweep over states of the model leaves the same values. -/
theorem sweep {set : StateSet} (hset : ∀ s, set.contains s = true → s < a.numStates)
    (parallel : Bool) :
  a.sweep parallel o set = a'.sweep parallel o set
  := by
  funext v
  cases parallel with
  | false =>
      simp only [Arena.sweep, round, Bool.false_eq_true, if_false, jacobi]
      rw [writeStates_eq, writeStates_eq, ← h.numStates]
      apply List.foldl_ext
      intro values s hs
      rw [h.update_fst o _ (List.mem_range.mp (List.mem_of_mem_filter hs))]
  | true =>
      simp only [Arena.sweep, round, if_true, jacobiAtOnce]
      congr 1
      funext s old
      split
      · next hs =>
          rw [Selection.has_only] at hs
          rw [h.update_fst o _ (hset s hs)]
      · rfl

/-- A Gauss-Seidel sweep has the same outcome. -/
theorem gaussSeidel (sel : Selection) (measure : ChangeMeasure) (v : Array ℝ) :
  a.gaussSeidel none o sel measure v = a'.gaussSeidel none o sel measure v
  := by
  rw [Arena.gaussSeidel, Arena.gaussSeidel, ← h.numStates]
  apply List.foldl_ext
  intro acc s hs
  rw [relaxState, relaxState,
    h.loopFreeOptimum o _ (List.mem_range.mp (List.mem_of_mem_filter hs))]

/-! ### Runs -/

section Runs

variable {settings : Settings W}

/-- The vectors of a run are the same. -/
theorem runVector (u : Until) (init : Option (Array ℝ)) (k : Nat) :
  a.runVector settings u o init k = a'.runVector settings u o init k
  := by
  have hswept : a.sweptStates settings u o init = a'.sweptStates settings u o init := by
    rw [sweptStates, sweptStates, h.numStates, (h.searchedAlike o).settledStates]
  have hset : ∀ s, (a.sweptStates settings u o init).contains s = true → s < a.numStates :=
    fun s hs => (Until.contains_unknown.mp hs).1
  rw [Arena.runVector, Arena.runVector, h.sweep o hset, hswept, h.numStates]

/-- What is computed from the answers of runs is the same, or the failure is, if it is the same for
all formulas within the model. -/
theorem map_boundedRun {α : Type} (f : BoundedRun ℝ → α) {k : Nat} {init : Option (Array ℝ)}
    (hf : ∀ u, f (a.runRounds settings u o k init) = f (a'.runRounds settings u o k init))
    (u : Until) :
  (a.boundedRun settings u o k init : Except (CheckError ℝ W) _).map f
    = (a'.boundedRun settings u o k init).map f
  := by
  simp only [boundedRun, bind, Except.bind, ← h.numStates]
  cases (u.restrict a.numStates : Except (CheckError ℝ W) Until) with
  | error e => rfl
  | ok u =>
      cases (checkInit a.numStates init : Except (CheckError ℝ W) Unit) with
      | error e => rfl
      | ok =>
          dsimp only [pure, Except.pure, Except.map]
          rw [hf]

/-- A round of an iteration over states of the model has the same outcome. -/
theorem iterate {set : StateSet} (hset : ∀ s, set.contains s = true → s < a.numStates) :
  a.iterate settings o set = a'.iterate settings o set
  := by
  funext i
  have hnext := congrFun (h.sweep o hset settings.parallel) i.values
  rw [← current_round _ _ _ _ ⟨i.values, i.previous, #[]⟩,
    ← current_round _ _ _ _ ⟨i.values, i.previous, #[]⟩] at hnext
  rw [Arena.iterate, Arena.iterate, h.gaussSeidel]
  cases settings.iteration with
  | jacobi =>
      dsimp only
      rw [hnext]
      rfl
  | gaussSeidel => rfl

end Runs

/-- The numbers of an iteration over states of the model, or its failure, are the same. -/
theorem map_converge [Precision ℝ W] {settings : Settings W} {d : Decided}
    (hset : ∀ s, d.maybe.contains s = true → s < a.numStates) :
  (a.converge settings o d).map Solution.numbers
    = (a'.converge settings o d).map Solution.numbers
  := by
  rw [converge, converge, ← h.numStates, h.iterate o hset]
  split <;> rfl

/-- The numbers of an unbounded run, or its failure, are the same. -/
theorem map_unboundedRun [Precision ℝ W] (settings : Settings W) (u : Until) :
  (a.unboundedRun settings u o).outcome.map Solution.numbers
    = (a'.unboundedRun settings u o).outcome.map Solution.numbers
  := by
  rw [unboundedRun, unboundedRun, ← h.numStates]
  cases (u.restrict a.numStates : Except (CheckError ℝ W) Until) with
  | error e => rfl
  | ok u =>
      change (a.converge settings o _).map _ = (a'.converge settings o _).map _
      rw [← (h.searchedAlike o).decided, h.map_converge]
      intro s hs
      apply (Until.contains_unknown.mp hs).1

end Arena.SameRows

/-! ### Answers -/

/-- A checker computes the same numbers for two arenas if it finds the same states with probability
zero and one and, for any formula, with or without a bound, comes to the same values, numbers of
rounds and failures.  The results of a bounded run are the same if the first initial states are. -/
structure Checker.SameNumbers [Wide W] [Precision ℝ W] (checker : Checker W) (a a' : Arena ℝ)
    (o : Objective) : Prop where
  zeroStates : ∀ remain target, a.zeroStates remain target o = a'.zeroStates remain target o
  sureStates : ∀ remain target, a.sureStates remain target o = a'.sureStates remain target o
  boundedReach : ∀ u k init,
    (checker.boundedReach a u k o init).outcome.map (fun run => run.solution.numbers)
      = (checker.boundedReach a' u k o init).outcome.map fun run => run.solution.numbers
  results : a.mdp.initialState = a'.mdp.initialState → ∀ u k init,
    (checker.boundedReach a u k o init).outcome.map BoundedRun.results
      = (checker.boundedReach a' u k o init).outcome.map BoundedRun.results
  boundedUntil : ∀ u bound, (checker.boundedUntil a u bound o).outcome.map Solution.numbers
    = (checker.boundedUntil a' u bound o).outcome.map Solution.numbers
  unboundedUntil : ∀ u, (checker.unboundedUntil a u o).outcome.map Solution.numbers
    = (checker.unboundedUntil a' u o).outcome.map Solution.numbers

/-- A checker computes the same numbers for arenas with the same rows. -/
theorem Arena.SameRows.sameNumbers [Wide W] [Precision ℝ W] (checker : Checker W) {a a' : Arena ℝ}
    (h : a.SameRows a') (o : Objective) :
  checker.SameNumbers a a' o
  := by
  have hreach : ∀ u k init,
      (checker.boundedReach a u k o init).outcome.map (fun run => run.solution.numbers)
        = (checker.boundedReach a' u k o init).outcome.map fun run => run.solution.numbers := by
    intro u k init
    rw [Checker.boundedReach, Checker.boundedReach, outcome_boundedAccount, outcome_boundedAccount]
    apply h.map_boundedRun
    intro u
    have hnumbers : ∀ a : Arena ℝ, (a.runRounds checker.settings u o k init).solution.numbers
        = _ := fun a => congrArg Prod.fst (a.numbers_runRounds checker.settings u o init k)
    simp only [hnumbers, h.runVector]
  refine ⟨(h.searchedAlike o).zeroStates, (h.searchedAlike o).sureStates, hreach, ?_, ?_,
    h.map_unboundedRun o checker.settings⟩
  · intro hinitial u k init
    rw [Checker.boundedReach, Checker.boundedReach, outcome_boundedAccount, outcome_boundedAccount]
    apply h.map_boundedRun
    intro u
    rw [results_runRounds, results_runRounds, ← hinitial, ← h.numStates]
    simp only [h.runVector]
  · intro u bound
    rw [Checker.boundedUntil, Checker.boundedUntil, ← h.numStates]
    cases (bound.steps : Except (CheckError ℝ W) Nat) with
    | error e => rfl
    | ok steps =>
        dsimp only
        split
        · rfl
        · rw [Checker.reachWithin, Checker.reachWithin, Account.outcome_map, Account.outcome_map]
          change Solution.numbers <$> BoundedRun.solution <$> (_ : Except (CheckError ℝ W) _)
            = Solution.numbers <$> BoundedRun.solution <$> (_ : Except (CheckError ℝ W) _)
          rw [Functor.map_map, Functor.map_map]
          apply hreach

end Reachability
