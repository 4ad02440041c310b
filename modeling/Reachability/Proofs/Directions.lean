import Mathlib
import Reachability.Proofs.Searches
import Reachability.Proofs.Unbounded

/-!
# Directions of states

All that an analysis sees of the owner of a state is the direction that the objective gives to that
player.  Two arenas match for two objectives if they have the same moves and every state has the
same direction in both (`Arena.Matches`).  The searches then ask the same of the choices of a state,
and the sweeps pick the same choice, so that all results are the same
(`Checker.sameResults_of_direction`).

Arenas that match may differ outside of their states.  A sweep that is made all at once looks at any
state of its set, so it matters that the sets of runs have only states of the model.
-/

namespace Reachability

variable {V W : Type}

/-- Two processes have the same moves if they have as many states, the same choices in each of them,
and the same initial states. -/
structure Mdp.SameMoves (m m' : Mdp V) : Prop where
  numStates : m.numStates = m'.numStates
  numChoices : ∀ s < m.numStates, m.numChoices s = m'.numChoices s
  successors : ∀ s < m.numStates, ∀ c < m.numChoices s, m.successors s c = m'.successors s c
  initialStates : m.initialStates = m'.initialStates

/-- A process has its own moves. -/
theorem Mdp.sameMoves_refl (m : Mdp V) :
  m.SameMoves m
  := ⟨rfl, fun _ _ => rfl, fun _ _ _ _ => rfl, rfl⟩

/-- Two arenas match for two objectives if they have the same moves and the owner of each state has
the same direction. -/
structure Arena.Matches (a : Arena V) (o : Objective) (a' : Arena V) (o' : Objective) : Prop where
  moves : a.mdp.SameMoves a'.mdp
  direction : ∀ s < a.numStates, a.direction o s = a'.direction o' s

variable [Arithmetic V]

namespace Arena.Matches

variable {a a' : Arena V} {o o' : Objective} (h : a.Matches o a' o')

include h

omit [Arithmetic V] in
/-- Matching arenas have as many states. -/
theorem numStates :
  a.numStates = a'.numStates
  := h.moves.numStates

omit [Arithmetic V] in
/-- Matching arenas have the same first initial state. -/
theorem initialState :
  a.mdp.initialState = a'.mdp.initialState
  := by
  rw [Mdp.initialState, Mdp.initialState, h.moves.initialStates]

/-! ### Graph search -/

omit [Arithmetic V] in
/-- Matching arenas are searched alike. -/
theorem searchedAlike :
  a.SearchedAlike o a' o'
  where
  numStates := h.numStates
  choices s hs := by rw [h.moves.numChoices s hs]
  quantified condition s hs := by
    rw [Bool.eq_iff_iff, quantified_iff, quantified_iff, ← h.direction s hs,
      ← h.moves.numChoices s hs]
    apply Direction.quantify_congr
    intro c hc
    rw [h.moves.successors s hs c hc]

/-! ### Sweeps -/

section Sweeps

variable (rewards : Option (Rewards V)) (sel : Selection)

/-- The choices of a state have the same values. -/
theorem choiceValues (v : Nat → V) {s : Nat} (hs : s < a.numStates) :
  a.choiceValues rewards v s = a'.choiceValues rewards v s
  := by
  rw [Arena.choiceValues, Arena.choiceValues, ← h.moves.numChoices s hs]
  apply List.map_congr_left
  intro c hc
  simp only [choiceValue, h.moves.successors s hs c (List.mem_range.mp hc)]

/-- A state is updated in the same way. -/
theorem update (v : Nat → V) {s : Nat} (hs : s < a.numStates) :
  a.update rewards o v s = a'.update rewards o' v s
  := by
  rw [Arena.update, Arena.update, optimal, optimal, h.choiceValues rewards v hs, h.direction s hs]

/-- A state is updated in the same way if the loops of choices are solved for. -/
theorem loopFreeOptimum (v : Nat → V) {s : Nat} (hs : s < a.numStates) :
  a.loopFreeOptimum rewards v (a.direction o s) s
    = a'.loopFreeOptimum rewards v (a'.direction o' s) s
  := by
  have hvalues : (List.range (a.mdp.numChoices s)).map (a.loopFreeValue rewards v s)
      = (List.range (a'.mdp.numChoices s)).map (a'.loopFreeValue rewards v s) := by
    rw [← h.moves.numChoices s hs]
    apply List.map_congr_left
    intro c hc
    rw [loopFreeValue, loopFreeValue, escapeValue, escapeValue, escapeMass, escapeMass,
      h.moves.successors s hs c (List.mem_range.mp hc)]
  rw [Arena.loopFreeOptimum, Arena.loopFreeOptimum, hvalues, h.direction s hs]

/-- A Jacobi sweep, state by state, has the same outcome. -/
theorem jacobi (v : Array V) (out : Array V × Strategy) :
  a.jacobi rewards o sel v out = a'.jacobi rewards o' sel v out
  := by
  rw [Arena.jacobi, Arena.jacobi, writeStates, writeStates, ← h.numStates]
  apply List.foldl_ext
  intro out s hs
  rw [writeState, writeState, h.update rewards _ (List.mem_range.mp (List.mem_of_mem_filter hs))]

/-- A Jacobi sweep over states of the model, all entries at once, has the same outcome. -/
theorem jacobiAtOnce {sel : Selection} (hsel : ∀ s, sel.has s = true → s < a.numStates)
    (v : Array V) (out : Array V × Strategy) :
  a.jacobiAtOnce rewards o sel v out = a'.jacobiAtOnce rewards o' sel v out
  := by
  have hupdate : ∀ s, sel.has s = true →
      a.update rewards o (valuation v) s = a'.update rewards o' (valuation v) s :=
    fun s hs => h.update rewards _ (hsel s hs)
  rw [Arena.jacobiAtOnce, Arena.jacobiAtOnce]
  congr 2
  · funext s old
    split
    · next hs => rw [hupdate s hs]
    · rfl
  · funext s old
    split
    · next hs => rw [hupdate s hs]
    · rfl

/-- A Gauss-Seidel sweep has the same outcome. -/
theorem gaussSeidel (measure : ChangeMeasure) (v : Array V) :
  a.gaussSeidel rewards o sel measure v = a'.gaussSeidel rewards o' sel measure v
  := by
  rw [Arena.gaussSeidel, Arena.gaussSeidel, ← h.numStates]
  apply List.foldl_ext
  intro acc s hs
  rw [relaxState, relaxState,
    h.loopFreeOptimum rewards _ (List.mem_range.mp (List.mem_of_mem_filter hs))]

omit [Arithmetic V] in
/-- The same vectors cover the successors of a state. -/
theorem covers (length : Nat) {s : Nat} (hs : s < a.numStates) :
  a.covers length s = a'.covers length s
  := by
  rw [Arena.covers, Arena.covers, allSuccessors, allSuccessors, ← h.moves.numChoices s hs]
  congr 1
  apply List.flatMap_congr
  intro c hc
  rw [h.moves.successors s hs c (List.mem_range.mp hc)]

/-- A Gauss-Seidel sweep of a vector of any length has the same outcome. -/
theorem gaussSeidel? (measure : ChangeMeasure) (v : Array V) :
  a.gaussSeidel? rewards o sel measure v = a'.gaussSeidel? rewards o' sel measure v
  := by
  have hall : (((List.range a.numStates).filter sel.has).all fun s =>
        s < v.size && a.covers v.size s)
      = ((List.range a.numStates).filter sel.has).all fun s =>
        s < v.size && a'.covers v.size s := by
    rw [Bool.eq_iff_iff, List.all_eq_true, List.all_eq_true]
    apply forall₂_congr
    intro s hs
    rw [h.covers _ (List.mem_range.mp (List.mem_of_mem_filter hs))]
  simp only [Arena.gaussSeidel?, ← h.numStates, hall, h.gaussSeidel]

end Sweeps

/-! ### Runs -/

section Runs

variable {settings : Settings W} {set : StateSet}

/-- A round over states of the model has the same outcome. -/
theorem round (hset : ∀ s, set.contains s = true → s < a.numStates) (parallel : Bool)
    (p : Progress V) :
  a.round parallel o set p = a'.round parallel o' set p
  := by
  have hsel : ∀ s, (Selection.only set).has s = true → s < a.numStates := by
    intro s hs
    rw [Selection.has_only] at hs
    apply hset s hs
  rw [Arena.round, Arena.round, h.jacobi, h.jacobiAtOnce none hsel]

/-- A round that is tracked has the same outcome. -/
theorem trackedRound (hset : ∀ s, set.contains s = true → s < a.numStates) (parallel : Bool) :
  a.trackedRound parallel o set = a'.trackedRound parallel o' set
  := by
  funext t
  rw [Arena.trackedRound, Arena.trackedRound, h.round hset, h.initialState]

/-- A run of rounds is the same. -/
theorem runRounds (u : Until) (k : Nat) (init : Option (Array V)) :
  a.runRounds settings u o k init = a'.runRounds settings u o' k init
  := by
  have hset : ∀ no s, (u.unknown a.numStates u.target no).contains s = true → s < a.numStates :=
    fun no s hs => (Until.contains_unknown.mp hs).1
  simp only [Arena.runRounds, ← h.numStates, ← h.searchedAlike.settledStates, ← h.initialState,
    h.trackedRound (hset _)]

/-- A bounded run comes out the same. -/
theorem boundedRun (u : Until) (k : Nat) (init : Option (Array V)) :
  (a.boundedRun settings u o k init : Except (CheckError V W) (BoundedRun V))
    = a'.boundedRun settings u o' k init
  := by
  simp only [Arena.boundedRun, h.numStates, h.runRounds]

/-- A round of an iteration over states of the model has the same outcome. -/
theorem iterate (hset : ∀ s, set.contains s = true → s < a.numStates) :
  a.iterate settings o set = a'.iterate settings o' set
  := by
  funext i
  rw [Arena.iterate, Arena.iterate, h.round hset, h.gaussSeidel]

/-- The same choices are best for a vector. -/
theorem greedyStrategy (v : Array V) :
  a.greedyStrategy o set v = a'.greedyStrategy o' set v
  := by
  rw [Arena.greedyStrategy, Arena.greedyStrategy, ← h.numStates]
  apply Array.map_congr_left
  intro s hs
  rw [h.update none _ (Array.mem_range.mp hs)]

variable [Precision V W]

/-- An iteration over states of the model comes out the same. -/
theorem converge {d : Decided} (hset : ∀ s, d.maybe.contains s = true → s < a.numStates) :
  a.converge settings o d = a'.converge settings o' d
  := by
  rw [Arena.converge, Arena.converge, h.numStates, h.iterate hset]
  simp only [h.greedyStrategy]

/-- An unbounded run comes out the same. -/
theorem unboundedRun (u : Until) :
  (a.unboundedRun settings u o).outcome = (a'.unboundedRun settings u o').outcome
  := by
  rw [Arena.unboundedRun, Arena.unboundedRun, ← h.numStates]
  cases (u.restrict a.numStates : Except (CheckError V W) Until) with
  | error e => rfl
  | ok u =>
      change a.converge settings o _ = a'.converge settings o' _
      rw [← h.searchedAlike.decided, h.converge]
      intro s hs
      apply (Until.contains_unknown.mp hs).1

end Runs

end Arena.Matches

/-! ### Results -/

/-- Two arenas have the same results for two objectives if a checker finds the same states with
probability zero and one, makes the same Gauss-Seidel sweeps, and comes to the same outcome for any
formula, with or without a bound. -/
structure Checker.SameResults [Wide W] [Precision V W] (checker : Checker W) (a : Arena V)
    (o : Objective) (a' : Arena V) (o' : Objective) : Prop where
  zeroStates : ∀ remain target, a.zeroStates remain target o = a'.zeroStates remain target o'
  sureStates : ∀ remain target, a.sureStates remain target o = a'.sureStates remain target o'
  gaussSeidel : ∀ rewards sel measure v,
    a.gaussSeidel? rewards o sel measure v = a'.gaussSeidel? rewards o' sel measure v
  boundedReach : ∀ u k init, (checker.boundedReach a u k o init).outcome
    = (checker.boundedReach a' u k o' init).outcome
  boundedUntil : ∀ u bound, (checker.boundedUntil a u bound o).outcome
    = (checker.boundedUntil a' u bound o').outcome
  unboundedUntil : ∀ u, (checker.unboundedUntil a u o).outcome
    = (checker.unboundedUntil a' u o').outcome

/-- Matching arenas have the same results. -/
theorem Arena.Matches.sameResults [Wide W] [Precision V W] (checker : Checker W) {a a' : Arena V}
    {o o' : Objective} (h : a.Matches o a' o') :
  checker.SameResults a o a' o'
  := by
  have hreach : ∀ u k init, (checker.boundedReach a u k o init).outcome
      = (checker.boundedReach a' u k o' init).outcome := by
    intro u k init
    simp only [Checker.boundedReach, outcome_boundedAccount, h.boundedRun]
  refine ⟨h.searchedAlike.zeroStates, h.searchedAlike.sureStates, h.gaussSeidel?, hreach, ?_,
    h.unboundedRun⟩
  intro u bound
  rw [Checker.boundedUntil, Checker.boundedUntil]
  cases (bound.steps : Except (CheckError V W) Nat) with
  | error e => rfl
  | ok steps =>
      dsimp only
      split
      · rw [h.numStates]
      · rw [Checker.reachWithin, Checker.reachWithin, Account.outcome_map, Account.outcome_map,
          hreach]

/-- The other one of the two players. -/
def Player.other : Player → Player
  | .one => .two
  | .two => .one

/-- The objective with the directions of the players swapped. -/
def Objective.swapped (o : Objective) : Objective := ⟨o.player2, o.player1⟩

/-- Swapping the directions gives each player that of the other one. -/
@[simp]
theorem Objective.directionOf_swapped (o : Objective) (p : Player) :
  o.swapped.directionOf p.other = o.directionOf p
  := by
  cases p <;> rfl

omit [Arithmetic V] in
/-- In the game of a process all states belong to the first player. -/
theorem Game.owner_ofMdp (m : Mdp V) (s : Nat) :
  (ofMdp m).owner s = .one
  := by
  rw [owner, owner?, ofMdp, Array.getElem?_replicate]
  split <;> rfl

namespace Checker

variable [Wide W] [Precision V W] (checker : Checker W)

/-- The results for a model depend on the owners and the objective through the direction at each
state only.  Hence nothing changes if all owners and the two directions are swapped, and for a
process of one player, or the game of it, the direction of the second player does not matter. -/
theorem sameResults_of_direction :
  (∀ (a a' : Arena V) o o', a.Matches o a' o' → checker.SameResults a o a' o')
    ∧ (∀ (g g' : Game V) o, g.mdp.SameMoves g'.mdp →
      (∀ s < g.mdp.numStates, g'.owner s = (g.owner s).other) →
      checker.SameResults g.arena o g'.arena o.swapped)
    ∧ ∀ (m : Mdp V) o o', o.player1 = o'.player1 →
      checker.SameResults m.arena o m.arena o'
        ∧ checker.SameResults m.arena o (Game.ofMdp m).arena o'
  := by
  refine ⟨fun a a' o o' h => h.sameResults checker, ?_, ?_⟩
  · intro g g' o hmoves howner
    apply Arena.Matches.sameResults checker ⟨hmoves, _⟩
    intro s hs
    change o.directionOf (g.owner s) = o.swapped.directionOf (g'.owner s)
    rw [howner s hs, Objective.directionOf_swapped]
  · intro m o o' hfirst
    constructor
    · apply Arena.Matches.sameResults checker ⟨m.sameMoves_refl, _⟩
      intro s _
      exact hfirst
    · apply Arena.Matches.sameResults checker ⟨m.sameMoves_refl, _⟩
      intro s _
      change o.player1 = o'.directionOf ((Game.ofMdp m).owner s)
      rw [Game.owner_ofMdp]
      exact hfirst

end Checker

/-- The sample game with the owners of all states swapped. -/
noncomputable def Game.swappedSample : Game ℝ :=
  ⟨Draft.sample.mdp.process, #[.two, .one, .two, .two]⟩

/-- The sample game has the results of the game with the owners swapped, if the objectives are
swapped, too. -/
theorem Checker.sameResults_of_direction_sample :
  sample.SameResults Model.sample.arena .opposed Game.swappedSample.arena
    (Objective.swapped .opposed)
  := by
  obtain ⟨-, hswap, -⟩ := sample.sameResults_of_direction (V := ℝ)
  apply hswap ⟨Game.Draft.sample.mdp.process, Game.Draft.sample.players⟩ Game.swappedSample .opposed
    (Mdp.sameMoves_refl _)
  intro s hs
  have hlt : s < 4 := hs
  interval_cases s <;> rfl

end Reachability
