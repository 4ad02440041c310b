import Mathlib
import Reachability.Proofs.Greedy
import Reachability.Proofs.QueryOrder
import Reachability.Proofs.Traces

/-!
# The choices of the last round

A round writes the choices that it takes into one strategy for all rounds.  As it writes the same
places every time, nothing is left of earlier rounds: after any round the strategy is the greedy one
for the vector that this round has read (`Arena.strategy_runRounds`).  In a state that the round
writes, the choice is the first of those whose values no other one improves on, if these values are
numbers (`Arena.exists_explains`).

Hence the strategy of a bounded run explains its values by the vector of the round before, at all
open states that are not known to have probability zero, and takes no choice elsewhere
(`Checker.strategy_explains_values`).
-/

namespace Reachability

variable {V W : Type} [Arithmetic V]

/-! ### Best choices -/

/-- A choice explains the value of a state for the values of its successors: it has that value, no
choice of the state has a better one for the owner, and all choices before it have worse ones. -/
structure Arena.Explains (a : Arena V) (o : Objective) (v : Nat → V) (s c : Nat) (value : V) :
    Prop where
  lt_numChoices : c < a.mdp.numChoices s
  value_eq : value = a.choiceValue none v s c
  unbeaten : ∀ c' < a.mdp.numChoices s,
    (a.direction o s).improves (a.choiceValue none v s c') value = false
  worse_before : ∀ c' < c, (a.direction o s).improves value (a.choiceValue none v s c') = true

/-- A bounded run takes choices in the open states, except for those that it knows to have
probability zero. -/
structure Arena.Chooses (a : Arena V) (settings : Settings W) (u : Until) (o : Objective)
    (init : Option (Array V)) (s : Nat) : Prop where
  isOpen : a.IsOpen u s
  unsettled : settings.precomputation = true → init = none →
    (a.zeroStates u.remain u.target o).contains s = false

namespace Arena

section Rounds

variable {a : Arena V} {o : Objective} {s : Nat}

/-- Where there are choices with numbers as their values, the update takes one that explains it. -/
theorem exists_explains [RanksNumbers V] {v : Nat → V} (hn : 0 < a.mdp.numChoices s)
    (hnumbers : ∀ c < a.mdp.numChoices s, Arithmetic.isNaN (a.choiceValue none v s c) = false) :
  ∃ c, (a.update none o v s).2 = some c ∧ a.Explains o v s c (a.update none o v s).1
  := by
  obtain ⟨c, hc, hupdate, hunbeaten, hfirst⟩ :=
    Direction.exists_optimum_of_numbers (d := a.direction o s) hn hnumbers
  change a.update none o v s = _ at hupdate
  rw [hupdate]
  exact ⟨c, rfl, hc, rfl, hunbeaten, hfirst⟩

/-- The update takes no choice where there are none. -/
theorem update_snd_eq_none (rewards : Option (Rewards V)) (v : Nat → V)
    (hn : a.mdp.numChoices s = 0) :
  (a.update rewards o v s).2 = none
  := by
  rw [update, optimal, choiceValues, hn]
  rfl

/-! ### The strategy of rounds -/

variable {set : StateSet}

/-- A strategy has a place for every state and takes no choice outside of a set. -/
structure IdleOutside (a : Arena V) (set : StateSet) (strategy : Strategy) : Prop where
  size_eq : strategy.size = a.numStates
  idle : ∀ s < a.numStates, set.contains s = false → strategy[s]? = some none

/-- The greedy strategy takes no choice outside of its set. -/
theorem idleOutside_greedyStrategy (v : Array V) :
  a.IdleOutside set (a.greedyStrategy o set v)
  where
  size_eq := size_greedyStrategy v
  idle s hs hout := by
    rw [getElem?_greedyStrategy v hs, hout]
    rfl

omit [Arithmetic V] in
/-- The strategy that takes no choice anywhere takes none outside of a set. -/
theorem idleOutside_noChoices :
  a.IdleOutside set (noChoices a.numStates true)
  where
  size_eq := Array.size_replicate
  idle s hs _ := by
    rw [noChoices, if_pos rfl, Array.getElem?_replicate, if_pos hs]

variable {parallel : Bool} {p : Progress V}

/-- A round changes the length of no strategy. -/
theorem size_strategy_round :
  (a.round parallel o set p).strategy.size = p.strategy.size
  := by
  cases parallel with
  | false => simp [round]
  | true => simp [round, jacobiAtOnce]

/-- A round writes the choices of the update into the places of the states of its set, and does not
touch the places of other states. -/
theorem getElem?_strategy_round (hs : s < a.numStates) :
  (a.round parallel o set p).strategy[s]?
    = if set.contains s then p.strategy[s]?.map fun _ => (a.update none o (valuation p.current) s).2
      else p.strategy[s]?
  := by
  cases parallel with
  | false =>
      change (a.jacobi none o (.only set) p.current (p.current, p.strategy)).2[s]? = _
      rw [jacobi, getElem?_writeStates_snd]
      simp only [Selection.mem_filter_only, hs, true_and]
  | true =>
      change (a.jacobiAtOnce none o (.only set) p.current (p.current, p.strategy)).2[s]? = _
      rw [jacobiAtOnce, Array.getElem?_mapIdx, Selection.has_only]
      cases set.contains s with
      | false => exact Option.map_id'
      | true => rfl

/-- A round turns a strategy that takes no choice outside of its set into the greedy one for the
vector that it reads, whatever choices the strategy takes in the set. -/
theorem strategy_round (h : a.IdleOutside set p.strategy) :
  (a.round parallel o set p).strategy = a.greedyStrategy o set p.current
  := by
  apply Array.ext_getElem?
  intro s
  by_cases hs : s < a.numStates
  · rw [getElem?_strategy_round hs, getElem?_greedyStrategy _ hs]
    cases hin : set.contains s with
    | false =>
        rw [h.idle s hs hin]
        rfl
    | true =>
        rw [← h.size_eq] at hs
        rw [Array.getElem?_eq_getElem hs]
        rfl
  · rw [Array.getElem?_eq_none, Array.getElem?_eq_none]
    · rw [size_greedyStrategy]
      omega
    · rw [size_strategy_round, h.size_eq]
      omega

/-- After rounds, the strategy is the greedy one for the vector that the last of them has read. -/
theorem strategy_trackedRounds_succ {start : Tracked V}
    (hstart : a.IdleOutside set start.progress.strategy) (k : Nat) :
  (Nat.repeat (a.trackedRound parallel o set) (k + 1) start).progress.strategy
    = a.greedyStrategy o set ((a.sweep parallel o set)^[k] start.progress.current)
  := by
  induction k with
  | zero => apply strategy_round hstart
  | succ k ih =>
      rw [← current_trackedRounds]
      apply strategy_round
      rw [ih]
      apply idleOutside_greedyStrategy

end Rounds

/-! ### Runs -/

section Runs

variable (a : Arena V) (settings : Settings W) (u : Until) (o : Objective)
  (init : Option (Array V))

/-- The strategy of a run is the greedy one for the vector of the round before, over the states that
the run sweeps over. -/
theorem strategy_runRounds (hexport : settings.exportStrategy = true) (k : Nat) :
  (a.runRounds settings u o (k + 1) init).solution.strategy
    = some (a.greedyStrategy o (a.sweptStates settings u o init) (a.runVector settings u o init k))
  := by
  simp only [runRounds, hexport, keptStrategy, if_true]
  apply congrArg some
  apply strategy_trackedRounds_succ idleOutside_noChoices

/-- A round of a run gives a state that it sweeps over the value of its update. -/
theorem valuation_runVector_succ (k : Nat) {s : Nat} (hs : s < a.numStates)
    (hin : (a.sweptStates settings u o init).contains s = true) :
  valuation (a.runVector settings u o init (k + 1)) s
    = (a.update none o (valuation (a.runVector settings u o init k)) s).1
  := by
  rw [runVector, Function.iterate_succ_apply', valuation_sweep _ _ _ _ _ hs, if_pos hin]
  · rfl
  · rw [size_iterate_sweep, size_startVector]

/-- Resizing a formula does not change which states have probability zero. -/
theorem contains_zeroStates_resized (s : Nat) :
  (a.zeroStates (u.resized a.numStates).remain (u.resized a.numStates).target o).contains s
    = (a.zeroStates u.remain u.target o).contains s
  := by
  rw [Bool.eq_iff_iff]
  constructor
  · apply zeroStates_subset _ o.le_refl
    constructor <;> simp
  · apply zeroStates_subset _ o.le_refl
    constructor <;> simp

/-- The states with choices that a run sweeps over are those where it takes choices. -/
theorem chooses_iff {s : Nat} :
  a.Chooses settings u o init s
    ↔ (a.sweptStates settings (u.resized a.numStates) o init).contains s = true
      ∧ 0 < a.mdp.numChoices s
  := by
  have hsettled : (∀ set ∈ (if init.isNone then a.settledStates settings (u.resized a.numStates) o
        else none), set.contains s = false)
      ↔ (settings.precomputation = true → init = none →
        (a.zeroStates u.remain u.target o).contains s = false) := by
    rw [← contains_zeroStates_resized, settledStates]
    cases init with
    | none => cases settings.precomputation <;> simp
    | some v => simp
  rw [sweptStates, Until.contains_unknown, hsettled, Until.remains_resized,
    Until.contains_target_resized]
  constructor
  · rintro ⟨⟨hs, htarget, hremains, hn⟩, hunsettled⟩
    exact ⟨⟨hs, hremains, htarget, hunsettled⟩, hn⟩
  · rintro ⟨⟨hs, hremains, htarget, hunsettled⟩, hn⟩
    exact ⟨⟨hs, htarget, hremains, hn⟩, hunsettled⟩

end Runs

end Arena

/-! ### Answers -/

namespace Checker

/-- If choices are kept, then a run of at least one round has a strategy that explains its values by
the vector of the round before: in each open state that is not known to have probability zero, it
takes the first of the choices that no other one improves on, as far as these have numbers as their
values, and elsewhere it takes none.  A run that writes into two vectors in turn has this answer. -/
theorem strategy_explains_values [RanksNumbers V] [Wide W] [Precision V W] (checker : Checker W)
    (hexport : checker.settings.exportStrategy = true) {a : Arena V} {u : Until}
    (hu : u.Within a.numStates) (o : Objective) {k : Nat} (hk : 0 < k) {init : Option (Array V)}
    (hinit : ∀ v ∈ init, v.size = a.numStates) :
  ∃ run previous strategy,
    (checker.boundedReach a u k o init : Account V W (BoundedRun V)).outcome = .ok run
    ∧ (∀ before, (a.performRun checker.settings u o k init
          : EStateM (CheckError V W) (List V) (Solution V)).run before
        = .ok run.solution run.results)
    ∧ run.solution.previous = some previous
    ∧ run.solution.strategy = some strategy
    ∧ run.solution.values.size = a.numStates
    ∧ previous.size = a.numStates
    ∧ strategy.size = a.numStates
    ∧ ∀ s < a.numStates,
      (a.Chooses checker.settings u o init s →
        (∀ c < a.mdp.numChoices s,
          Arithmetic.isNaN (a.choiceValue none (valuation previous) s c) = false) →
        ∃ c, strategy[s]? = some (some c)
          ∧ a.Explains o (valuation previous) s c (valuation run.solution.values s))
      ∧ (¬ a.Chooses checker.settings u o init s → strategy[s]? = some none)
  := by
  obtain ⟨k, rfl⟩ := Nat.exists_eq_succ_of_ne_zero (Nat.ne_of_gt hk)
  have hrun := checker.boundedReach_eq_ok (o := o) hu (k + 1) init hinit
  have hstrategy := a.strategy_runRounds checker.settings (u.resized a.numStates) o init hexport k
  refine ⟨_, _, _, hrun, ?_, Arena.previous_runRounds .., hstrategy, ?_, Arena.size_runVector ..,
    Arena.size_greedyStrategy _, ?_⟩
  · intro before
    rw [Arena.run_performRun, a.boundedRun_eq_ok checker.settings hu (k + 1) init hinit]
  · rw [Arena.values_eq_runVector, Arena.size_runVector]
  · intro s hs
    rw [Arena.getElem?_greedyStrategy _ hs, a.chooses_iff, Arena.values_eq_runVector]
    constructor
    · rintro ⟨hin, hn⟩ hnumbers
      rw [if_pos hin, a.valuation_runVector_succ _ _ _ _ _ hs hin]
      obtain ⟨c, hchoice, hexplains⟩ := Arena.exists_explains (o := o) hn hnumbers
      exact ⟨c, congrArg some hchoice, hexplains⟩
    · intro hnot
      split
      · next hin =>
          rw [Arena.update_snd_eq_none]
          by_contra hn
          exact hnot ⟨hin, Nat.pos_of_ne_zero hn⟩
      · rfl

/-- In the model with a tie, two rounds take the choice to stay in state `0`, which explains its
value by the vector after one round, for which gambling is no better. -/
theorem strategy_explains_values_tied :
  let checker : Checker ℝ := ⟨{ Settings.default with exportStrategy := true }, .silent⟩
  ∃ run previous strategy,
    (checker.boundedReach Model.tied.arena .tied 2 .max none
        : Account ℝ ℝ (BoundedRun ℝ)).outcome = .ok run
      ∧ run.solution.previous = some previous
      ∧ run.solution.strategy = some strategy
      ∧ strategy[0]? = some (some 0)
      ∧ Model.tied.arena.Explains .max (valuation previous) 0 0 (valuation run.solution.values 0)
      ∧ strategy[1]? = some none
  := by
  intro checker
  have hinit : ∀ v ∈ (none : Option (Array ℝ)), v.size = Model.tied.arena.numStates := by
    rintro v ⟨⟩
  obtain ⟨run, previous, strategy, hrun, -, hprevious, hstrategy, -, -, -, hstates⟩ :=
    checker.strategy_explains_values rfl Until.within_tied .max Nat.two_pos hinit
  have ha := Model.built_tied.proper_arena
  have hvalues : ∀ s < 3, valuation previous s
      = Model.tied.arena.stepValue (Until.tied.resized 3) .max 1 s := by
    obtain rfl : _ = run := Except.ok.inj
      ((checker.boundedReach_eq_ok Until.within_tied 2 .max none hinit).symm.trans hrun)
    obtain rfl : _ = previous :=
      Option.some_inj.mp ((Arena.previous_runRounds ..).symm.trans hprevious)
    rw [← Arena.values_eq_runVector]
    apply (Arena.values_runRounds_real ha checker.settings 1).2
  have hchooses : Model.tied.arena.Chooses checker.settings .tied .max none 0 := by
    refine ⟨⟨by decide, by decide, by decide, by decide⟩, ?_⟩
    intro _ _
    rw [← Arena.contains_zeroStates_resized, Bool.eq_false_iff]
    intro hzero
    have hvalue : Model.tied.arena.stepValue (Until.tied.resized 3) .max 1 0 = 0 :=
      ((Arena.contains_zeroStates ha 0).mp hzero).2 1
    linarith [Model.half_le_stepValue_tied]
  obtain ⟨c, hc, hexplains⟩ := (hstates 0 (by decide)).1 hchooses fun c _ => Arithmetic.isNaN_real _
  have hstays : c = 0 := by
    by_contra hgambles
    obtain rfl : c = 1 := by
      have hlt : c < 2 := hexplains.lt_numChoices
      omega
    have hworse := hexplains.worse_before 0 Nat.one_pos
    rw [hexplains.value_eq] at hworse
    have hlt := of_decide_eq_true hworse
    change expectation (Model.tied.arena.mdp.successors 0 0) (valuation previous)
      < expectation (Model.tied.arena.mdp.successors 0 1) (valuation previous) at hlt
    have hone : valuation previous 1 = 1 :=
      (hvalues 1 (by decide)).trans (Arena.stepValue_target 1 (by decide))
    have hzero : valuation previous 2 = 0 := by
      apply (hvalues 2 (by decide)).trans
      apply Arena.stepValue_of_not_isOpen 1 (by decide) (by decide)
      intro hopen
      exact absurd hopen.choices (by decide)
    rw [Model.expectation_tied_stay, Model.expectation_tied_gamble, hone, hzero,
      hvalues 0 (by decide)] at hlt
    linarith [Model.half_le_stepValue_tied]
  subst hstays
  refine ⟨run, previous, strategy, hrun, hprevious, hstrategy, hc, hexplains, ?_⟩
  apply (hstates 1 (by decide)).2
  intro hchooses
  exact absurd hchooses.isOpen.target (by decide)

end Checker

end Reachability
