import Mathlib
import Reachability.Proofs.Strategy

/-!
# Strategies of answers without a bound

The strategy that goes with an answer takes, in each state that is iterated, the first of the
choices that are best for the values of the answer (`Arena.Greedy`).  If both players maximise, it
supports these values, and it is worth them if no choice that it takes ties with another one
(`Checker.exists_strategy`).

Ties may keep it from making any progress: in `Model.tied` it takes a choice that only loops, which
is as good as moving on for the values of the answer (`Checker.worth_lt_tied`).
-/

namespace Reachability

namespace Arena

/-! ### The choices of the greedy strategy -/

section Strategy

variable {V : Type} [Arithmetic V] {a : Arena V} {o : Objective} {set : StateSet} (v : Array V)

/-- The greedy strategy has a place for every state. -/
theorem size_greedyStrategy :
  (a.greedyStrategy o set v).size = a.numStates
  := by
  rw [greedyStrategy, Array.size_map, Array.size_range]

/-- The greedy strategy takes the choices of the update in the states of its set, and none
elsewhere. -/
theorem getElem?_greedyStrategy {s : Nat} (hs : s < a.numStates) :
  (a.greedyStrategy o set v)[s]?
    = some (if set.contains s then (a.update none o (valuation v) s).2 else none)
  := by
  rw [greedyStrategy, Array.getElem?_map, Array.getElem?_range, if_pos hs]
  rfl

end Strategy

/-- A strategy for maximisers is greedy for values if every choice that it takes is a best one, and
attains the value of its state. -/
structure Greedy (a : Arena ℝ) (strategy : Strategy) (v : Nat → ℝ) : Prop where
  legal : strategy.Legal a
  best : ∀ s < a.numStates, ∀ c, strategy.choiceAt s = some c → ∀ c' < a.mdp.numChoices s,
    expectation (a.mdp.successors s c') v ≤ expectation (a.mdp.successors s c) v
  attains : ∀ s < a.numStates, ∀ c, strategy.choiceAt s = some c →
    v s ≤ expectation (a.mdp.successors s c) v

/-- No choice that a strategy takes is as good as another one of its state. -/
def Untied (a : Arena ℝ) (strategy : Strategy) (v : Nat → ℝ) : Prop :=
  ∀ s < a.numStates, ∀ c, strategy.choiceAt s = some c → ∀ c' < a.mdp.numChoices s, c' ≠ c →
    expectation (a.mdp.successors s c') v ≠ expectation (a.mdp.successors s c) v

variable {a : Arena ℝ} {o : Objective} {yes maybe : StateSet} {v : Array ℝ}

/-- The greedy strategy takes the choice of the update in the states of its set. -/
theorem choiceAt_greedyStrategy {s : Nat} (hs : s < a.numStates) :
  (a.greedyStrategy o maybe v).choiceAt s
    = if maybe.contains s then (a.update none o (valuation v) s).2 else none
  := by
  rw [Strategy.choiceAt, getElem?_greedyStrategy v hs, Option.join_some]

/-- The greedy strategy takes a choice where it looks for one and there are any. -/
theorem choiceAt_greedyStrategy_eq_none {s : Nat} (hs : s < a.numStates)
    (hin : maybe.contains s = true) (h : (a.greedyStrategy o maybe v).choiceAt s = none) :
  a.mdp.numChoices s = 0
  := by
  by_contra hn
  obtain ⟨c, -, hupdate, -⟩ := a.exists_update (o := o) (Nat.pos_of_ne_zero hn) (valuation v)
  rw [choiceAt_greedyStrategy hs, if_pos hin, hupdate] at h
  cases h

/-- A choice of the greedy strategy is one that there is in a state of its set, no choice improves
on it, and none before it is as good. -/
theorem of_choiceAt_greedyStrategy {s c : Nat} (hs : s < a.numStates)
    (h : (a.greedyStrategy o maybe v).choiceAt s = some c) :
  maybe.contains s = true ∧ c < a.mdp.numChoices s
    ∧ (∀ c' < a.mdp.numChoices s, (a.direction o s).improves
      (expectation (a.mdp.successors s c') (valuation v))
      (expectation (a.mdp.successors s c) (valuation v)) = false)
    ∧ ∀ c' < c, (a.direction o s).improves
      (expectation (a.mdp.successors s c) (valuation v))
      (expectation (a.mdp.successors s c') (valuation v)) = true
  := by
  rw [choiceAt_greedyStrategy hs] at h
  split at h
  · next hin =>
      use hin
      obtain hn | hn := Nat.eq_zero_or_pos (a.mdp.numChoices s)
      · rw [update, optimal, choiceValues, hn] at h
        cases h
      · obtain ⟨c₀, hc₀, hopt, hunbeaten, hfirst⟩ := Direction.exists_optimum
          (d := a.direction o s) hn fun c => expectation (a.mdp.successors s c) (valuation v)
        rw [show a.update none o (valuation v) s = _ from hopt] at h
        cases h
        exact ⟨hc₀, hunbeaten, hfirst⟩
  · cases h

section Maximisers

variable (ha : a.mdp.Proper) (hsum : a.mdp.Stochastic) (hmax : ∀ s, a.direction o s = .max)
  (hclimbs : a.Climbs maybe (valuation v))

include ha hmax hclimbs

/-- If values are attained by progress, then the strategy that is greedy for them attains them,
too. -/
theorem Climbs.greedy :
  a.Greedy (a.greedyStrategy o maybe v) (valuation v)
  := by
  have hbest : ∀ s < a.numStates, ∀ c, (a.greedyStrategy o maybe v).choiceAt s = some c →
      ∀ c' < a.mdp.numChoices s, expectation (a.mdp.successors s c') (valuation v)
        ≤ expectation (a.mdp.successors s c) (valuation v) := by
    intro s hs c hc c' hc'
    have h := (of_choiceAt_greedyStrategy hs hc).2.2.1 c' hc'
    rw [hmax, Direction.improves, decide_eq_false_iff_not, not_lt] at h
    apply h
  refine ⟨fun s hs c hc => (of_choiceAt_greedyStrategy hs hc).2.1, hbest, ?_⟩
  intro s hs c hc
  obtain hzero | hpos := le_or_gt (valuation v s) 0
  · apply le_trans hzero (expectation_nonneg (ha.mass_pos s c) _)
    intro e he
    apply hclimbs.nonneg e.1 (ha.lt_numStates s c e he)
  · obtain ⟨rank, hattained⟩ := hclimbs.attained
    obtain ⟨c', hc', hle, -⟩ := hattained s hs (of_choiceAt_greedyStrategy hs hc).1 hpos
    apply le_trans hle (hbest s hs c hc c' hc')

variable (hknown : ∀ s < a.numStates, maybe.contains s = false →
  valuation v s = if yes.contains s then 1 else 0)
  (hyes : ∀ s, maybe.contains s = true → yes.contains s = false)

include hknown hyes

/-- If values are attained by progress where they are not known to be one or zero, then the strategy
that is greedy for them supports them. -/
theorem Climbs.supports :
  a.Supports (a.greedyStrategy o maybe v) yes (valuation v)
  := by
  constructor
  · intro s hs hin
    have hout : maybe.contains s = false := by
      rw [Bool.eq_false_iff]
      intro hmaybe
      rw [hyes s hmaybe] at hin
      cases hin
    rw [hknown s hs hout, if_pos hin]
  · intro s hs hout hnone
    cases hmaybe : maybe.contains s with
    | true =>
        have hn := choiceAt_greedyStrategy_eq_none hs hmaybe hnone
        by_contra hpos
        obtain ⟨rank, hattained⟩ := hclimbs.attained
        obtain ⟨c, hc, -⟩ := hattained s hs hmaybe (lt_of_not_ge hpos)
        rw [hn] at hc
        apply Nat.not_lt_zero c hc
    | false => rw [hknown s hs hmaybe, if_neg (Bool.eq_false_iff.mp hout)]
  · intro s hs _
    apply (hclimbs.greedy ha hmax).attains s hs

include hsum in
/-- If values are attained by progress where they are not known to be one or zero, then the strategy
that is greedy for them is worth them unless it takes choices that tie with others. -/
theorem Climbs.le_worth_of_untied (huntied : a.Untied (a.greedyStrategy o maybe v) (valuation v)) :
  ∀ s < a.numStates, valuation v s ≤ a.worth (a.greedyStrategy o maybe v) yes s
  := by
  have hgreedy := hclimbs.greedy ha hmax
  have hsupports := hclimbs.supports ha hmax hknown hyes
  obtain ⟨rank, hattained⟩ := hclimbs.attained
  apply (hsupports.le_worth_iff ha hsum hgreedy.legal).mpr
  intro s hs hpos
  apply hsupports.exists_reachProbability_pos ha hsum hgreedy.legal rank _ hs hpos
  intro s hs _ hpos c hc
  have hn := hgreedy.legal s hs c hc
  obtain ⟨c', hc', hle, hbehind⟩ := hattained s hs (of_choiceAt_greedyStrategy hs hc).1 hpos
  obtain rfl | hother := eq_or_ne c' c
  · apply hbehind
  -- The value of the best choice is above that of the state, and so is one of its successors.
  · have hlt := lt_of_le_of_ne (hgreedy.best s hs c hc c' hc') (huntied s hs c hc c' hc' hother)
    have hne : a.mdp.successors s c ≠ [] := by
      intro hnil
      have hone := hsum s c hn
      rw [hnil, List.map_nil, List.sum_nil] at hone
      apply zero_ne_one hone
    obtain ⟨e, he, hvalue⟩ := exists_le_of_le_expectation (ha.mass_pos s c) hne
      (x := expectation (a.mdp.successors s c) (valuation v)) (by rw [hsum s c hn, one_mul])
    exact ⟨e, he, Or.inl (lt_of_le_of_lt hle (lt_of_lt_of_le hlt hvalue))⟩

end Maximisers

/-- A run without a change to start with has made a round when it has converged. -/
theorem rounds_pos_of_converged {W : Type} (settings : Settings W) {maybe : StateSet}
    {threshold : ℝ} {rounds : Nat} {i : Iterate ℝ} (hstart : i.change = none)
    (h : (i.run threshold (a.iterate settings o maybe) rounds).converged threshold = true) :
  0 < (i.run threshold (a.iterate settings o maybe) rounds).rounds
  := by
  have hround : ∀ i, 0 < (a.iterate settings o maybe i).rounds := by
    intro i
    rw [iterate]
    cases settings.iteration <;> apply Nat.succ_pos
  obtain hnone | hpos := Iterate.run_induction (p := fun i => i.change = none ∨ 0 < i.rounds)
    (fun i _ => Or.inr (hround i)) rounds i (Or.inl hstart)
  · rw [Iterate.converged, hnone] at h
    cases h
  · apply hpos

/-- An iteration that converges has made a round. -/
theorem iterations_pos_of_converge {W : Type} [Precision ℝ W] (settings : Settings W) {d : Decided}
    {solution : Solution ℝ} (h : a.converge settings o d = .ok solution) :
  0 < solution.iterations
  := by
  rw [converge] at h
  split at h
  · next hconverged =>
      cases h
      apply rounds_pos_of_converged settings rfl hconverged
  · cases h

/-- An iteration that converges exports the greedy strategy for its values. -/
theorem strategy_of_converge {W : Type} [Precision ℝ W] (settings : Settings W)
    (hexport : settings.exportStrategy = true) {d : Decided} {solution : Solution ℝ}
    (h : a.converge settings o d = .ok solution) :
  solution.strategy = some (a.greedyStrategy o d.maybe solution.values)
  := by
  rw [converge, hexport] at h
  split at h
  · cases h
    rfl
  · cases h

end Arena

/-! ### The strategy of an answer -/

/-- The states that a query without a bound takes to have probability one. -/
def Checker.certain {V W : Type} [Arithmetic V] (checker : Checker W) (a : Arena V) (u : Until)
    (o : Objective) : StateSet :=
  (a.decided checker.settings (u.resized a.numStates) o).yes

/-- If both players maximise and strategies are exported, then an answer without a bound comes with
a strategy that is greedy for its values.  The strategy is worth them, for the goal of the states
that are taken to have probability one, exactly if it may reach the goal from all states with a
positive value, and it is so if it takes no choice that ties with another one. -/
theorem Checker.exists_strategy {W : Type} [Wide W] [Precision ℝ W] (checker : Checker W)
    {u : Until} {m : Model ℝ} (hm : m.Built) (hsum : m.process.Stochastic)
    (hexport : checker.settings.exportStrategy = true) {solution : Solution ℝ}
    (h : (checker.unboundedUntil m.arena u .max).outcome = .ok solution) :
  ∃ strategy, solution.strategy = some strategy
    ∧ m.arena.Greedy strategy (valuation solution.values)
    ∧ ((∀ s < m.numStates,
        valuation solution.values s ≤ m.arena.worth strategy (checker.certain m.arena u .max) s)
      ↔ ∀ s < m.numStates, 0 < valuation solution.values s →
        ∃ k, 0 < m.arena.reachProbability strategy (checker.certain m.arena u .max) k s)
    ∧ (m.arena.Untied strategy (valuation solution.values) → ∀ s < m.numStates,
      valuation solution.values s ≤ m.arena.worth strategy (checker.certain m.arena u .max) s)
  := by
  have ha := hm.proper_arena
  rw [← m.mdp_arena] at hsum
  rw [← m.numStates_arena]
  obtain ⟨-, h⟩ := checker.unboundedUntil_eq_ok_iff.mp h
  have hmax : ∀ s, m.arena.direction .max s = .max := by
    intro s
    rw [Arena.direction]
    cases m.arena.owner s <;> rfl
  have hclimbs := Arena.climbs_of_converge checker.settings ha hsum hmax h
  have hbracketed := (Arena.bracketed_of_converge checker.settings ha hsum h).2
  have hknown : ∀ s < m.arena.numStates,
      (m.arena.decided checker.settings (u.resized m.arena.numStates) .max).maybe.contains s
        = false →
      valuation solution.values s
        = if (checker.certain m.arena u .max).contains s then 1 else 0 := by
    intro s hs hout
    rw [hbracketed.known s hs hout, Arena.limitValue_known checker.settings ha hsum hs hout]
    rfl
  have hyes : ∀ s,
      (m.arena.decided checker.settings (u.resized m.arena.numStates) .max).maybe.contains s
        = true →
      (checker.certain m.arena u .max).contains s = false :=
    fun s hin => Arena.not_yes_of_contains_maybe checker.settings hin
  have hstrategy := Arena.strategy_of_converge checker.settings hexport h
  have hgreedy := hclimbs.greedy ha hmax
  have hsupports := hclimbs.supports ha hmax hknown hyes
  exact ⟨_, hstrategy, hgreedy, hsupports.le_worth_iff ha hsum hgreedy.legal,
    hclimbs.le_worth_of_untied ha hsum hmax hknown hyes⟩

/-! ### A model with a tie -/

/-- A process of three states.  In state `0` one may stay or gamble for state `1` with probability
one half; the other states have no choices. -/
noncomputable def Mdp.Draft.tied : Mdp.Draft ℝ where
  choices := #[#[⟨.dirac 0, none⟩, ⟨.fair 1 2 (by decide), none⟩], #[], #[]]
  initialStates := [0]

/-- The model of the process with a tie. -/
noncomputable def Model.tied : Model ℝ := .mdp Mdp.Draft.tied.process

/-- The distributions of the process with a tie are exact. -/
theorem Mdp.Draft.exact_tied (s c : Nat) (choice : Choice ℝ) (h : tied.choice? s c = some choice) :
  choice.distribution.Exact tied.numStates
  := by
  have hmem : choice = ⟨.dirac 0, none⟩ ∨ choice = ⟨.fair 1 2 (by decide), none⟩ := by
    simpa [tied] using mem_of_choice?_eq_some h
  obtain rfl | rfl := hmem
  · apply Distribution.exact_dirac (by decide)
  · apply Distribution.exact_fair (by decide) (by decide) (by decide)

/-- The model with a tie can be made. -/
theorem Model.built_tied :
  Model.tied.Built
  := .mdp (Mdp.Draft.build_of_exact (W := Nat) Mdp.Draft.exact_tied).1

/-- The masses of every choice of the model with a tie sum to one. -/
theorem Model.stochastic_tied :
  Model.tied.process.Stochastic
  := (Mdp.Draft.build_of_exact (W := Nat) Mdp.Draft.exact_tied).2

/-- State `1` is to be reached. -/
def Until.tied : Until := ⟨none, .ofList 3 [1]⟩

/-- The formula for the model with a tie is within it. -/
theorem Until.within_tied :
  tied.Within Model.tied.numStates
  := within_of_target (StateSet.within_ofList (by decide))

/-- A checker that makes one round from the target and exports strategies. -/
noncomputable def Checker.exporting : Checker ℝ :=
  ⟨{ hasty.settings with precomputation := false, exportStrategy := true }, .silent⟩

/-- The exporting checker answers the query for the model with a tie. -/
theorem Checker.exists_unboundedUntil_exporting :
  ∃ solution, (exporting.unboundedUntil Model.tied.arena .tied .max
      : Account ℝ ℝ (Solution ℝ)).outcome = .ok solution
  := by
  obtain ⟨solution, h⟩ := Arena.exists_converge Model.built_tied.proper_arena
    Model.stochastic_tied exporting.settings rfl rfl rfl (lt_add_one 1)
  exact ⟨solution, exporting.unboundedUntil_eq_ok_iff.mpr ⟨Until.within_tied, h⟩⟩

/-- The answer of the exporting checker for the model with a tie comes with a strategy. -/
theorem Checker.exists_strategy_tied :
  ∃ solution, (exporting.unboundedUntil Model.tied.arena .tied .max
      : Account ℝ ℝ (Solution ℝ)).outcome = .ok solution
    ∧ ∃ strategy, solution.strategy = some strategy
      ∧ Model.tied.arena.Greedy strategy (valuation solution.values)
      ∧ ((∀ s < Model.tied.numStates, valuation solution.values s
          ≤ Model.tied.arena.worth strategy (exporting.certain Model.tied.arena .tied .max) s)
        ↔ ∀ s < Model.tied.numStates, 0 < valuation solution.values s →
          ∃ k, 0 < Model.tied.arena.reachProbability strategy
            (exporting.certain Model.tied.arena .tied .max) k s)
      ∧ (Model.tied.arena.Untied strategy (valuation solution.values) →
        ∀ s < Model.tied.numStates, valuation solution.values s
          ≤ Model.tied.arena.worth strategy (exporting.certain Model.tied.arena .tied .max) s)
  := by
  obtain ⟨solution, h⟩ := exists_unboundedUntil_exporting
  exact ⟨solution, h, exporting.exists_strategy Model.built_tied Model.stochastic_tied rfl h⟩

/-- In the model with a tie, staying is worth what state `0` is. -/
theorem Model.expectation_tied_stay (v : Nat → ℝ) :
  expectation (Model.tied.arena.mdp.successors 0 0) v = v 0
  := by
  change expectation (Mdp.Draft.tied.process.successors 0 0) v = v 0
  rw [Mdp.Draft.successors_process]
  apply Distribution.expectation_row_dirac

/-- In the model with a tie, gambling is worth half of what the states `1` and `2` are together. -/
theorem Model.expectation_tied_gamble (v : Nat → ℝ) :
  expectation (Model.tied.arena.mdp.successors 0 1) v = (v 1 + v 2) / 2
  := by
  change expectation (Mdp.Draft.tied.process.successors 0 1) v = _
  rw [Mdp.Draft.successors_process]
  apply Distribution.expectation_row_fair (by decide)

/-- In the model with a tie, state `0` reaches the target with probability one half in one step. -/
theorem Model.half_le_stepValue_tied :
  1 / 2 ≤ Model.tied.arena.stepValue (Until.tied.resized 3) .max 1 0
  := by
  have hopen : Model.tied.arena.IsOpen (Until.tied.resized 3) 0 :=
    ⟨by decide, by decide, by decide, by decide⟩
  apply (Arena.le_stepValue_succ_iff 0 hopen).mpr
  refine ⟨1, by decide, ?_⟩
  simp [Model.expectation_tied_gamble, Arena.stepValue_zero, Until.tied]

/-- In an answer for the model with a tie, the value of state `0` is at least one half, and gambling
is not worth more. -/
theorem Checker.valuation_tied {solution : Solution ℝ}
    (h : (exporting.unboundedUntil Model.tied.arena .tied .max).outcome = .ok solution) :
  1 / 2 ≤ valuation solution.values 0
    ∧ (valuation solution.values 1 + valuation solution.values 2) / 2 ≤ 1 / 2
  := by
  have ha := Model.built_tied.proper_arena
  have hsum : Model.tied.arena.mdp.Stochastic := Model.stochastic_tied
  obtain ⟨-, h⟩ := exporting.unboundedUntil_eq_ok_iff.mp h
  have hbracketed := (Arena.bracketed_of_converge exporting.settings ha hsum h).2
  constructor
  · calc 1 / 2
        ≤ Model.tied.arena.stepValue (Until.tied.resized 3) .max 1 0 := Model.half_le_stepValue_tied
      _ ≤ Model.tied.arena.stepValue (Until.tied.resized 3) .max solution.iterations 0 := by
          apply Arena.stepValue_mono ha
          apply Arena.iterations_pos_of_converge exporting.settings h
      _ ≤ valuation solution.values 0 := hbracketed.lower 0 (by decide)
  · have hone := le_trans (hbracketed.upper 1 (by decide)) (Arena.limitValue_le_one ha hsum 1)
    have hzero := hbracketed.upper 2 (by decide)
    rw [Arena.limitValue_eq_zero] at hzero
    · linarith
    · intro k
      apply Arena.stepValue_of_not_isOpen k (by decide) (by decide)
      intro hopen
      apply absurd hopen.choices (by decide)

/-- In the model with a tie, the strategy of an answer stays in state `0` forever, which is worth
less than the answer. -/
theorem Checker.worth_lt_tied :
  Model.tied.Built ∧ Model.tied.process.Stochastic ∧ exporting.settings.exportStrategy = true
    ∧ ∃ solution strategy, (exporting.unboundedUntil Model.tied.arena .tied .max
        : Account ℝ ℝ (Solution ℝ)).outcome = .ok solution
      ∧ solution.strategy = some strategy
      ∧ Model.tied.arena.worth strategy (exporting.certain Model.tied.arena .tied .max) 0
        < valuation solution.values 0
  := by
  refine ⟨Model.built_tied, Model.stochastic_tied, rfl, ?_⟩
  obtain ⟨solution, h⟩ := exists_unboundedUntil_exporting
  obtain ⟨hvalue, hgamble⟩ := valuation_tied h
  have hstrategy := Arena.strategy_of_converge exporting.settings rfl
    (exporting.unboundedUntil_eq_ok_iff.mp h).2
  refine ⟨solution, _, h, hstrategy, ?_⟩
  set strategy := Model.tied.arena.greedyStrategy .max _ solution.values
  have hstay : ∀ c, strategy.choiceAt 0 = some c → c = 0 := by
    intro c hc
    obtain ⟨-, hc, -, hfirst⟩ := Arena.of_choiceAt_greedyStrategy (by decide) hc
    by_contra hother
    have hc : c = 1 := by
      change c < 2 at hc
      omega
    subst hc
    have hbetter := hfirst 0 zero_lt_one
    rw [Model.expectation_tied_stay, Model.expectation_tied_gamble] at hbetter
    apply not_lt_of_ge (le_trans hgamble hvalue) (of_decide_eq_true hbetter)
  have hzero : ∀ k, Model.tied.arena.reachProbability strategy
      (exporting.certain Model.tied.arena .tied .max) k 0 = 0 := by
    intro k
    apply Arena.reachProbability_eq_zero Model.built_tied.proper_arena (p := fun s => s = 0) _ _ k
      (by decide) rfl
    · rintro s - rfl
      decide
    · rintro s - rfl c hc e he
      rw [hstay c hc] at he
      change e ∈ Mdp.Draft.tied.process.successors 0 0 at he
      rw [Mdp.Draft.successors_process] at he
      exact congrArg Prod.fst (List.mem_singleton.mp (Distribution.mem_row.mp he).1)
  rw [Arena.worth]
  simp only [hzero, ciSup_const]
  linarith

end Reachability
