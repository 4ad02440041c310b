import Mathlib
import Reachability.Proofs.Path
import Reachability.Proofs.Progress

/-!
# Strategies that are followed

A strategy takes at most one choice in each state.  A path that follows it ends where it takes
none, and `Arena.reachProbability` is the probability with which such paths reach the states of a
goal within a number of steps.  What the strategy is worth at a state is the probability within
any number of steps (`Arena.worth`).

A strategy supports values if in no state the value is above the expected one of the choice that
is taken.  It is worth these values exactly if it may reach the goal from every state that has a
positive one (`Arena.Supports.le_worth_iff`).
-/

namespace Reachability

/-! ### The choices of a strategy -/

namespace Strategy

/-- The choice that a strategy takes in a state, if it takes one. -/
def choiceAt (strategy : Strategy) (s : Nat) : Option Nat := strategy[s]?.join

/-- The states in which a strategy takes a choice. -/
def acting (strategy : Strategy) : StateSet :=
  .ofList strategy.size ((List.range strategy.size).filter fun s => (strategy.choiceAt s).isSome)

/-- A strategy is legal if it takes only choices that there are. -/
def Legal {V : Type} (a : Arena V) (strategy : Strategy) : Prop :=
  ∀ s < a.numStates, ∀ c, strategy.choiceAt s = some c → c < a.mdp.numChoices s

/-- A state is acting if a choice is taken there. -/
theorem contains_acting (strategy : Strategy) (s : Nat) :
  strategy.acting.contains s = (strategy.choiceAt s).isSome
  := by
  rw [acting, StateSet.contains_ofList, Bool.eq_iff_iff, decide_eq_true_eq, List.mem_filter,
    List.mem_range, and_iff_right_iff_imp]
  intro h
  by_contra hout
  rw [choiceAt, Array.getElem?_eq_none (Nat.le_of_not_lt hout)] at h
  cases h

end Strategy

/-- The plan that takes the choices of a strategy, whatever the states before. -/
def Plan.following (strategy : Strategy) : Plan := fun _ s => (strategy.choiceAt s).getD 0

/-- To reach a goal by states in which a strategy takes a choice. -/
def Until.following (strategy : Strategy) (goal : StateSet) : Until := ⟨some strategy.acting, goal⟩

namespace Arena

variable (a : Arena ℝ) (strategy : Strategy) (goal : StateSet)

/-- The probability of reaching a goal from a state in at most `k` steps if a strategy is
followed. -/
def reachProbability (k s : Nat) : ℝ :=
  a.pathProbability (.following strategy goal) (.following strategy) k s

/-- The probability of reaching a goal from a state in any number of steps if a strategy is
followed. -/
noncomputable def worth (s : Nat) : ℝ := ⨆ k, a.reachProbability strategy goal k s

variable {a strategy goal}

/-! ### A number of steps -/

section Steps

variable {s : Nat} (hs : s < a.numStates)

include hs

/-- In the goal it has been reached. -/
theorem reachProbability_goal (k : Nat) (hgoal : goal.contains s = true) :
  a.reachProbability strategy goal k s = 1
  := pathProbability_target _ k hs hgoal

/-- Where no choice is taken the goal is not reached any more. -/
theorem reachProbability_idle (k : Nat) (hgoal : goal.contains s = false)
    (hidle : strategy.choiceAt s = none) :
  a.reachProbability strategy goal k s = 0
  := by
  apply pathProbability_outside _ k hs hgoal
  apply (strategy.contains_acting s).trans
  rw [hidle, Option.isSome_none]

/-- Outside of the goal it is not reached in no step. -/
theorem reachProbability_zero (hgoal : goal.contains s = false) :
  a.reachProbability strategy goal 0 s = 0
  := by
  apply (pathProbability_zero _ hs).trans
  apply if_neg (Bool.eq_false_iff.mp hgoal)

/-- In one step more the goal is reached with the expected probability of the choice taken. -/
theorem reachProbability_succ (ha : a.mdp.Proper) (k : Nat) (hgoal : goal.contains s = false)
    {c : Nat} (hc : strategy.choiceAt s = some c) :
  a.reachProbability strategy goal (k + 1) s
    = expectation (a.mdp.successors s c) (a.reachProbability strategy goal k)
  := by
  have hacting : (Until.following strategy goal).remains s = true := by
    apply (strategy.contains_acting s).trans
    rw [hc, Option.isSome_some]
  have hplan : Plan.following strategy [] s = c := by
    rw [Plan.following, hc, Option.getD_some]
  have h := pathProbability_succ (.following strategy) ha k hs hgoal hacting
  rw [hplan] at h
  apply h

end Steps

/-- The goal is not reached from states outside of it that are not left. -/
theorem reachProbability_eq_zero (ha : a.mdp.Proper) {p : Nat → Prop}
    (hgoal : ∀ s < a.numStates, p s → goal.contains s = false)
    (hclosed : ∀ s < a.numStates, p s → ∀ c, strategy.choiceAt s = some c →
      ∀ e ∈ a.mdp.successors s c, p e.1)
    (k : Nat) {s : Nat} (hs : s < a.numStates) (hp : p s) :
  a.reachProbability strategy goal k s = 0
  := by
  induction k generalizing s with
  | zero => apply reachProbability_zero hs (hgoal s hs hp)
  | succ k ih =>
      cases hchoice : strategy.choiceAt s with
      | none => apply reachProbability_idle hs _ (hgoal s hs hp) hchoice
      | some c =>
          rw [reachProbability_succ hs ha k (hgoal s hs hp) hchoice,
            expectation_congr (w := fun _ => 0 * 0), expectation_mul_left, zero_mul]
          intro e he
          rw [zero_mul]
          apply ih (ha.lt_numStates s c e he) (hclosed s hs hp c hchoice e he)

section Legal

variable (ha : a.mdp.Proper) (hsum : a.mdp.Stochastic) (hlegal : strategy.Legal a)

include ha hsum hlegal

/-- The probability of reaching the goal lies between zero and one. -/
theorem reachProbability_mem_Icc (k : Nat) {s : Nat} (hs : s < a.numStates) :
  a.reachProbability strategy goal k s ∈ Set.Icc 0 1
  := by
  induction k generalizing s with
  | zero =>
      cases hgoal : goal.contains s with
      | true => simp [reachProbability_goal hs 0 hgoal]
      | false => simp [reachProbability_zero hs hgoal]
  | succ k ih =>
      cases hgoal : goal.contains s with
      | true => simp [reachProbability_goal hs _ hgoal]
      | false =>
          cases hchoice : strategy.choiceAt s with
          | none => simp [reachProbability_idle hs _ hgoal hchoice]
          | some c =>
              have hvalues := fun e he => ih (ha.lt_numStates s c e he)
              rw [reachProbability_succ hs ha k hgoal hchoice]
              constructor
              · apply expectation_nonneg (ha.mass_pos s c) fun e he => (hvalues e he).1
              · apply expectation_le_const (ha.mass_pos s c) (hsum s c (hlegal s hs c hchoice))
                  fun e he => (hvalues e he).2

/-- In more steps the goal is not reached with less probability. -/
theorem reachProbability_le_succ (k : Nat) {s : Nat} (hs : s < a.numStates) :
  a.reachProbability strategy goal k s ≤ a.reachProbability strategy goal (k + 1) s
  := by
  cases hgoal : goal.contains s with
  | true => rw [reachProbability_goal hs _ hgoal, reachProbability_goal hs _ hgoal]
  | false =>
      induction k generalizing s with
      | zero =>
          rw [reachProbability_zero hs hgoal]
          apply (reachProbability_mem_Icc ha hsum hlegal 1 hs).1
      | succ k ih =>
          cases hchoice : strategy.choiceAt s with
          | none =>
              rw [reachProbability_idle hs _ hgoal hchoice,
                reachProbability_idle hs _ hgoal hchoice]
          | some c =>
              rw [reachProbability_succ hs ha k hgoal hchoice,
                reachProbability_succ hs ha (k + 1) hgoal hchoice]
              apply expectation_mono (ha.mass_pos s c)
              intro e he
              have ht := ha.lt_numStates s c e he
              cases hreached : goal.contains e.1 with
              | true =>
                  rw [reachProbability_goal ht _ hreached, reachProbability_goal ht _ hreached]
              | false => apply ih ht hreached

/-! ### Any number of steps -/

/-- What a strategy is worth is the least upper bound of the probabilities in a number of
steps. -/
theorem isLUB_worth {s : Nat} (hs : s < a.numStates) :
  IsLUB (Set.range fun k => a.reachProbability strategy goal k s) (a.worth strategy goal s)
  := by
  apply isLUB_ciSup
  use 1
  rintro _ ⟨k, rfl⟩
  apply (reachProbability_mem_Icc ha hsum hlegal k hs).2

/-- The worth of a strategy is not negative. -/
theorem worth_nonneg {s : Nat} (hs : s < a.numStates) :
  0 ≤ a.worth strategy goal s
  := by
  apply le_trans (reachProbability_mem_Icc ha hsum hlegal 0 hs).1
  apply (isLUB_worth ha hsum hlegal hs).1 ⟨0, rfl⟩

/-- A strategy is worth something at a state if the goal may be reached from there. -/
theorem worth_pos_iff {s : Nat} (hs : s < a.numStates) :
  0 < a.worth strategy goal s ↔ ∃ k, 0 < a.reachProbability strategy goal k s
  := by
  rw [lt_isLUB_iff (isLUB_worth ha hsum hlegal hs), Set.exists_range_iff]

omit ha hsum hlegal in
/-- In the goal the worth of a strategy is one. -/
theorem worth_goal {s : Nat} (hs : s < a.numStates) (hgoal : goal.contains s = true) :
  a.worth strategy goal s = 1
  := by
  rw [worth]
  simp only [reachProbability_goal hs _ hgoal, ciSup_const]

/-- The expected worth of the choice that is taken is not above the worth at its state. -/
theorem expectation_worth_le {s c : Nat} (hs : s < a.numStates) (hgoal : goal.contains s = false)
    (hc : strategy.choiceAt s = some c) :
  expectation (a.mdp.successors s c) (a.worth strategy goal) ≤ a.worth strategy goal s
  := by
  have htendsto : Filter.Tendsto
      (fun k => expectation (a.mdp.successors s c) (a.reachProbability strategy goal k))
      Filter.atTop (nhds (expectation (a.mdp.successors s c) (a.worth strategy goal))) := by
    simp only [expectation_real]
    apply tendsto_list_sum
    intro e he
    have ht := ha.lt_numStates s c e he
    apply Filter.Tendsto.const_mul
    apply tendsto_atTop_isLUB _ (isLUB_worth ha hsum hlegal ht)
    apply monotone_nat_of_le_succ
    intro k
    apply reachProbability_le_succ ha hsum hlegal k ht
  apply le_of_tendsto' htendsto
  intro k
  rw [← reachProbability_succ hs ha k hgoal hc]
  apply (isLUB_worth ha hsum hlegal hs).1 ⟨k + 1, rfl⟩

end Legal

/-! ### Values that a strategy supports -/

/-- A strategy supports values if they are at most one in a goal, at most zero where it takes no
choice outside of the goal, and at most the expected ones of the choices that it takes. -/
structure Supports (a : Arena ℝ) (strategy : Strategy) (goal : StateSet) (v : Nat → ℝ) : Prop where
  reached : ∀ s < a.numStates, goal.contains s = true → v s ≤ 1
  idle : ∀ s < a.numStates, goal.contains s = false → strategy.choiceAt s = none → v s ≤ 0
  step : ∀ s < a.numStates, goal.contains s = false →
    ∀ c, strategy.choiceAt s = some c → v s ≤ expectation (a.mdp.successors s c) v

/-- A strategy is worth the values that it supports if it may reach the goal from all states with a
positive value, and only then. -/
theorem Supports.le_worth_iff {v : Nat → ℝ} (h : a.Supports strategy goal v) (ha : a.mdp.Proper)
    (hsum : a.mdp.Stochastic) (hlegal : strategy.Legal a) :
  (∀ s < a.numStates, v s ≤ a.worth strategy goal s)
    ↔ ∀ s < a.numStates, 0 < v s → ∃ k, 0 < a.reachProbability strategy goal k s
  := by
  constructor
  · intro hle s hs hpos
    apply (worth_pos_iff ha hsum hlegal hs).mp (lt_of_lt_of_le hpos (hle s hs))
  · intro hreached s hs
    by_contra hlt
    -- Where the values are furthest above the worth, so they are at all successors.
    obtain ⟨t, ht, hmax⟩ := Finset.exists_max_image (Finset.range a.numStates)
      (fun s => v s - a.worth strategy goal s) ⟨s, Finset.mem_range.mpr hs⟩
    simp only [Finset.mem_range] at ht hmax
    have hgap : 0 < v t - a.worth strategy goal t :=
      lt_of_lt_of_le (sub_pos.mpr (lt_of_not_ge hlt)) (hmax s hs)
    have houtside : ∀ s < a.numStates,
        v s - a.worth strategy goal s = v t - a.worth strategy goal t →
        goal.contains s = false := by
      intro s hs hfar
      rw [Bool.eq_false_iff]
      intro hgoal
      have hone := h.reached s hs hgoal
      rw [worth_goal hs hgoal] at hfar
      linarith
    have hclosed : ∀ s < a.numStates,
        v s - a.worth strategy goal s = v t - a.worth strategy goal t →
        ∀ c, strategy.choiceAt s = some c → ∀ e ∈ a.mdp.successors s c,
          v e.1 - a.worth strategy goal e.1 = v t - a.worth strategy goal t := by
      intro s hs hfar c hc
      have hgoal := houtside s hs hfar
      apply eq_of_le_expectation (v := fun s => v s - a.worth strategy goal s) (ha.mass_pos s c)
        (hsum s c (hlegal s hs c hc))
      · intro e he
        apply hmax e.1 (ha.lt_numStates s c e he)
      · rw [← hfar, expectation_sub]
        apply sub_le_sub (h.step s hs hgoal c hc)
        apply expectation_worth_le ha hsum hlegal hs hgoal hc
    obtain ⟨k, hk⟩ := hreached t ht
      (lt_of_lt_of_le hgap (sub_le_self _ (worth_nonneg ha hsum hlegal ht)))
    rw [reachProbability_eq_zero ha houtside hclosed k ht rfl] at hk
    apply lt_irrefl 0 hk

/-- A state is behind another one if its value and rank come first in the order in which larger
values come later, and lower ranks do among equal values. -/
theorem behind_iff {v : Nat → ℝ} {rank : Nat → Nat} {s t : Nat} :
  Behind v rank s t
    ↔ toLex (v s, OrderDual.toDual (rank s)) < toLex (v t, OrderDual.toDual (rank t))
  := by
  rw [Behind, Prod.Lex.toLex_lt_toLex, OrderDual.toDual_lt_toDual]

/-- If each state outside of the goal that has a positive value may be left for one that is ahead,
then the goal may be reached from all states with a positive value. -/
theorem Supports.exists_reachProbability_pos {v : Nat → ℝ} (h : a.Supports strategy goal v)
    (ha : a.mdp.Proper) (hsum : a.mdp.Stochastic) (hlegal : strategy.Legal a) (rank : Nat → Nat)
    (hbehind : ∀ s < a.numStates, goal.contains s = false → 0 < v s →
      ∀ c, strategy.choiceAt s = some c → ∃ e ∈ a.mdp.successors s c, Behind v rank s e.1)
    {s : Nat} (hs : s < a.numStates) (hpos : 0 < v s) :
  ∃ k, 0 < a.reachProbability strategy goal k s
  := by
  classical
  by_contra hnone
  -- Of the states that cannot reach the goal, no other one is ahead of the foremost.
  obtain ⟨t, hmem, hmax⟩ := Finset.exists_max_image
    ((Finset.range a.numStates).filter fun s =>
      0 < v s ∧ ¬ ∃ k, 0 < a.reachProbability strategy goal k s)
    (fun s => toLex (v s, OrderDual.toDual (rank s)))
    ⟨s, Finset.mem_filter.mpr ⟨Finset.mem_range.mpr hs, hpos, hnone⟩⟩
  simp only [Finset.mem_filter, Finset.mem_range] at hmem hmax
  obtain ⟨ht, htpos, htnone⟩ := hmem
  have hgoal : goal.contains t = false := by
    rw [Bool.eq_false_iff]
    intro hgoal
    apply htnone
    use 0
    rw [reachProbability_goal ht 0 hgoal]
    apply zero_lt_one
  cases hchoice : strategy.choiceAt t with
  | none => apply not_lt_of_ge (h.idle t ht hgoal hchoice) htpos
  | some c =>
      obtain ⟨e, he, hahead⟩ := hbehind t ht hgoal htpos c hchoice
      have hlt := ha.lt_numStates t c e he
      have hepos : 0 < v e.1 := by
        obtain hlarger | ⟨hsame, -⟩ := hahead
        · apply lt_trans htpos hlarger
        · apply hsame ▸ htpos
      have hreached : ∃ k, 0 < a.reachProbability strategy goal k e.1 := by
        by_contra hnone
        apply not_lt_of_ge (hmax e.1 ⟨hlt, hepos, hnone⟩) (behind_iff.mp hahead)
      obtain ⟨k, hk⟩ := hreached
      apply htnone
      use k + 1
      rw [reachProbability_succ ht ha k hgoal hchoice]
      apply (expectation_pos_iff (ha.mass_pos t c) _).mpr ⟨e, he, hk⟩
      intro e he
      apply (reachProbability_mem_Icc ha hsum hlegal k (ha.lt_numStates t c e he)).1

end Arena

end Reachability
