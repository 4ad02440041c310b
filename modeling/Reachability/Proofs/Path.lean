import Mathlib
import Reachability.Proofs.Bounded

/-!
# Paths and plans

A `Plan` makes a choice at a state and may look at all states before it; one that is given by
steps looks only at their number.  Once the choices are planned, the target is reached with the
probability `Arena.pathProbability`, the sum over all paths that reach it of the products of their
masses.

The values of a number of steps are those of the game that the two directions play by plans:
choices that are best by the values of the steps left guarantee the value to each side, whatever
the plan of the other (`Arena.improves_pathProbability`).
-/

namespace Reachability

/-! ### Plans -/

/-- A plan makes a choice at a state, knowing the states before it. -/
abbrev Plan := List Nat → Nat → Nat

namespace Plan

/-- The plan of choices that are given by the number of steps before. -/
def ofSteps (choices : Nat → Nat → Nat) : Plan := fun before s => choices before.length s

/-- The rest of a plan after a first state. -/
def after (plan : Plan) (s : Nat) : Plan := fun before => plan (s :: before)

/-- The plan whose choices are made by one plan where the owners maximise and by another one where
they minimise. -/
def join {V : Type} (a : Arena V) (o : Objective) (maximiser minimiser : Plan) : Plan :=
  fun before s =>
    match a.direction o s with
    | .max => maximiser before s
    | .min => minimiser before s

/-- A plan is legal if it makes a choice that there is, unless there is none. -/
def Legal {V : Type} (a : Arena V) (plan : Plan) : Prop :=
  ∀ before s, 0 < a.mdp.numChoices s → plan before s < a.mdp.numChoices s

/-- The rest of a legal plan after a first state is legal. -/
theorem Legal.after {V : Type} {a : Arena V} {plan : Plan} (h : plan.Legal a) (s : Nat) :
  (plan.after s).Legal a
  := by
  intro before t
  apply h (s :: before) t

/-- The plan that two legal plans make together is legal. -/
theorem Legal.join {V : Type} {a : Arena V} {o : Objective} {maximiser minimiser : Plan}
    (h : maximiser.Legal a) (h' : minimiser.Legal a) :
  (Plan.join a o maximiser minimiser).Legal a
  := by
  intro before s hn
  rw [Plan.join]
  split
  · apply h before s hn
  · apply h' before s hn

end Plan

/-! ### Paths -/

/-- A path of `j` steps through states of the model. -/
abbrev Path (numStates j : Nat) := Fin (j + 1) → Fin numStates

/-- A path reaches the target at its end, having visited only states that remain and are not in
the target before. -/
def Until.ReachedBy (u : Until) {n j : Nat} (p : Path n j) : Prop :=
  u.target.contains (p (Fin.last j)) = true
    ∧ ∀ i : Fin j, u.target.contains (p i.castSucc) = false ∧ u.remains (p i.castSucc) = true

instance (u : Until) {n j : Nat} (p : Path n j) : Decidable (u.ReachedBy p) :=
  inferInstanceAs (Decidable (_ ∧ _))

namespace Arena

variable (a : Arena ℝ)

/-- The mass that a choice of a state has on a successor. -/
def mass (s c t : Nat) : ℝ := ((a.mdp.successors s c).lookup t).getD 0

/-- The product of the masses along a path whose choices are made by a plan. -/
def weight (plan : Plan) {j : Nat} (p : Path a.numStates j) : ℝ :=
  ∏ i : Fin j,
    a.mass (p i.castSucc) (plan ((List.ofFn fun i => (p i : Nat)).take i) (p i.castSucc)) (p i.succ)

variable (u : Until)

/-- The probability that a plan reaches the target from a state in `j` steps. -/
def pathProbabilityAt (plan : Plan) (j s : Nat) : ℝ :=
  ∑ p : Path a.numStates j with (p 0 : Nat) = s ∧ u.ReachedBy p, a.weight plan p

/-- The probability that a plan reaches the target from a state in at most `k` steps. -/
def pathProbability (plan : Plan) (k s : Nat) : ℝ :=
  ∑ j ∈ Finset.range (k + 1), a.pathProbabilityAt u plan j s

variable {a u}

/-! ### The masses of a choice -/

/-- The expected value of a choice of a proper process is the sum over all states of their masses
times their values. -/
theorem sum_mass_mul (ha : a.mdp.Proper) (s c : Nat) (v : Nat → ℝ) :
  ∑ t : Fin a.numStates, a.mass s c t * v t = expectation (a.mdp.successors s c) v
  := by
  have hdistinct : ((a.mdp.successors s c).map Prod.fst).Nodup :=
    List.pairwise_map.mpr ((ha.pairwise s c).imp fun h => Nat.ne_of_lt h)
  rw [← sum_lookup_mul (ha.lt_numStates s c) hdistinct, Finset.sum_range]
  rfl

/-! ### The first step of a path -/

/-- The weight of a path is the mass of its first step times the weight of the rest. -/
theorem weight_cons (plan : Plan) {j : Nat} (s : Fin a.numStates) (p : Path a.numStates j) :
  a.weight plan (Fin.cons s p : Path a.numStates (j + 1))
    = a.mass s (plan [] s) (p 0) * a.weight (plan.after s) p
  := by
  have hstates : (List.ofFn fun i => ((Fin.cons s p : Path a.numStates (j + 1)) i : Nat))
      = (s : Nat) :: List.ofFn fun i => (p i : Nat) := by
    rw [List.ofFn_succ]
    rfl
  rw [weight, weight, Fin.prod_univ_succ, hstates]
  rfl

/-- A path reaches the target by its rest if its first state remains and is not in the target. -/
theorem reachedBy_cons {j : Nat} (s : Fin a.numStates) (p : Path a.numStates j) :
  u.ReachedBy (Fin.cons s p : Path a.numStates (j + 1))
    ↔ (u.target.contains s = false ∧ u.remains s = true) ∧ u.ReachedBy p
  := by
  rw [Until.ReachedBy, Fin.forall_fin_succ]
  apply and_left_comm

/-- A sum over paths is one over the first state and the rest of the path. -/
theorem sum_path {n j : Nat} (f : Path n (j + 1) → ℝ) :
  ∑ p, f p = ∑ s : Fin n, ∑ p : Path n j, f (Fin.cons s p)
  := by
  rw [← (Fin.consEquiv fun _ => Fin n).sum_comp, Fintype.sum_prod_type]
  rfl

/-- A sum over the paths that reach the target may be taken by their first states. -/
theorem sum_mul_weight (plan : Plan) (j : Nat) (f : Nat → ℝ) :
  ∑ p : Path a.numStates j with u.ReachedBy p, f (p 0) * a.weight plan p
    = ∑ t : Fin a.numStates, f t * a.pathProbabilityAt u plan j t
  := by
  rw [← Finset.sum_fiberwise _ fun p : Path a.numStates j => p 0]
  apply Finset.sum_congr rfl
  intro t _
  rw [pathProbabilityAt, Finset.mul_sum, Finset.filter_filter]
  simp only [and_comm, Fin.ext_iff]
  apply Finset.sum_congr rfl
  intro p hp
  rw [Finset.mem_filter] at hp
  rw [hp.2.1]

section Steps

variable (plan : Plan) {s : Nat}

/-- In no step exactly the target states reach the target. -/
theorem pathProbabilityAt_zero (hs : s < a.numStates) :
  a.pathProbabilityAt u plan 0 s = if u.target.contains s then 1 else 0
  := by
  rw [pathProbabilityAt, Finset.sum_filter, Finset.sum_eq_single fun _ => ⟨s, hs⟩]
  · simp [Until.ReachedBy, weight]
  · intro p _ hp
    apply if_neg
    rintro ⟨hstart, -⟩
    apply hp
    funext i
    rw [Fin.fin_one_eq_zero i, Fin.ext_iff, hstart]
  · intro h
    exact absurd (Finset.mem_univ _) h

/-- In one step more, a state that remains and is not in the target reaches the target from its
successors. -/
theorem pathProbabilityAt_succ (j : Nat) (hs : s < a.numStates) :
  a.pathProbabilityAt u plan (j + 1) s
    = if u.target.contains s = false ∧ u.remains s = true then
        ∑ t : Fin a.numStates, a.mass s (plan [] s) t * a.pathProbabilityAt u (plan.after s) j t
      else 0
  := by
  rw [pathProbabilityAt, Finset.sum_filter, sum_path]
  simp only [Fin.cons_zero, weight_cons, reachedBy_cons]
  rw [Finset.sum_eq_single ⟨s, hs⟩]
  · rw [← sum_mul_weight, Finset.sum_filter]
    split
    · next hopen => simp only [hopen, and_self, true_and]
    · next hopen => simp only [hopen, false_and, and_false, if_false, Finset.sum_const_zero]
  · intro t _ ht
    apply Finset.sum_eq_zero
    intro p _
    apply if_neg
    rintro ⟨h, -⟩
    apply ht (Fin.ext h)
  · intro h
    exact absurd (Finset.mem_univ _) h

/-- In at most one step more, a state that remains and is not in the target reaches the target
with the expected probability of its successors. -/
theorem pathProbability_succ (ha : a.mdp.Proper) (k : Nat) (hs : s < a.numStates)
    (htarget : u.target.contains s = false) (hremains : u.remains s = true) :
  a.pathProbability u plan (k + 1) s
    = expectation (a.mdp.successors s (plan [] s)) (a.pathProbability u (plan.after s) k)
  := by
  rw [← sum_mass_mul ha, pathProbability, Finset.sum_range_succ', pathProbabilityAt_zero plan hs,
    if_neg (Bool.eq_false_iff.mp htarget), add_zero]
  simp only [pathProbabilityAt_succ plan _ hs, htarget, hremains, and_self, if_true,
    pathProbability, Finset.mul_sum]
  apply Finset.sum_comm

/-- In at most no step exactly the target states reach the target. -/
theorem pathProbability_zero (hs : s < a.numStates) :
  a.pathProbability u plan 0 s = if u.target.contains s then 1 else 0
  := by
  rw [pathProbability, Finset.sum_range_one, pathProbabilityAt_zero plan hs]

/-- From a target state the target is reached in no step, and only so. -/
theorem pathProbability_target (k : Nat) (hs : s < a.numStates)
    (htarget : u.target.contains s = true) :
  a.pathProbability u plan k s = 1
  := by
  rw [pathProbability, Finset.sum_range_succ', pathProbabilityAt_zero plan hs, if_pos htarget]
  simp only [pathProbabilityAt_succ plan _ hs, htarget, Bool.true_eq_false, false_and, if_false,
    Finset.sum_const_zero, zero_add]

/-- From a state that does not remain and is not in the target, the target is not reached. -/
theorem pathProbability_outside (k : Nat) (hs : s < a.numStates)
    (htarget : u.target.contains s = false) (hremains : u.remains s = false) :
  a.pathProbability u plan k s = 0
  := by
  rw [pathProbability, Finset.sum_range_succ', pathProbabilityAt_zero plan hs]
  simp only [pathProbabilityAt_succ plan _ hs, htarget, hremains, Bool.false_eq_true, and_false,
    if_false, Finset.sum_const_zero, zero_add]

end Steps

/-! ### The best steps -/

variable (a u)

/-- The choice that is best at a state after `i` of `k` steps, by the values of the steps left
after it. -/
noncomputable def bestStep (o : Objective) (k i s : Nat) : Nat :=
  ((a.update none o (a.stepValue u o (k - (i + 1))) s).2).getD 0

/-- A plan makes the best choices of `k` steps where the owner has the given direction. -/
def Follows (o : Objective) (d : Direction) (k : Nat) (plan : Plan) : Prop :=
  ∀ before s, a.direction o s = d → plan before s = a.bestStep u o k before.length s

variable {a u} {o : Objective}

/-- A best choice is one that there is. -/
theorem legal_bestStep (k : Nat) :
  (Plan.ofSteps (a.bestStep u o k)).Legal a
  := by
  intro before s hn
  obtain ⟨c, hc, hupdate, -⟩ := a.exists_update (o := o) hn
    (a.stepValue u o (k - (before.length + 1)))
  rw [Plan.ofSteps, bestStep, hupdate]
  apply hc

/-- What is left after a first state of a plan that makes the best choices makes those of the
steps left. -/
theorem Follows.after {d : Direction} {k : Nat} {plan : Plan} (h : a.Follows u o d (k + 1) plan)
    (s : Nat) :
  a.Follows u o d k (plan.after s)
  := by
  intro before t ht
  rw [Plan.after, h (s :: before) t ht, bestStep, bestStep, List.length_cons,
    Nat.add_sub_add_right]

/-- If the best choices are made where the owners maximise, then the plan that results makes them
for that direction. -/
theorem follows_join_max {k : Nat} (plan : Plan) :
  a.Follows u o .max k (.join a o (.ofSteps (a.bestStep u o k)) plan)
  := by
  intro before s hs
  rw [Plan.join, hs]
  rfl

/-- If the best choices are made where the owners minimise, then the plan that results makes them
for that direction. -/
theorem follows_join_min {k : Nat} (plan : Plan) :
  a.Follows u o .min k (.join a o plan (.ofSteps (a.bestStep u o k)))
  := by
  intro before s hs
  rw [Plan.join, hs]
  rfl

/-- At a state that is to be updated, a direction whose plan makes the best choices is not worse
off than by the updated value. -/
theorem Follows.improves_update {d : Direction} {k : Nat} {plan : Plan}
    (h : a.Follows u o d (k + 1) plan) (hlegal : plan.Legal a) (s : Nat) :
  d.improves (a.update none o (a.stepValue u o k) s).1
    (expectation (a.mdp.successors s (plan [] s)) (a.stepValue u o k)) = false
  := by
  obtain hn | hn := Nat.eq_zero_or_pos (a.mdp.numChoices s)
  · rw [update_fst, Mdp.successors_eq_nil (hn.trans_le (Nat.zero_le _)), hn,
      Direction.optimum_zero, expectation_nil]
    apply d.improves_self
  · obtain ⟨c, -, hupdate, hunbeaten⟩ := a.exists_update (o := o) hn (a.stepValue u o k)
    rw [hupdate]
    by_cases hd : a.direction o s = d
    · have hbest : plan [] s = c := by
        rw [h [] s hd, bestStep, List.length_nil, Nat.add_sub_cancel, hupdate, Option.getD_some]
      rw [hbest]
      apply d.improves_self
    · rw [Direction.improves_swap (Ne.symm hd)]
      apply hunbeaten _ (hlegal [] s hn)

/-- A direction whose plan makes the best choices is not worse off than by the values of the
steps, whatever the choices of the other. -/
theorem improves_pathProbability (ha : a.mdp.Proper) (d : Direction) (k : Nat) {plan : Plan}
    (hlegal : plan.Legal a) (hfollows : a.Follows u o d k plan) {s : Nat} (hs : s < a.numStates) :
  d.improves (a.stepValue u o k s) (a.pathProbability u plan k s) = false
  := by
  induction k generalizing plan s with
  | zero =>
      rw [stepValue_zero, pathProbability_zero plan hs]
      apply d.improves_self
  | succ k ih =>
      cases htarget : u.target.contains s with
      | true =>
          rw [stepValue_target _ htarget, pathProbability_target plan _ hs htarget]
          apply d.improves_self
      | false =>
          cases hremains : u.remains s with
          | false =>
              rw [stepValue_outside _ htarget hremains,
                pathProbability_outside plan _ hs htarget hremains]
              apply d.improves_self
          | true =>
              have hrest := improves_expectation (ha.mass_pos s (plan [] s)) fun e he =>
                ih (hlegal.after s) (hfollows.after s) (ha.lt_numStates s _ e he)
              rw [pathProbability_succ plan ha k hs htarget hremains, stepValue_succ,
                advance_remains _ _ _ htarget hremains]
              apply d.improves_trans (hfollows.improves_update hlegal s) hrest

end Arena

/-- Whatever the settings, a checker answers a query with a bound of `k` steps with the values of
the game of `k` steps: there are choices by steps for each direction that guarantee it the value
at every state, whatever the plan of the other one. -/
theorem Checker.exists_optimal_steps {W : Type} (checker : Checker W) {u : Until} {o : Objective}
    {m : Model ℝ} (hm : m.Built) (hu : u.Within m.numStates) {bound : StepBound} {k : Nat}
    (hbound : bound = ⟨k, false⟩ ∨ bound = ⟨k + 1, true⟩) :
  ∃ answer, (checker.boundedUntil m.arena u bound o : Account ℝ W (Solution ℝ)).outcome = .ok answer
    ∧ answer.values.size = m.numStates
    ∧ ∃ maximiser minimiser : Nat → Nat → Nat,
      (Plan.ofSteps maximiser).Legal m.arena ∧ (Plan.ofSteps minimiser).Legal m.arena
      ∧ ∀ s < m.numStates, ∀ plan : Plan, plan.Legal m.arena →
        valuation answer.values s
          ≤ m.arena.pathProbability u (.join m.arena o (.ofSteps maximiser) plan) k s
        ∧ m.arena.pathProbability u (.join m.arena o plan (.ofSteps minimiser)) k s
          ≤ valuation answer.values s
  := by
  have ha := hm.proper_arena
  rw [← m.numStates_arena] at hu ⊢
  obtain ⟨answer, hanswer, hsize, hvalues⟩ := checker.exists_boundedUntil (o := o) ha hu hbound
  have hbest : (Plan.ofSteps (m.arena.bestStep u o k)).Legal m.arena := Arena.legal_bestStep k
  refine ⟨answer, hanswer, hsize, m.arena.bestStep u o k, m.arena.bestStep u o k, hbest, hbest, ?_⟩
  intro s hs plan hplan
  rw [hvalues s hs]
  constructor
  · have h := Arena.improves_pathProbability ha .max k (hbest.join hplan)
      (Arena.follows_join_max plan) hs
    rw [Direction.improves, decide_eq_false_iff_not, not_lt] at h
    apply h
  · have h := Arena.improves_pathProbability ha .min k (hplan.join hbest)
      (Arena.follows_join_min plan) hs
    rw [Direction.improves, decide_eq_false_iff_not, not_lt] at h
    apply h

/-- The sample query within two steps is answered with the values of the game of two steps. -/
theorem Checker.exists_optimal_steps_sample :
  ∃ answer, (sample.boundedUntil Model.sample.arena .sample ⟨3, true⟩ .opposed
      : Account ℝ ℝ (Solution ℝ)).outcome = .ok answer
    ∧ answer.values.size = Model.sample.numStates
    ∧ ∃ maximiser minimiser : Nat → Nat → Nat,
      (Plan.ofSteps maximiser).Legal Model.sample.arena
      ∧ (Plan.ofSteps minimiser).Legal Model.sample.arena
      ∧ ∀ s < Model.sample.numStates, ∀ plan : Plan, plan.Legal Model.sample.arena →
        valuation answer.values s
          ≤ Model.sample.arena.pathProbability .sample
            (.join Model.sample.arena .opposed (.ofSteps maximiser) plan) 2 s
        ∧ Model.sample.arena.pathProbability .sample
            (.join Model.sample.arena .opposed plan (.ofSteps minimiser)) 2 s
          ≤ valuation answer.values s
  := sample.exists_optimal_steps Model.built_sample Until.within_sample (Or.inr rfl)

end Reachability
