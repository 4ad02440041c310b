import Mathlib
import Reachability.Proofs.Loops
import Reachability.Proofs.Weights

/-!
# The loop that adds up Poisson weights

The loop that adds up the weights for a rate below the limit of the direct method has no bound on
its passes.  In exact arithmetic it ends all the same, since the weights add up to one, and the fuel
that the computation is given does not cut it short
(`PoissonWeights.exists_loopEnds_compute`).
-/

namespace Reachability

namespace PoissonWeights

variable {rate underflow accuracy : ℝ}

/-- The state of the loop that adds up weights when it has got to `r` jumps. -/
noncomputable def extendState (rate : ℝ) (r : Nat) : Nat × ℝ × PoissonWeights ℝ :=
  (r, jumpProbability rate r, upTo rate r)

/-- The loop that adds up weights makes its passes at all numbers of jumps up to the first one at
which the weights can end. -/
theorem loopEnds_extendPass (hrate : 0 < rate) {desired : ℝ} {r : Nat}
    (hr : IsLeast {i | Ends rate underflow desired i} r) :
  LoopEnds (fun state outcome => extendPass rate underflow desired state = outcome)
    (extendState rate 0) ((List.range (r + 1)).map (extendState rate)) (extendState rate r)
  := by
  apply LoopEnds.of_steps
  · rintro state o o' rfl rfl
    rfl
  · intro i hi
    apply (extendPass_upTo hrate i).2
    intro hends
    apply not_le_of_gt hi (hr.2 hends)
  · apply (extendPass_upTo hrate r).1 hr.1

/-- Weights are added up from no jump on if they are the probabilities of no jump, one jump and so on
together with their sum, and end with the least number of jumps with which they sum to one but for
half the accuracy, or which is above the rate such that the next one is below the underflow
threshold. -/
structure AddedUp (w : PoissonWeights ℝ) (rate underflow accuracy : ℝ) : Prop where
  left : w.left = 0
  size : w.weights.size = w.right + 1
  weights : ∀ i ≤ w.right, w.weights[i]? = some (Real.exp (-rate) * rate ^ i / i.factorial)
  total : w.total = ∑ i ∈ Finset.range (w.right + 1), Real.exp (-rate) * rate ^ i / i.factorial
  right : IsLeast {r : Nat | 1 - accuracy / 2
      ≤ ∑ i ∈ Finset.range (r + 1), Real.exp (-rate) * rate ^ i / i.factorial
    ∨ rate < r ∧ Real.exp (-rate) * rate ^ (r + 1) / (r + 1).factorial < underflow} w.right

/-- The first probabilities are added up if they end at the least number of jumps at which they
can. -/
theorem addedUp_upTo {r : Nat} (hr : IsLeast {i | Ends rate underflow (1 - accuracy / 2) i} r) :
  (upTo rate r).AddedUp rate underflow accuracy
  := by
  constructor
  · rfl
  · rw [right_upTo]
    simp [upTo]
  · intro i hi
    rw [right_upTo] at hi
    have hlt : i < r + 1 := Nat.lt_succ_of_le hi
    simp [upTo, hlt, jumpProbability]
  · rw [right_upTo]
    rfl
  · rw [right_upTo]
    exact hr

/-- For a positive rate below the limit of the direct method, a positive accuracy and an underflow
threshold that the weight of no jump is not below, the loop that adds up weights ends, after as many
passes as there are weights.  The weights that it ends with are added up from no jump on, and they
are those that are computed. -/
theorem exists_loopEnds_compute (overflow : ℝ) (hrate : 0 < rate) (hlimit : rate < 400)
    (hunderflow : 0 ≤ underflow) (hfirst : underflow ≤ Real.exp (-rate))
    (haccuracy : 0 < accuracy) :
  ∃ (w : PoissonWeights ℝ) (last : ℝ) (visited : List (Nat × ℝ × PoissonWeights ℝ)),
    LoopEnds (fun state outcome => extendPass rate underflow (1 - accuracy / 2) state = outcome)
        (0, Real.exp (-rate), ⟨0, #[Real.exp (-rate)], Real.exp (-rate)⟩) visited (w.right, last, w)
      ∧ visited.length = w.weights.size
      ∧ w.AddedUp rate underflow accuracy
      ∧ (compute rate underflow overflow accuracy : Except (CheckError ℝ ℝ) _) = .ok w
  := by
  obtain ⟨r, hdirect, hleast⟩ := exists_direct_eq hrate haccuracy hfirst
  have hends := loopEnds_extendPass hrate hleast
  rw [extendState, upTo_zero, jumpProbability_zero, extendState] at hends
  use upTo rate r, jumpProbability rate r, (List.range (r + 1)).map (extendState rate)
  rw [right_upTo, compute_eq_direct hrate hlimit haccuracy hunderflow, hdirect]
  use hends
  constructor
  · rw [(addedUp_upTo hleast).size, right_upTo, List.length_map, List.length_range]
  · exact ⟨addedUp_upTo hleast, rfl⟩

/-- For the rate one half, an underflow threshold of one half and an accuracy of one tenth, the loop
that adds up weights ends. -/
theorem exists_loopEnds_compute_half :
  ∃ (w : PoissonWeights ℝ) (last : ℝ) (visited : List (Nat × ℝ × PoissonWeights ℝ)),
    LoopEnds (fun state outcome => extendPass (1 / 2) (1 / 2) (1 - 1 / 10 / 2) state = outcome)
        (0, Real.exp (-(1 / 2)), ⟨0, #[Real.exp (-(1 / 2))], Real.exp (-(1 / 2))⟩) visited
        (w.right, last, w)
      ∧ visited.length = w.weights.size
      ∧ w.AddedUp (1 / 2) (1 / 2) (1 / 10)
      ∧ (compute (1 / 2) (1 / 2) 1 (1 / 10) : Except (CheckError ℝ ℝ) _) = .ok w
  := by
  have hfirst : (1 / 2 : ℝ) ≤ Real.exp (-(1 / 2)) := by
    have hexp := Real.add_one_le_exp (-(1 / 2 : ℝ))
    linarith
  apply exists_loopEnds_compute 1 (by norm_num) (by norm_num) (by norm_num) hfirst (by norm_num)

end PoissonWeights

end Reachability
