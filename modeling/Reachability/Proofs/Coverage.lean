import Mathlib
import Reachability.Proofs.Weights

/-!
# What Poisson weights leave out

`PoissonWeights.uncovered` is the probability of the numbers of jumps that have no weight.

Weights that are added up from no jump on leave out at most half the accuracy, unless they end since
the next one, past the mode, is below the underflow threshold.  From there on the probabilities fall
at least as fast as a geometric sequence, so that what is left out then is still small against the
threshold (`PoissonWeights.uncovered_le_max`), but it may be far above the accuracy.
-/

namespace Reachability

variable {rate : ℝ}

/-! ### Probabilities past the mode -/

/-- After `n` jumps, the probability of each further jump brings in a factor of at most
`rate / (n + 1)`. -/
theorem jumpProbability_add_le (hrate : 0 ≤ rate) (n i : Nat) :
  jumpProbability rate (n + i) ≤ jumpProbability rate n * (rate / (n + 1)) ^ i
  := by
  induction i with
  | zero => simp
  | succ i ih =>
      have hfactor : rate / ((n + i : Nat) + 1) ≤ rate / (n + 1) := by
        apply div_le_div_of_nonneg_left hrate (by positivity)
        push_cast
        linarith [i.cast_nonneg (α := ℝ)]
      calc jumpProbability rate (n + (i + 1))
          = jumpProbability rate (n + i) * (rate / ((n + i : Nat) + 1)) := by
            rw [← Nat.add_assoc, jumpProbability_succ, mul_div_assoc]
        _ ≤ jumpProbability rate n * (rate / (n + 1)) ^ i * (rate / (n + 1)) :=
            mul_le_mul ih hfactor (by positivity)
              (mul_nonneg (jumpProbability_nonneg hrate n) (by positivity))
        _ = jumpProbability rate n * (rate / (n + 1)) ^ (i + 1) := by
            rw [pow_succ, mul_assoc]

/-- Past the mode, the probability of more than `r` jumps is at most a multiple of that of `r + 1`
jumps. -/
theorem one_sub_sum_le_of_lt (hrate : 0 ≤ rate) {r : Nat} (hpast : rate < r) :
  1 - ∑ i ∈ Finset.range (r + 1), jumpProbability rate i
    ≤ jumpProbability rate (r + 1) * (1 + rate / 2)
  := by
  have hfactor : rate / ((r + 1 : Nat) + 1) < 1 := by
    rw [div_lt_one (by positivity)]
    push_cast
    linarith
  have htail := (hasSum_nat_add_iff' (r + 1)).mpr (hasSum_jumpProbability rate)
  have hgeometric := (hasSum_geometric_of_lt_one (by positivity) hfactor).mul_left
    (jumpProbability rate (r + 1))
  have hle : 1 - ∑ i ∈ Finset.range (r + 1), jumpProbability rate i
      ≤ jumpProbability rate (r + 1) * (1 - rate / ((r + 1 : Nat) + 1))⁻¹ := by
    apply hasSum_le _ htail hgeometric
    intro i
    rw [Nat.add_comm i]
    apply jumpProbability_add_le hrate
  have hsum : (1 - rate / ((r + 1 : Nat) + 1))⁻¹ ≤ 1 + rate / 2 := by
    have hgap : 1 - rate / ((r + 1 : Nat) + 1) = ((r : ℝ) + 2 - rate) / (r + 2) := by
      push_cast
      field_simp
      ring
    rw [hgap, inv_div, div_le_iff₀ (by linarith)]
    nlinarith
  apply le_trans hle
  apply mul_le_mul_of_nonneg_left hsum (jumpProbability_nonneg hrate _)

namespace PoissonWeights

/-! ### The probability that is left out -/

/-- The probability of the numbers of jumps outside of the truncation points. -/
noncomputable def uncovered (rate : ℝ) (w : PoissonWeights ℝ) : ℝ :=
  tsum fun i => if i ∈ Finset.Icc w.left w.right then 0 else jumpProbability rate i

/-- What is left out is what the probabilities between the truncation points lack to one. -/
theorem uncovered_eq (rate : ℝ) (w : PoissonWeights ℝ) :
  uncovered rate w = 1 - ∑ i ∈ Finset.Icc w.left w.right, jumpProbability rate i
  := by
  have hinside : HasSum
      (fun i => if i ∈ Finset.Icc w.left w.right then jumpProbability rate i else 0)
      (∑ i ∈ Finset.Icc w.left w.right, jumpProbability rate i) := by
    rw [← Finset.sum_congr rfl fun i hi => if_pos hi]
    apply hasSum_sum_of_ne_finset_zero
    intro i hi
    apply if_neg hi
  apply HasSum.tsum_eq
  apply ((hasSum_jumpProbability rate).sub hinside).congr_fun
  intro i
  split
  · rw [sub_self]
  · rw [sub_zero]

/-- The probabilities of at most `r` jumps leave out what their sum lacks to one. -/
theorem uncovered_upTo (r : Nat) :
  uncovered rate (upTo rate r) = 1 - (upTo rate r).total
  := by
  have hrange : Finset.Icc (upTo rate r).left r = Finset.range (r + 1) := by
    ext i
    simp [upTo]
  rw [uncovered_eq, right_upTo, hrange, total_upTo]

/-- For a rate below the limit of the direct method, the weights start from no jump, and they leave
out no more than half the accuracy or a multiple of the underflow threshold, whichever is larger.
They leave out more than half the accuracy only if they end past the mode, before a weight below the
threshold. -/
theorem uncovered_le_max {underflow overflow accuracy : ℝ} {w : PoissonWeights ℝ}
    (hlimit : rate < 400)
    (h : (compute rate underflow overflow accuracy : Except (CheckError ℝ ℝ) _) = .ok w) :
  w.left = 0
    ∧ uncovered rate w ≤ max (accuracy / 2) (underflow * (1 + rate / 2))
    ∧ (accuracy / 2 < uncovered rate w →
        rate < w.right ∧ jumpProbability rate (w.right + 1) < underflow)
  := by
  obtain ⟨⟨hrate, -, -⟩, -, r, hleast, rfl⟩ := (compute_eq_ok_iff hlimit).mp h
  rw [right_upTo, uncovered_upTo]
  refine ⟨rfl, ?_, ?_⟩
  · obtain hcovered | ⟨hpast, hbelow⟩ := hleast.1
    · apply le_max_of_le_left
      linarith
    · apply le_max_of_le_right
      apply le_trans (one_sub_sum_le_of_lt hrate.le hpast)
      apply mul_le_mul_of_nonneg_right hbelow.le (by positivity)
  · intro hshort
    obtain hcovered | hended := hleast.1
    · linarith
    · exact hended

/-- With a rate and an underflow threshold of one half, the weights end after one jump, and leave
out more than seven times an accuracy of one hundredth. -/
theorem uncovered_le_max_half :
  ∃ w, (compute (1 / 2) (1 / 2) 1 (1 / 100) : Except (CheckError ℝ ℝ) _) = .ok w
    ∧ 7 * (1 / 100) < uncovered (1 / 2) w
    ∧ w.left = 0
    ∧ uncovered (1 / 2) w ≤ max (1 / 100 / 2) (1 / 2 * (1 + 1 / 2 / 2))
    ∧ ((1 / 2 : ℝ) < w.right ∧ jumpProbability (1 / 2) (w.right + 1) < 1 / 2)
  := by
  have hlow : (1 / 2 : ℝ) ≤ Real.exp (-(1 / 2)) := by
    have h := Real.add_one_le_exp (-(1 / 2))
    linarith
  have hhigh : Real.exp (-(1 / 2)) ≤ 8 / 13 := by
    rw [Real.exp_neg, inv_le_comm₀ (Real.exp_pos _) (by norm_num)]
    have h := Real.quadratic_le_exp_of_nonneg (show (0 : ℝ) ≤ 1 / 2 by norm_num)
    linarith
  have hone : jumpProbability (1 / 2) 1 = Real.exp (-(1 / 2)) / 2 := by
    rw [jumpProbability_succ 0, jumpProbability_zero]
    push_cast
    ring
  have htwo : jumpProbability (1 / 2) 2 = Real.exp (-(1 / 2)) / 8 := by
    rw [jumpProbability_succ, hone]
    push_cast
    ring
  have hleast : IsLeast {i | Ends (1 / 2) (1 / 2) (1 - 1 / 100 / 2) i} 1 := by
    constructor
    · right
      rw [htwo]
      constructor <;> norm_num
      linarith
    · rintro i hi
      by_contra hzero
      obtain rfl : i = 0 := by omega
      obtain hcovered | ⟨hpast, -⟩ := hi
      · rw [total_upTo, Finset.sum_range_one, jumpProbability_zero] at hcovered
        linarith
      · norm_num at hpast
  have hcompute : (compute (1 / 2) (1 / 2) 1 (1 / 100) : Except (CheckError ℝ ℝ) _)
      = .ok (upTo (1 / 2) 1) := by
    apply (compute_eq_ok_iff (by norm_num)).mpr ⟨_, hlow, 1, hleast, rfl⟩
    norm_num
  have hshort : 7 * (1 / 100) < uncovered (1 / 2) (upTo (1 / 2) 1) := by
    rw [uncovered_upTo, total_upTo, Finset.sum_range_succ, Finset.sum_range_one,
      jumpProbability_zero, hone]
    linarith
  obtain ⟨hleft, hmax, hended⟩ := uncovered_le_max (by norm_num) hcompute
  exact ⟨_, hcompute, hshort, hleft, hmax, hended (by linarith)⟩

end PoissonWeights

end Reachability
