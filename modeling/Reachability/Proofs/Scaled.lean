import Mathlib
import Reachability.Proofs.Truncated

/-!
# Exact weights scaled to the overflow threshold

For exact numbers, the weights from tail bounds are in the same proportion to each other as the
probabilities of the numbers of jumps between the truncation points.  The whole part of the rate is
the most likely number of jumps (`jumpProbability_le_floor`), so that no weight exceeds that of the
mode, which is chosen small enough to leave the sum of all of them far below the overflow threshold
(`PoissonWeights.exists_tailBounded_scaled`).

The search for the deviations where the tails start is cut off after `Truncation.deviationLimit`
candidates, but it ends before (`Truncation.isLeast_firstBelow_leftTail`,
`Truncation.isLeast_firstBelow_rightTail`).
-/

namespace Reachability

namespace Truncation

/-! ### The search for the deviations -/

variable {rate accuracy : ℝ}

/-- Ten deviations away, the factor that both tail bounds have in common is small. -/
theorem exp_ten_deviations_lt :
  Real.exp (-(10 : Nat) * (10 : Nat) / (2 : Nat)) / ((10 : Nat) * √((2 : Nat) * Real.pi))
    < 1 / 10 ^ 15
  := by
  have hexp : Real.exp (-(10 : Nat) * (10 : Nat) / (2 : Nat)) ≤ (1 / 2) ^ 50 := by
    have hpow : Real.exp (-(10 : Nat) * (10 : Nat) / (2 : Nat)) = Real.exp (-1) ^ 50 := by
      rw [← Real.exp_nat_mul]
      norm_num
    rw [hpow]
    apply pow_le_pow_left₀ (Real.exp_pos _).le Real.exp_neg_one_lt_half.le
  have hroot : 1 ≤ √((2 : Nat) * Real.pi) := by
    apply Real.le_sqrt_of_sq_le
    push_cast
    linarith [Real.pi_gt_three]
  rw [div_lt_iff₀ (by positivity)]
  calc
    Real.exp (-(10 : Nat) * (10 : Nat) / (2 : Nat)) ≤ (1 / 2) ^ 50 := hexp
    _ < 1 / 10 ^ 15 * ((10 : Nat) * 1) := by norm_num
    _ ≤ 1 / 10 ^ 15 * ((10 : Nat) * √((2 : Nat) * Real.pi)) := by gcongr

/-- A tail bound at ten deviations is below any limit that an accuracy gives, if its other factors
are bounded. -/
theorem mul_exp_ten_deviations_lt {x : ℝ} (hx : x ≤ 50) (haccuracy : 1 / 10 ^ 10 ≤ accuracy) :
  x * Real.exp (-(10 : Nat) * (10 : Nat) / (2 : Nat)) / ((10 : Nat) * √((2 : Nat) * Real.pi))
    < accuracy / (2 : Nat)
  := by
  have hpos : 0 ≤ Real.exp (-(10 : Nat) * (10 : Nat) / (2 : Nat))
      / ((10 : Nat) * √((2 : Nat) * Real.pi)) := by positivity
  rw [mul_div_assoc]
  calc
    x * (Real.exp (-(10 : Nat) * (10 : Nat) / (2 : Nat)) / ((10 : Nat) * √((2 : Nat) * Real.pi)))
      ≤ 50 * (1 / 10 ^ 15) := mul_le_mul hx exp_ten_deviations_lt.le hpos (by norm_num)
    _ < accuracy / (2 : Nat) := by
      push_cast
      linarith

/-- For rates from one on, the rate adds no more than one to a factor of one. -/
theorem one_add_inv_le (hrate : 1 ≤ rate) :
  1 + 1 / rate ≤ 2
  := by
  have hinv : 1 / rate ≤ 1 := (div_le_one (by linarith)).mpr hrate
  linarith

/-- The search for the deviations of the left tail finds the least number of at least three that has
mass below the limit. -/
theorem isLeast_firstBelow_leftTail (hrate : 400 ≤ rate) (haccuracy : 1 / 10 ^ 10 ≤ accuracy) :
  IsLeast {k : Nat | 3 ≤ k ∧ leftTail rate (Arithmetic.ofNat k) < accuracy / Arithmetic.ofNat 2}
    (firstBelow (leftTail rate) (accuracy / Arithmetic.ofNat 2) deviationLimit 3)
  := by
  apply isLeast_firstBelow _ _ (n := 10) (by norm_num) (by decide)
  apply mul_exp_ten_deviations_lt _ haccuracy
  have hsmall : 1 / (((8 : Nat) : ℝ) * rate) ≤ 1 := by
    rw [div_le_one (by positivity)]
    push_cast
    linarith
  calc
    (1 + 1 / rate) * Real.exp (1 / (((8 : Nat) : ℝ) * rate)) ≤ 2 * Real.exp 1 := by
      apply mul_le_mul (one_add_inv_le (by linarith)) (Real.exp_le_exp.mpr hsmall)
        (Real.exp_pos _).le zero_le_two
    _ ≤ 50 := by linarith [Real.exp_one_lt_three]

/-- The search for the deviations of the right tail finds the least number of at least three that has
mass below the limit. -/
theorem isLeast_firstBelow_rightTail (hrate : 400 ≤ rate) (haccuracy : 1 / 10 ^ 10 ≤ accuracy) :
  IsLeast {k : Nat | 3 ≤ k ∧ rightTail rate (Arithmetic.ofNat k) < accuracy / Arithmetic.ofNat 2}
    (firstBelow (rightTail rate) (accuracy / Arithmetic.ofNat 2) deviationLimit 3)
  := by
  apply isLeast_firstBelow _ _ (n := 10) (by norm_num) (by decide)
  apply mul_exp_ten_deviations_lt _ haccuracy
  have hsmall : (((625 : Nat) : ℝ) / 10 ^ 4) ≤ 1 := by norm_num
  have hroot : √((2 : Nat) : ℝ) ≤ 2 := Real.sqrt_le_iff.mpr ⟨by norm_num, by norm_num⟩
  have hrest : Real.exp (-(((2 : Nat) : ℝ) / (9 : Nat))
      * ((10 : Nat) * √((2 : Nat) * rate) + (15 : Nat) / 10 ^ 1)) ≤ 1 / 2 := by
    apply le_trans (Real.exp_le_exp.mpr _) Real.exp_neg_one_lt_half.le
    have hlarge : 28 ≤ √((2 : Nat) * rate) := by
      apply Real.le_sqrt_of_sq_le
      push_cast
      linarith
    push_cast at hlarge ⊢
    linarith
  have hquotient : 1 / (1 - Real.exp (-(((2 : Nat) : ℝ) / (9 : Nat))
      * ((10 : Nat) * √((2 : Nat) * rate) + (15 : Nat) / 10 ^ 1))) ≤ 2 := by
    rw [div_le_iff₀ (by linarith)]
    linarith
  have hexp : Real.exp (((625 : Nat) : ℝ) / 10 ^ 4) ≤ 3 :=
    le_trans (Real.exp_le_exp.mpr hsmall) Real.exp_one_lt_three.le
  have hinv : 1 + 1 / rate ≤ 2 := one_add_inv_le (by linarith)
  calc
    (1 + 1 / rate) * Real.exp (((625 : Nat) : ℝ) / 10 ^ 4) * √((2 : Nat) : ℝ)
        * (1 / (1 - Real.exp (-(((2 : Nat) : ℝ) / (9 : Nat))
          * ((10 : Nat) * √((2 : Nat) * rate) + (15 : Nat) / 10 ^ 1))))
      ≤ 2 * 3 * 2 * 2 := by
        gcongr
        apply div_nonneg zero_le_one
        linarith
    _ ≤ 50 := by norm_num

/-- The mode of an exact rate is its whole part, if that is an index. -/
theorem mode_eq_floor (hrate : 0 ≤ rate) (hlast : rate < indexLimit) :
  mode rate = ⌊rate⌋₊
  := by
  apply eq_of_forall_le_iff
  intro n
  rw [le_mode_iff, Nat.le_floor_iff hrate]
  constructor
  · rintro (rfl | ⟨-, hn⟩)
    · rw [Nat.cast_zero]
      apply hrate
    · apply hn
  · intro hn
    refine Or.inr ⟨?_, hn⟩
    exact_mod_cast le_trans hn hlast.le

end Truncation

namespace PoissonWeights

/-! ### The weights between the truncation points -/

/-- Weights from `left` to `right` jumps that are scaled to an overflow threshold: they are in the
proportion of the probabilities, positive and largest at the whole part of the rate, and their sum,
to which each of them is added once, is far below the threshold. -/
structure Scaled (w : PoissonWeights ℝ) (rate overflow : ℝ) (left right : Nat) : Prop where
  left_eq : w.left = left
  right_eq : w.right = right
  size_eq : w.weights.size = right - left + 1
  ratio : ∀ j, left ≤ j → j < right → w.weight (j + 1) * (j + 1 : Nat) = rate * w.weight j
  pos : ∀ x ∈ w.weights, 0 < x
  le_floor : ∀ x ∈ w.weights, x ≤ w.weight ⌊rate⌋₊
  exists_order : ∃ places : List Nat, places.Perm (List.range w.weights.size)
    ∧ w.total = places.foldl (fun total i => total + w.weights[i]?.getD 0) 0
  total_eq : w.total = w.weights.sum
  total_le : w.total ≤ 2 * overflow / 10 ^ 10

section Truncated

variable {rate overflow : ℝ} {left mode right : Nat} (hrate : 0 < rate) (hleft : left ≤ mode)
  (hright : mode ≤ right)

include hrate hleft hright

/-- The weights between truncation points are the multiples of the probabilities there. -/
theorem mem_truncated_iff {x : ℝ} :
  x ∈ (truncated rate overflow left mode right).weights
    ↔ ∃ i, left ≤ i ∧ i ≤ right
      ∧ modeWeight overflow (right - left) / jumpProbability rate mode * jumpProbability rate i = x
  := by
  rw [truncated_eq hrate overflow hleft hright]
  simp only [List.mem_toArray, List.mem_map, List.mem_range'_1]
  apply exists_congr
  intro i
  rw [← and_assoc]
  apply and_congr_left'
  omega

/-- The weight of a number of jumps between truncation points is a multiple of its probability. -/
theorem weight_truncated {i : Nat} (hi : left ≤ i) (hi' : i ≤ right) :
  (truncated rate overflow left mode right).weight i
    = modeWeight overflow (right - left) / jumpProbability rate mode * jumpProbability rate i
  := by
  have hplace : i - left < right - left + 1 := by omega
  have hplace' : left + 1 * (i - left) = i := by omega
  rw [truncated_eq hrate overflow hleft hright, weight, if_neg (Nat.not_lt_of_le hi),
    List.getElem?_toArray, List.getElem?_map, List.getElem?_range' hplace, hplace', Option.map_some,
    Option.getD_some]

/-- Weights between different truncation points, outwards from the whole part of the rate, are scaled
to a positive overflow threshold. -/
theorem scaled_truncated (hoverflow : 0 < overflow) (hlt : left < right) (hmode : mode = ⌊rate⌋₊) :
  (truncated rate overflow left mode right).Scaled rate overflow left right
  := by
  let w := truncated rate overflow left mode right
  have hprobability : 0 < jumpProbability rate mode := jumpProbability_pos hrate mode
  have hwidth : 0 < ((headroom * (right - left) : Nat) : ℝ) := by
    exact_mod_cast Nat.mul_pos (by decide) (Nat.sub_pos_of_lt hlt)
  have hfactor : 0 < modeWeight overflow (right - left) / jumpProbability rate mode :=
    div_pos (div_pos hoverflow hwidth) hprobability
  have hmodeWeight : w.weight mode = modeWeight overflow (right - left) := by
    rw [weight_truncated hrate hleft hright hleft hright, div_mul_cancel₀ _ hprobability.ne']
  have hsize : w.weights.size = right - left + 1 := by
    change (outwards rate (modeWeight overflow (right - left)) left mode right).toArray.size = _
    rw [List.size_toArray, length_outwards rate _ hleft hright]
  have hlargest : ∀ x ∈ w.weights, x ≤ w.weight mode := by
    intro x hx
    obtain ⟨i, -, -, rfl⟩ := (mem_truncated_iff hrate hleft hright).mp hx
    rw [weight_truncated hrate hleft hright hleft hright]
    apply mul_le_mul_of_nonneg_left _ hfactor.le
    rw [hmode]
    apply jumpProbability_le_floor hrate.le
  have hsome : 0 < w.weights.size := by
    rw [hsize]
    apply Nat.succ_pos
  have hsum : w.total = w.weights.sum := sumFromEnds_eq_sum hsome
  -- all weights together are at most one for each of the width and one more, all as large as the mode's
  have hbound : w.weights.sum ≤ (right - left + 1 : Nat) * w.weight mode := by
    rw [← Array.sum_toList, ← hsize, ← Array.length_toList, ← nsmul_eq_mul]
    apply List.sum_le_card_nsmul
    intro x hx
    apply hlargest x (Array.mem_toList_iff.mp hx)
  constructor
  · rfl
  · change left + (w.weights.size - 1) = right
    omega
  · apply hsize
  · intro j hj hj'
    rw [weight_truncated hrate hleft hright (Nat.le_succ_of_le hj) hj',
      weight_truncated hrate hleft hright hj hj'.le, jumpProbability_succ]
    push_cast
    field_simp
  · intro x hx
    obtain ⟨i, -, -, rfl⟩ := (mem_truncated_iff hrate hleft hright).mp hx
    apply mul_pos hfactor (jumpProbability_pos hrate i)
  · rw [← hmode]
    apply hlargest
  · obtain ⟨places, hperm, hfold⟩ := exists_perm_sumFromEnds w.weights (w.weights.size - 1) 0 0
    use places
    rw [List.range_eq_range']
    rw [hsize, Nat.add_sub_cancel, ← hsize] at hperm
    exact ⟨hperm, hfold⟩
  · apply hsum
  · have hone : (1 : ℝ) ≤ (right - left : Nat) := by exact_mod_cast Nat.sub_pos_of_lt hlt
    calc
      w.total ≤ (right - left + 1 : Nat) * w.weight mode := hsum.trans_le hbound
      _ = ((right - left : Nat) + 1) / (right - left : Nat) * overflow / 10 ^ 10 := by
        rw [hmodeWeight]
        change _ * (overflow / ((headroom * (right - left) : Nat) : ℝ)) = _
        rw [headroom]
        push_cast
        field_simp
        norm_num
      _ ≤ 2 * overflow / 10 ^ 10 := by
        gcongr
        rw [div_le_iff₀ (by linarith)]
        linarith

end Truncated

/-- For a rate from the limit of the direct method on and below the last index, and an accuracy that
is not too fine, there are weights from tail bounds.  They are those that the loops in place make, the
whole part of the rate is between their truncation points, and they are scaled to the overflow
threshold if that is positive. -/
theorem exists_tailBounded_scaled {rate overflow accuracy : ℝ} (hrate : 400 ≤ rate)
    (hlast : rate < indexLimit) (haccuracy : 1 / 10 ^ 10 ≤ accuracy) (hoverflow : 0 < overflow) :
  ∃ w, (tailBounded rate overflow accuracy : Except (CheckError ℝ ℝ) _) = .ok w
    ∧ inPlace? rate overflow (Truncation.left rate accuracy) ⌊rate⌋₊
        (Truncation.right rate accuracy) = some w
    ∧ Truncation.left rate accuracy ≤ ⌊rate⌋₊ ∧ ⌊rate⌋₊ < Truncation.right rate accuracy
    ∧ w.Scaled rate overflow (Truncation.left rate accuracy) (Truncation.right rate accuracy)
  := by
  have hpos : 0 < rate := by linarith
  have hmode := Truncation.mode_eq_floor hpos.le hlast
  have hlarge : Rounding.Reaches rate 400 := hrate
  have hindex : ⌊rate⌋₊ < indexLimit := (Nat.floor_lt hpos.le).mpr hlast
  have hleft := Truncation.left_le_mode accuracy hlarge
  have hright := (Truncation.mode_lt_right_iff accuracy hlarge).mpr (hmode ▸ hindex)
  have hfine : finestAccuracy ≤ accuracy := by
    change ((1 : Nat) : ℝ) / 10 ^ 10 ≤ accuracy
    exact_mod_cast haccuracy
  rw [hmode] at hleft hright
  refine ⟨_, tailBounded_eq_ok_iff.mpr ⟨hfine, lt_of_le_of_lt hleft hindex, rfl⟩, ?_, hleft, hright,
    ?_⟩
  · rw [inPlace?_eq rate overflow hleft hright.le, if_pos (lt_of_le_of_lt hleft hindex), hmode]
  · rw [hmode]
    apply scaled_truncated hpos hleft hright.le hoverflow (lt_of_le_of_lt hleft hright) rfl

/-- The weights for a rate of five hundred are scaled to an overflow threshold of one. -/
theorem exists_tailBounded_scaled_five_hundred :
  ∃ w, (tailBounded 500 1 (1 / 10 ^ 6) : Except (CheckError ℝ ℝ) _) = .ok w
    ∧ inPlace? 500 1 (Truncation.left (500 : ℝ) (1 / 10 ^ 6)) ⌊(500 : ℝ)⌋₊
        (Truncation.right (500 : ℝ) (1 / 10 ^ 6)) = some w
    ∧ Truncation.left (500 : ℝ) (1 / 10 ^ 6) ≤ ⌊(500 : ℝ)⌋₊
    ∧ ⌊(500 : ℝ)⌋₊ < Truncation.right (500 : ℝ) (1 / 10 ^ 6)
    ∧ w.Scaled 500 1 (Truncation.left (500 : ℝ) (1 / 10 ^ 6))
      (Truncation.right (500 : ℝ) (1 / 10 ^ 6))
  := by
  apply exists_tailBounded_scaled
  · norm_num
  · norm_num [indexLimit]
  · norm_num
  · norm_num

end PoissonWeights

end Reachability
