import Mathlib
import Reachability.Proofs.InPlace
import Reachability.Proofs.Weights

/-!
# Exact weights between truncation points

For rates from the limit of the direct method on, the weights are computed outwards from the mode.
They are the probabilities of the numbers of jumps between the truncation points, all multiplied by
one factor (`PoissonWeights.truncated_eq`), and what is added up from both ends is their sum.

Hence the weights for any rate stand for probabilities (`PoissonWeights.Normalizes`), unless that
factor is not positive.  It has the sign of the overflow threshold, which is not checked
(`PoissonWeights.normalizes_iff`).
-/

namespace Reachability

namespace PoissonWeights

variable {rate : ℝ}

/-! ### Weights outwards from the mode -/

/-- Below a number of jumps whose weight is a multiple of its probability, the weights are the same
multiples of the probabilities. -/
theorem descend_eq (hrate : 0 < rate) (x : ℝ) {count j : Nat} (hcount : count ≤ j)
    (above : List ℝ) :
  descend rate count j (x * jumpProbability rate j) above
    = (List.range' (j - count) count).map (fun i => x * jumpProbability rate i) ++ above
  := by
  induction count generalizing j above with
  | zero => rfl
  | succ count ih =>
      obtain ⟨i, rfl⟩ := Nat.exists_eq_add_of_lt (Nat.lt_of_lt_of_le (Nat.succ_pos count) hcount)
      have hweight : Arithmetic.ofNat (0 + i + 1) / rate
          * (x * jumpProbability rate (0 + i + 1)) = x * jumpProbability rate i := by
        rw [Nat.zero_add, jumpProbability_succ]
        change ((i + 1 : Nat) : ℝ) / rate * _ = _
        push_cast
        field_simp
      rw [descend, hweight, Nat.add_sub_cancel, Nat.zero_add, ih (by omega), List.range'_concat]
      have hstart : i - count + 1 * count = i := by omega
      rw [Nat.add_sub_add_right, hstart]
      simp

/-- Above a number of jumps whose weight is a multiple of its probability, the weights are the same
multiples of the probabilities. -/
theorem ascend_eq (x : ℝ) (count j : Nat) :
  ascend rate count j (x * jumpProbability rate j)
    = (List.range' (j + 1) count).map fun i => x * jumpProbability rate i
  := by
  induction count generalizing j with
  | zero => rfl
  | succ count ih =>
      have hweight : rate / Arithmetic.ofNat (j + 1) * (x * jumpProbability rate j)
          = x * jumpProbability rate (j + 1) := by
        rw [jumpProbability_succ]
        change rate / ((j + 1 : Nat) : ℝ) * _ = _
        push_cast
        ring
      rw [ascend, hweight, ih, List.range'_succ, List.map_cons]

/-- Outwards from the mode, the weights between the truncation points are the same multiples of the
probabilities as the weight of the mode. -/
theorem outwards_eq (hrate : 0 < rate) (x : ℝ) {left mode right : Nat} (hleft : left ≤ mode)
    (hright : mode ≤ right) :
  outwards rate (x * jumpProbability rate mode) left mode right
    = (List.range' left (right - left + 1)).map fun i => x * jumpProbability rate i
  := by
  have hsplit : List.range' left (right - left + 1)
      = List.range' left (mode - left) ++ mode :: List.range' (mode + 1) (right - mode) := by
    rw [← List.range'_succ, ← Nat.add_sub_cancel' hleft, Nat.add_sub_cancel_left,
      List.range'_append_1]
    congr 1
    omega
  rw [outwards, ascend_eq, descend_eq hrate x (Nat.sub_le mode left), Nat.sub_sub_self hleft,
    hsplit, List.map_append, List.map_cons]

/-! ### The sum from both ends -/

/-- The sum from the first and the last one of some exact weights is that of all of them, in
whatever order it adds them. -/
theorem sumFromEnds_eq_sum {weights : Array ℝ} (h : 0 < weights.size) :
  sumFromEnds weights (weights.size - 1) 0 0 = weights.sum
  := by
  obtain ⟨places, hperm, hsum⟩ := exists_perm_sumFromEnds weights (weights.size - 1) 0 0
  rw [Nat.sub_add_cancel h, ← List.range_eq_range'] at hperm
  have hall : (List.range weights.size).map (fun i => weights[i]?.getD 0) = weights.toList := by
    apply List.ext_getElem
    · simp
    · intro i hi hi'
      simp [Array.getElem?_eq_getElem (Array.length_toList ▸ hi')]
  calc
    sumFromEnds weights (weights.size - 1) 0 0
      = (places.map fun i => weights[i]?.getD 0).sum := by
        rw [hsum, List.sum_eq_foldl, List.foldl_map]
    _ = ((List.range weights.size).map fun i => weights[i]?.getD 0).sum := (hperm.map _).sum_eq
    _ = weights.sum := by rw [hall, Array.sum_toList]

/-! ### Weights that stand for probabilities -/

/-- Weights stand for probabilities: none of them is negative, their sum is positive, and divided by
their sum they are not negative and sum to one. -/
structure Normalizes (w : PoissonWeights ℝ) : Prop where
  nonneg : ∀ x ∈ w.weights, 0 ≤ x
  total_pos : 0 < w.total
  nonneg_normalize : ∀ x ∈ w.normalize.weights, 0 ≤ x
  sum_normalize : w.normalize.weights.sum = 1

/-- Weights that are not negative stand for probabilities if their positive sum is kept with
them. -/
theorem Normalizes.of_sum {w : PoissonWeights ℝ} (hnonneg : ∀ x ∈ w.weights, 0 ≤ x)
    (hsum : w.weights.sum = w.total) (hpos : 0 < w.total) :
  w.Normalizes
  := by
  refine ⟨hnonneg, hpos, ?_, ?_⟩
  · intro y hy
    obtain ⟨x, hx, rfl⟩ := Array.mem_map.mp hy
    apply div_nonneg (hnonneg x hx) hpos.le
  · rw [normalize, ← Array.sum_toList, Array.toList_map]
    simp only [div_eq_mul_inv]
    rw [List.sum_map_mul_right, List.map_id', Array.sum_toList, hsum]
    apply mul_inv_cancel₀ hpos.ne'

/-- The probabilities of at most `r` jumps are not negative, and their sum is kept with them. -/
theorem normalizes_upTo (hrate : 0 < rate) (r : Nat) :
  (upTo rate r).Normalizes
  := by
  apply Normalizes.of_sum
  · intro x hx
    obtain ⟨i, -, rfl⟩ := Array.mem_map.mp hx
    apply jumpProbability_nonneg hrate.le
  · rw [total_upTo, upTo, ← Array.sum_toList, Array.toList_map, Array.toList_range]
    rfl
  · apply (total_upTo_mem_Ioc hrate r).1

/-- The exact weights between truncation points are the probabilities there, all multiplied by one
factor, and their sum is kept with them. -/
theorem truncated_eq (hrate : 0 < rate) (overflow : ℝ) {left mode right : Nat} (hleft : left ≤ mode)
    (hright : mode ≤ right) :
  truncated rate overflow left mode right
    = { left := left
        weights := ((List.range' left (right - left + 1)).map fun i =>
          modeWeight overflow (right - left) / jumpProbability rate mode
            * jumpProbability rate i).toArray
        total := modeWeight overflow (right - left) / jumpProbability rate mode
          * ((List.range' left (right - left + 1)).map (jumpProbability rate)).sum }
  := by
  have hmode : modeWeight overflow (right - left)
      = modeWeight overflow (right - left) / jumpProbability rate mode
        * jumpProbability rate mode := by
    rw [div_mul_cancel₀]
    exact (jumpProbability_pos hrate mode).ne'
  have houtwards := outwards_eq hrate
    (modeWeight overflow (right - left) / jumpProbability rate mode) hleft hright
  rw [← hmode] at houtwards
  rw [truncated, houtwards, sumFromEnds_eq_sum (by simp), ← Array.sum_toList, List.sum_map_mul_left]

/-- Weights between different truncation points stand for probabilities if and only if the overflow
threshold is positive. -/
theorem normalizes_truncated_iff (hrate : 0 < rate) {overflow : ℝ} {left mode right : Nat}
    (hleft : left ≤ mode) (hright : mode ≤ right) (hlt : left < right) :
  (truncated rate overflow left mode right).Normalizes ↔ 0 < overflow
  := by
  have hsum : 0 < ((List.range' left (right - left + 1)).map (jumpProbability rate)).sum := by
    apply List.sum_pos
    · intro x hx
      obtain ⟨i, -, rfl⟩ := List.mem_map.mp hx
      apply jumpProbability_pos hrate
    · simp
  have hwidth : (0 : ℝ) < (headroom * (right - left) : Nat) := by
    exact_mod_cast Nat.mul_pos (by decide) (Nat.sub_pos_of_lt hlt)
  have hfactor : 0 < modeWeight overflow (right - left) / jumpProbability rate mode
      ↔ 0 < overflow := by
    rw [div_pos_iff_of_pos_right (jumpProbability_pos hrate mode)]
    exact div_pos_iff_of_pos_right hwidth
  rw [truncated_eq hrate overflow hleft hright, ← hfactor]
  constructor
  · intro h
    apply pos_of_mul_pos_left h.total_pos hsum.le
  · intro hpos
    apply Normalizes.of_sum
    · intro x hx
      obtain ⟨i, -, rfl⟩ := List.mem_map.mp (List.mem_toArray.mp hx)
      apply mul_nonneg hpos.le (jumpProbability_nonneg hrate.le i)
    · rw [List.sum_toArray, List.sum_map_mul_left]
    · apply mul_pos hpos hsum

/-! ### The weights for a rate -/

/-- For valid parameters and a rate from the limit of the direct method on, tail bounds are used. -/
theorem compute_eq_tailBounded {underflow overflow accuracy : ℝ} (hlimit : 400 ≤ rate)
    (haccuracy : 0 < accuracy) (hunderflow : 0 ≤ underflow) :
  (compute rate underflow overflow accuracy : Except (CheckError ℝ ℝ) _)
    = tailBounded rate overflow accuracy
  := by
  have hvalid : validate rate underflow overflow accuracy = .ok () :=
    validate_eq_ok_iff.mpr ⟨by linarith, haccuracy, hunderflow⟩
  have hwide : ¬ (Precision.widen rate : ℝ) < directLimit := not_lt_of_ge hlimit
  rw [compute, hvalid]
  simp only [Except.mapError, bind, Except.bind, if_neg hwide]

/-- Tail bounds give weights unless the accuracy is too fine or no index is left above the left
truncation point, and then the weights are those between the truncation points. -/
theorem tailBounded_eq_ok_iff {overflow accuracy : ℝ} {w : PoissonWeights ℝ} :
  (tailBounded rate overflow accuracy : Except (CheckError ℝ ℝ) _) = .ok w
    ↔ finestAccuracy ≤ accuracy ∧ Truncation.left rate accuracy < indexLimit
      ∧ w = truncated rate overflow (Truncation.left rate accuracy) (Truncation.mode rate)
        (Truncation.right rate accuracy)
  := by
  rw [tailBounded]
  change (if accuracy < finestAccuracy then _ else if indexLimit ≤ Truncation.left rate accuracy
    then _ else _) = _ ↔ _
  split
  · next hfine =>
      constructor
      · rintro ⟨⟩
      · rintro ⟨h, -⟩
        exact absurd hfine (not_lt_of_ge h)
  · next hfine =>
      rw [not_lt] at hfine
      split
      · next hlast =>
          constructor
          · rintro ⟨⟩
          · rintro ⟨-, h, -⟩
            exact absurd hlast (Nat.not_le_of_lt h)
      · next hindex =>
          rw [Nat.not_le] at hindex
          constructor
          · rintro ⟨⟩
            exact ⟨hfine, hindex, rfl⟩
          · rintro ⟨-, -, rfl⟩
            rfl

/-- Weights that are computed stand for probabilities if and only if the rate is below the limit of
the direct method or the overflow threshold is positive. -/
theorem normalizes_iff {underflow overflow accuracy : ℝ} {w : PoissonWeights ℝ}
    (h : (compute rate underflow overflow accuracy : Except (CheckError ℝ ℝ) _) = .ok w) :
  w.Normalizes ↔ rate < 400 ∨ 0 < overflow
  := by
  obtain ⟨hrate, haccuracy, hunderflow⟩ := valid_of_compute_eq_ok h
  by_cases hlimit : rate < 400
  · obtain ⟨-, -, r, -, rfl⟩ := (compute_eq_ok_iff hlimit).mp h
    simp only [hlimit, true_or, iff_true]
    apply normalizes_upTo hrate
  · rw [compute_eq_tailBounded (not_lt.mp hlimit) haccuracy hunderflow] at h
    obtain ⟨-, hleft, rfl⟩ := tailBounded_eq_ok_iff.mp h
    have hlarge : Rounding.Reaches rate 400 := not_lt.mp hlimit
    simp only [hlimit, false_or]
    apply normalizes_truncated_iff hrate (Truncation.left_le_mode accuracy hlarge)
      (Truncation.mode_le_right accuracy hlarge)
      ((Truncation.left_lt_right_iff accuracy hlarge).mpr hleft)

/-- Weights for a rate of five hundred are computed with the overflow threshold one and with the
overflow threshold zero.  Those with the former stand for probabilities, those with the latter do
not. -/
theorem normalizes_iff_five_hundred :
  (∃ w, (compute 500 0 1 (1 / 10 ^ 6) : Except (CheckError ℝ ℝ) _) = .ok w
      ∧ w.Normalizes)
    ∧ ∃ w, (compute 500 0 0 (1 / 10 ^ 6) : Except (CheckError ℝ ℝ) _) = .ok w
      ∧ ¬ w.Normalizes
  := by
  have haccuracy : (0 : ℝ) < 1 / 10 ^ 6 := by positivity
  have hfine : (finestAccuracy : ℝ) ≤ 1 / 10 ^ 6 := by
    change ((1 : Nat) / 10 ^ 10 : ℝ) ≤ 1 / 10 ^ 6
    norm_num
  have hmode : Truncation.mode (500 : ℝ) = 500 := by
    change min indexLimit ⌊((⌊(500 : ℝ)⌋ : ℤ) : ℝ)⌋₊ = 500
    norm_num [indexLimit]
  have hleft : Truncation.left (500 : ℝ) (1 / 10 ^ 6) < indexLimit := by
    have hlarge : Rounding.Reaches (500 : ℝ) 400 := by
      change (400 : ℝ) ≤ 500
      norm_num
    apply lt_of_le_of_lt (Truncation.left_le_mode _ hlarge)
    rw [hmode]
    decide
  have hcompute : ∀ overflow : ℝ, ∃ w,
      (compute 500 0 overflow (1 / 10 ^ 6) : Except (CheckError ℝ ℝ) _) = .ok w := by
    intro overflow
    rw [compute_eq_tailBounded (by norm_num) haccuracy le_rfl]
    exact ⟨_, tailBounded_eq_ok_iff.mpr ⟨hfine, hleft, rfl⟩⟩
  constructor
  · obtain ⟨w, hw⟩ := hcompute 1
    exact ⟨w, hw, (normalizes_iff hw).mpr (Or.inr one_pos)⟩
  · obtain ⟨w, hw⟩ := hcompute 0
    refine ⟨w, hw, fun h => ?_⟩
    have hor := (normalizes_iff hw).mp h
    norm_num at hor

end PoissonWeights

end Reachability
