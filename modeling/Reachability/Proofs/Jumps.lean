import Mathlib
import Reachability.Proofs.Exact

/-!
# Numbers of jumps

The number of jumps within a time follows a Poisson distribution: `jumpProbability rate i` is the
probability of `i` jumps if `rate` of them are expected.  More than `r` jumps have a probability of
at most `rate / (r + 1)` (`one_sub_sum_jumpProbability_le`), and the whole part of `rate` is the most
likely number of jumps (`jumpProbability_le_floor`).

`jumpMean rate f` is the expected value of `f` at the number of jumps.  If the values of `f` lie
between zero and one, then leaving out the large numbers of jumps takes at most their probability
off it (`jumpMean_le_sum_add`), and the jumps in two times may be counted one time after the other
(`jumpMean_add`).
-/

namespace Reachability

/-- The probability of `i` jumps if `rate` jumps are expected. -/
noncomputable def jumpProbability (rate : ℝ) (i : Nat) : ℝ :=
  Real.exp (-rate) * rate ^ i / i.factorial

/-- The expected value of a function of the number of jumps. -/
noncomputable def jumpMean (rate : ℝ) (f : Nat → ℝ) : ℝ :=
  tsum fun i => jumpProbability rate i * f i

variable {rate : ℝ}

/-- No jump happens with the probability of waiting for so long. -/
@[simp]
theorem jumpProbability_zero :
  jumpProbability rate 0 = Real.exp (-rate)
  := by
  simp [jumpProbability]

/-- The probability of one jump more. -/
theorem jumpProbability_succ (i : Nat) :
  jumpProbability rate (i + 1) = jumpProbability rate i * rate / (i + 1)
  := by
  rw [jumpProbability, jumpProbability, Nat.factorial_succ, pow_succ]
  push_cast
  field_simp

/-- No probability is negative. -/
theorem jumpProbability_nonneg (hrate : 0 ≤ rate) (i : Nat) :
  0 ≤ jumpProbability rate i
  := by
  rw [jumpProbability]
  positivity

/-- Every number of jumps is possible if any are expected. -/
theorem jumpProbability_pos (hrate : 0 < rate) (i : Nat) :
  0 < jumpProbability rate i
  := by
  rw [jumpProbability]
  positivity

/-- Up to the rate, more jumps are more likely. -/
theorem jumpProbability_le_succ {i : Nat} (hrate : 0 ≤ rate) (hi : i + 1 ≤ rate) :
  jumpProbability rate i ≤ jumpProbability rate (i + 1)
  := by
  rw [jumpProbability_succ, le_div_iff₀ (by positivity)]
  apply mul_le_mul_of_nonneg_left hi (jumpProbability_nonneg hrate i)

/-- From the rate on, more jumps are less likely. -/
theorem jumpProbability_succ_le {i : Nat} (hrate : 0 ≤ rate) (hi : rate ≤ i + 1) :
  jumpProbability rate (i + 1) ≤ jumpProbability rate i
  := by
  rw [jumpProbability_succ, div_le_iff₀ (by positivity)]
  apply mul_le_mul_of_nonneg_left hi (jumpProbability_nonneg hrate i)

/-- No number of jumps is more likely than the whole part of the rate. -/
theorem jumpProbability_le_floor (hrate : 0 ≤ rate) (i : Nat) :
  jumpProbability rate i ≤ jumpProbability rate ⌊rate⌋₊
  := by
  obtain hi | hi := le_total i ⌊rate⌋₊
  · have hbelow : ∀ n, i ≤ n → n ≤ ⌊rate⌋₊ → jumpProbability rate i ≤ jumpProbability rate n := by
      intro n hn
      induction n, hn using Nat.le_induction with
      | base =>
          intro _
          apply le_refl
      | succ n _ ih =>
          intro hle
          have hrise : (n : ℝ) + 1 ≤ rate := by exact_mod_cast (Nat.le_floor_iff hrate).mp hle
          apply le_trans (ih (Nat.le_of_succ_le hle)) (jumpProbability_le_succ hrate hrise)
    apply hbelow _ hi (le_refl _)
  · induction i, hi using Nat.le_induction with
    | base => apply le_refl
    | succ n hn ih =>
        have hfall : rate ≤ n + 1 := by
          apply le_trans (Nat.lt_floor_add_one rate).le
          exact_mod_cast Nat.succ_le_succ hn
        apply le_trans (jumpProbability_succ_le hrate hfall) ih

/-- The probabilities of all numbers of jumps sum to one. -/
theorem hasSum_jumpProbability (rate : ℝ) :
  HasSum (jumpProbability rate) 1
  := by
  have h := (NormedSpace.expSeries_div_hasSum_exp rate).mul_left (Real.exp (-rate))
  rw [← Real.exp_eq_exp_ℝ, ← Real.exp_add, neg_add_cancel, Real.exp_zero] at h
  apply h.congr_fun
  intro i
  rw [jumpProbability, mul_div_assoc]

/-- The expected number of jumps. -/
theorem hasSum_mul_jumpProbability (rate : ℝ) :
  HasSum (fun i : Nat => i * jumpProbability rate i) rate
  := by
  have hshift : ∀ i : Nat, ((i + 1 : Nat) : ℝ) * jumpProbability rate (i + 1)
      = rate * jumpProbability rate i := by
    intro i
    rw [jumpProbability_succ]
    push_cast
    field_simp
  rw [← hasSum_nat_add_iff' 1]
  simp only [hshift, Finset.sum_range_one, Nat.cast_zero, zero_mul, sub_zero]
  simpa using (hasSum_jumpProbability rate).mul_left rate

/-- The expected number of ordered pairs of two jumps. -/
theorem hasSum_pairs_jumpProbability (rate : ℝ) :
  HasSum (fun i : Nat => i * (i - 1) * jumpProbability rate i) (rate ^ 2)
  := by
  have hshift : ∀ i : Nat, ((i + 1 : Nat) : ℝ) * ((i + 1 : Nat) - 1) * jumpProbability rate (i + 1)
      = rate * (i * jumpProbability rate i) := by
    intro i
    rw [jumpProbability_succ]
    push_cast
    field_simp
    ring
  rw [← hasSum_nat_add_iff' 1]
  simp only [hshift, Finset.sum_range_one, Nat.cast_zero, zero_mul, sub_zero, pow_two]
  apply (hasSum_mul_jumpProbability rate).mul_left

/-- The jumps in two times are those in the one and those in the other. -/
theorem jumpProbability_add (rate rate' : ℝ) (n : Nat) :
  jumpProbability (rate + rate') n
    = ∑ p ∈ Finset.HasAntidiagonal.antidiagonal n,
      jumpProbability rate p.1 * jumpProbability rate' p.2
  := by
  rw [jumpProbability, (Commute.all rate rate').add_pow', neg_add, Real.exp_add, Finset.mul_sum,
    Finset.sum_div]
  apply Finset.sum_congr rfl
  rintro ⟨i, j⟩ hij
  obtain rfl := Finset.HasAntidiagonal.mem_antidiagonal.mp hij
  have hchoose : ((i + j).choose i : ℝ) * i.factorial * j.factorial = (i + j).factorial := by
    rw [Nat.choose_symm_add]
    exact_mod_cast Nat.add_choose_mul_factorial_mul_factorial i j
  have hpos : ((i + j).choose i : ℝ) ≠ 0 := by
    exact_mod_cast (Nat.choose_pos (Nat.le_add_right i j)).ne'
  rw [jumpProbability, jumpProbability, ← hchoose, nsmul_eq_mul]
  field_simp

/-- More than `r` jumps have a probability of at most the expected number divided by `r + 1`. -/
theorem one_sub_sum_jumpProbability_le (hrate : 0 ≤ rate) (r : Nat) :
  1 - ∑ i ∈ Finset.range (r + 1), jumpProbability rate i ≤ rate / (r + 1)
  := by
  have hfew : HasSum (fun i => if i ∈ Finset.range (r + 1) then jumpProbability rate i else 0)
      (∑ i ∈ Finset.range (r + 1), jumpProbability rate i) := by
    rw [← Finset.sum_congr rfl fun i hi => if_pos hi]
    apply hasSum_sum_of_ne_finset_zero
    intro i hi
    apply if_neg hi
  have hmany := (hasSum_mul_jumpProbability rate).div_const ((r : ℝ) + 1)
  rw [sub_le_iff_le_add']
  apply hasSum_le _ (hasSum_jumpProbability rate) (hfew.add hmany)
  intro i
  have hp := jumpProbability_nonneg hrate i
  split
  · apply le_add_of_nonneg_right
    positivity
  · next hi =>
      rw [Finset.mem_range, not_lt] at hi
      rw [zero_add, le_div_iff₀ (by positivity), mul_comm]
      apply mul_le_mul_of_nonneg_right _ hp
      exact_mod_cast hi

/-! ### Expected values -/

/-- If no jump is expected, then none happens. -/
@[simp]
theorem jumpMean_zero (f : Nat → ℝ) :
  jumpMean 0 f = f 0
  := by
  rw [jumpMean, tsum_eq_single 0]
  · simp
  · intro i hi
    simp [jumpProbability, hi]

/-- The expected value of a constant. -/
@[simp]
theorem jumpMean_const (rate x : ℝ) :
  jumpMean rate (fun _ => x) = x
  := by
  have h := (hasSum_jumpProbability rate).mul_right x
  rw [one_mul] at h
  apply h.tsum_eq

/-- A sum over pairs of numbers may be taken by the sums of the pairs. -/
theorem tsum_antidiagonal {F : Nat × Nat → ℝ} (h : Summable F) :
  (tsum fun n => ∑ p ∈ Finset.HasAntidiagonal.antidiagonal n, F p) = tsum F
  := by
  let pairs := Finset.HasAntidiagonal.sigmaAntidiagonalEquivProd (A := Nat)
  have hpairs : Summable fun x => F (pairs x) := pairs.summable_iff.mpr h
  rw [← pairs.tsum_eq, hpairs.tsum_sigma' fun n => (hasSum_fintype _).summable]
  apply tsum_congr
  intro n
  rw [tsum_fintype]
  exact (Finset.sum_finset_coe F _).symm

section Bounded

variable {f g : Nat → ℝ} (hrate : 0 ≤ rate) (hf : ∀ i, f i ∈ Set.Icc 0 1)

include hrate hf

/-- The expected value of values between zero and one converges. -/
theorem hasSum_jumpMean :
  HasSum (fun i => jumpProbability rate i * f i) (jumpMean rate f)
  := by
  apply Summable.hasSum
  apply Summable.of_nonneg_of_le _ _ (hasSum_jumpProbability rate).summable
  · intro i
    apply mul_nonneg (jumpProbability_nonneg hrate i) (hf i).1
  · intro i
    apply mul_le_of_le_one_right (jumpProbability_nonneg hrate i) (hf i).2

/-- The expected value of values between zero and one is between zero and one. -/
theorem jumpMean_mem_Icc :
  jumpMean rate f ∈ Set.Icc 0 1
  := by
  constructor
  · apply (hasSum_jumpMean hrate hf).nonneg
    intro i
    apply mul_nonneg (jumpProbability_nonneg hrate i) (hf i).1
  · apply hasSum_le _ (hasSum_jumpMean hrate hf) (hasSum_jumpProbability rate)
    intro i
    apply mul_le_of_le_one_right (jumpProbability_nonneg hrate i) (hf i).2

/-- Larger values have a larger expected value. -/
theorem jumpMean_mono (hg : ∀ i, g i ∈ Set.Icc 0 1) (h : ∀ i, f i ≤ g i) :
  jumpMean rate f ≤ jumpMean rate g
  := by
  apply hasSum_le _ (hasSum_jumpMean hrate hf) (hasSum_jumpMean hrate hg)
  intro i
  apply mul_le_mul_of_nonneg_left (h i) (jumpProbability_nonneg hrate i)

/-- The expected value of what the values lack to one is what their expected value lacks to one. -/
theorem jumpMean_one_sub :
  jumpMean rate (fun i => 1 - f i) = 1 - jumpMean rate f
  := by
  apply HasSum.tsum_eq
  simp only [mul_sub, mul_one]
  apply (hasSum_jumpProbability rate).sub (hasSum_jumpMean hrate hf)

/-- The part of the expected value at most `r` jumps is not above it. -/
theorem sum_le_jumpMean (r : Nat) :
  ∑ i ∈ Finset.range (r + 1), jumpProbability rate i * f i ≤ jumpMean rate f
  := by
  apply sum_le_hasSum _ _ (hasSum_jumpMean hrate hf)
  intro i _
  apply mul_nonneg (jumpProbability_nonneg hrate i) (hf i).1

/-- The expected value is above its part at most `r` jumps by no more than the probability of more
jumps. -/
theorem jumpMean_le_sum_add (r : Nat) :
  jumpMean rate f ≤ ∑ i ∈ Finset.range (r + 1), jumpProbability rate i * f i
    + (1 - ∑ i ∈ Finset.range (r + 1), jumpProbability rate i)
  := by
  have h := sum_le_jumpMean hrate (f := fun i => 1 - f i)
    (fun i => ⟨sub_nonneg.mpr (hf i).2, sub_le_self 1 (hf i).1⟩) r
  rw [jumpMean_one_sub hrate hf] at h
  simp only [mul_sub, mul_one, Finset.sum_sub_distrib] at h
  linarith

/-- The expected value at the number of jumps in two times may be taken first over the jumps in the
one and then over those in the other. -/
theorem jumpMean_add {rate' : ℝ} (hrate' : 0 ≤ rate') :
  jumpMean (rate + rate') f = jumpMean rate fun i => jumpMean rate' fun j => f (j + i)
  := by
  have hsummable : Summable fun p : Nat × Nat =>
      jumpProbability rate p.1 * jumpProbability rate' p.2 * f (p.2 + p.1) := by
    apply Summable.of_nonneg_of_le _ _ ((hasSum_jumpProbability rate).summable.mul_of_nonneg
      (hasSum_jumpProbability rate').summable (jumpProbability_nonneg hrate)
      (jumpProbability_nonneg hrate'))
    · intro p
      apply mul_nonneg (mul_nonneg (jumpProbability_nonneg hrate _)
        (jumpProbability_nonneg hrate' _)) (hf _).1
    · intro p
      apply mul_le_of_le_one_right (mul_nonneg (jumpProbability_nonneg hrate _)
        (jumpProbability_nonneg hrate' _)) (hf _).2
  calc jumpMean (rate + rate') f
      = tsum fun n => ∑ p ∈ Finset.HasAntidiagonal.antidiagonal n,
          jumpProbability rate p.1 * jumpProbability rate' p.2 * f (p.2 + p.1) := by
        apply tsum_congr
        intro n
        rw [jumpProbability_add, Finset.sum_mul]
        apply Finset.sum_congr rfl
        intro p hp
        rw [add_comm p.2, Finset.HasAntidiagonal.mem_antidiagonal.mp hp]
    _ = tsum fun p : Nat × Nat =>
          jumpProbability rate p.1 * jumpProbability rate' p.2 * f (p.2 + p.1) :=
        tsum_antidiagonal hsummable
    _ = jumpMean rate fun i => jumpMean rate' fun j => f (j + i) := by
        rw [hsummable.tsum_prod]
        simp only [jumpMean, mul_assoc, tsum_mul_left]

end Bounded

end Reachability
