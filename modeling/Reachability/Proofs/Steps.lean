import Mathlib
import Reachability.Proofs.Jumps

/-!
# Numbers of jumps in steps

In each of `k` steps nothing happens with probability `stay`, and otherwise there is a jump.
`stepMean stay k f` is the expected value of `f` at the number of jumps, which follows a binomial
distribution.

If a step is one without a jump with the probability that none happens in a time, then the steps
count at most one jump in each such time.  For values between zero and one that rise with the number
of jumps, that takes at most half the square of the expected number of jumps in a step off the
expected value, for each step (`stepMean_bounds`).
-/

namespace Reachability

/-- The expected value of a function of the number of jumps in `k` steps, each of which is one
without a jump with probability `stay`. -/
noncomputable def stepMean (stay : ℝ) (k : Nat) (f : Nat → ℝ) : ℝ :=
  ∑ i ∈ Finset.range (k + 1), k.choose i * (1 - stay) ^ i * stay ^ (k - i) * f i

variable {stay rate : ℝ}

/-- In no step there is no jump. -/
@[simp]
theorem stepMean_zero (f : Nat → ℝ) :
  stepMean stay 0 f = f 0
  := by
  simp [stepMean]

/-- In one step more there may be one jump more. -/
theorem stepMean_succ (k : Nat) (f : Nat → ℝ) :
  stepMean stay (k + 1) f
    = stay * stepMean stay k f + (1 - stay) * stepMean stay k fun i => f (i + 1)
  := by
  have h := Finset.sum_choose_succ_mul (fun i j => (1 - stay) ^ i * stay ^ j * f i) k
  simp only [← mul_assoc] at h
  rw [stepMean, h, stepMean, stepMean, Finset.mul_sum, Finset.mul_sum]
  congr 1
  · apply Finset.sum_congr rfl
    intro i hi
    rw [Nat.succ_sub (Nat.le_of_lt_succ (Finset.mem_range.mp hi)), pow_succ]
    ring
  · apply Finset.sum_congr rfl
    intro i _
    ring

/-- The expected value of a constant. -/
@[simp]
theorem stepMean_const (k : Nat) (x : ℝ) :
  stepMean stay k (fun _ => x) = x
  := by
  induction k with
  | zero => apply stepMean_zero
  | succ k ih =>
      rw [stepMean_succ, ih]
      ring

/-- Larger values have a larger expected value. -/
theorem stepMean_mono (hstay : stay ∈ Set.Icc 0 1) (k : Nat) {f g : Nat → ℝ}
    (h : ∀ i, f i ≤ g i) :
  stepMean stay k f ≤ stepMean stay k g
  := by
  apply Finset.sum_le_sum
  intro i _
  apply mul_le_mul_of_nonneg_left (h i)
  have hjump := sub_nonneg.mpr hstay.2
  have hstay := hstay.1
  positivity

/-! ### Jumps in a short time -/

section Short

variable {f : Nat → ℝ} (hrate : 0 ≤ rate) (hf : ∀ i, f i ∈ Set.Icc 0 1)

include hrate hf

/-- At most one jump counts no more than all jumps. -/
theorem atMostOne_le_jumpMean (hmono : Monotone f) :
  Real.exp (-rate) * f 0 + (1 - Real.exp (-rate)) * f 1 ≤ jumpMean rate f
  := by
  have hjump := (hasSum_nat_add_iff' 1).mpr (hasSum_jumpProbability rate)
  have hmean := (hasSum_nat_add_iff' 1).mpr (hasSum_jumpMean hrate hf)
  simp only [Finset.sum_range_one, jumpProbability_zero] at hjump hmean
  have h := hasSum_le (fun i => ?_) (hjump.mul_right (f 1)) hmean
  · linarith
  · apply mul_le_mul_of_nonneg_left _ (jumpProbability_nonneg hrate _)
    apply hmono
    apply Nat.le_add_left

/-- All jumps count no more than at most one jump, up to half the square of their expected number,
which bounds the probability of several jumps. -/
theorem jumpMean_le_atMostOne_add :
  jumpMean rate f
    ≤ Real.exp (-rate) * f 0 + (1 - Real.exp (-rate)) * f 1 + rate ^ 2 / 2
  := by
  have hjump := (hasSum_nat_add_iff' 1).mpr (hasSum_jumpProbability rate)
  have hpairs := (hasSum_nat_add_iff' 1).mpr ((hasSum_pairs_jumpProbability rate).div_const 2)
  have hmean := (hasSum_nat_add_iff' 1).mpr (hasSum_jumpMean hrate hf)
  simp only [Finset.sum_range_one, jumpProbability_zero, Nat.cast_zero, zero_mul, zero_div,
    sub_zero] at hjump hpairs hmean
  have h := hasSum_le (fun i => ?_) hmean ((hjump.mul_right (f 1)).add hpairs)
  · linarith
  · have hp := jumpProbability_nonneg hrate (i + 1)
    cases i with
    | zero => simp
    | succ i =>
        have hseveral : (1 : ℝ) ≤ ((i + 1 + 1 : Nat) : ℝ) * (((i + 1 + 1 : Nat) : ℝ) - 1) / 2 := by
          push_cast
          nlinarith [(Nat.cast_nonneg i : (0 : ℝ) ≤ i)]
        have hbelow := mul_le_mul_of_nonneg_left ((hf (i + 1 + 1)).2) hp
        have habove := mul_nonneg hp (hf 1).1
        have hpair := mul_le_mul_of_nonneg_right hseveral hp
        linarith

end Short

/-! ### Jumps in steps -/

/-- If the expected number of jumps is the same in each of `k` steps, then counting at most one jump
in each step takes at most half its square for each step off the expected value of values that rise
with the number of jumps. -/
theorem stepMean_bounds (hrate : 0 ≤ rate) (k : Nat) {f : Nat → ℝ} (hf : ∀ i, f i ∈ Set.Icc 0 1)
    (hmono : Monotone f) :
  stepMean (Real.exp (-rate)) k f ≤ jumpMean (k * rate) f
    ∧ jumpMean (k * rate) f ≤ stepMean (Real.exp (-rate)) k f + k * (rate ^ 2 / 2)
  := by
  have hstay := (Real.exp_pos (-rate)).le
  have hjump : 0 ≤ 1 - Real.exp (-rate) := by
    rw [sub_nonneg, Real.exp_le_one_iff]
    linarith
  induction k generalizing f with
  | zero => simp
  -- The jumps in the first step are split off, and those in the other steps are counted from there.
  | succ k ih =>
      have hk : 0 ≤ k * rate := mul_nonneg (Nat.cast_nonneg k) hrate
      have hrest : ∀ i, (jumpMean (k * rate) fun j => f (j + i)) ∈ Set.Icc 0 1 := by
        intro i
        apply jumpMean_mem_Icc hk
        intro j
        apply hf
      have hrises : Monotone fun i => jumpMean (k * rate) fun j => f (j + i) := by
        intro i i' hi
        apply jumpMean_mono hk (fun j => hf _) (fun j => hf _)
        intro j
        apply hmono
        apply Nat.add_le_add_left hi
      have hsplit : jumpMean ((k + 1 : Nat) * rate) f
          = jumpMean rate fun i => jumpMean (k * rate) fun j => f (j + i) := by
        rw [← jumpMean_add hrate hf hk]
        push_cast
        ring_nf
      obtain ⟨hnone, hnone'⟩ := ih hf hmono
      obtain ⟨hone, hone'⟩ := ih (f := fun i => f (i + 1)) (fun i => hf _)
        fun i i' hi => hmono (Nat.add_le_add_right hi 1)
      have hlower := atMostOne_le_jumpMean hrate hrest hrises
      have hupper := jumpMean_le_atMostOne_add hrate hrest
      rw [hsplit, stepMean_succ]
      constructor
      · have hstay' := mul_le_mul_of_nonneg_left hnone hstay
        have hjump' := mul_le_mul_of_nonneg_left hone hjump
        exact le_trans (add_le_add hstay' hjump') hlower
      · have hstay' := mul_le_mul_of_nonneg_left hnone' hstay
        have hjump' := mul_le_mul_of_nonneg_left hone' hjump
        apply le_trans (le_trans hupper (add_le_add_left (add_le_add hstay' hjump') _))
        push_cast
        linarith

/-- If the square of the expected number of jumps is at most the number of steps times twice an
error, then counting at most one jump in each step takes at most that error off the expected
value. -/
theorem stepMean_error {k : Nat} (hk : k ≠ 0) {jumps error : ℝ} (hjumps : 0 ≤ jumps)
    (hsquare : jumps ^ 2 ≤ k * (2 * error)) {f : Nat → ℝ} (hf : ∀ i, f i ∈ Set.Icc 0 1)
    (hmono : Monotone f) :
  jumpMean jumps f - error ≤ stepMean (Real.exp (-(jumps / k))) k f
    ∧ stepMean (Real.exp (-(jumps / k))) k f ≤ jumpMean jumps f
  := by
  have hpos : (0 : ℝ) < k := Nat.cast_pos.mpr (Nat.pos_of_ne_zero hk)
  have hall : k * (jumps / k) = jumps := mul_div_cancel₀ _ hpos.ne'
  have hmissed : k * ((jumps / k) ^ 2 / 2) ≤ error := by
    have hper : k * ((jumps / k) ^ 2 / 2) = jumps ^ 2 / (k * 2) := by
      field_simp
    rw [hper, div_le_iff₀ (by positivity)]
    linarith
  have h := stepMean_bounds (div_nonneg hjumps hpos.le) k hf hmono
  rw [hall] at h
  constructor
  · linarith [h.2]
  · apply h.1

end Reachability
