import Mathlib
import Reachability.Poisson
import Reachability.Proofs.Exact
import Reachability.Proofs.Jumps

/-!
# Exact Poisson weights

The weights that are added up from no jump on are the probabilities of the first numbers of jumps
(`PoissonWeights.upTo`), up to the first number at which they can end (`PoissonWeights.Ends`).  The
fuel lasts until then, since the bound on the probability of more jumps gets below half the accuracy
before it is spent (`PoissonWeights.compute_eq_ok_iff`).  Without an underflow threshold they cover
all but half the accuracy (`PoissonWeights.exists_compute_eq`).

Once they are divided by their sum, they weigh values between zero and one as the probabilities do,
up to the probability that is not covered (`PoissonWeights.abs_sum_sub_jumpMean_le`).
-/

namespace Reachability

namespace PoissonWeights

/-- The probabilities of at most `r` jumps as weights. -/
noncomputable def upTo (rate : ℝ) (r : Nat) : PoissonWeights ℝ where
  left := 0
  weights := (Array.range (r + 1)).map (jumpProbability rate)
  total := ∑ i ∈ Finset.range (r + 1), jumpProbability rate i

variable {rate : ℝ}

/-- The sum of the weights is the probability of at most `r` jumps. -/
theorem total_upTo (r : Nat) :
  (upTo rate r).total = ∑ i ∈ Finset.range (r + 1), jumpProbability rate i
  := rfl

/-- The last weight is that of `r` jumps. -/
@[simp]
theorem right_upTo (r : Nat) :
  (upTo rate r).right = r
  := by
  simp [right, upTo]

/-- Dividing weights by their sum does not change the truncation points. -/
@[simp]
theorem right_normalize {V : Type} [Arithmetic V] (w : PoissonWeights V) :
  w.normalize.right = w.right
  := by
  simp [right, normalize]

/-- The first weight is that of no jump. -/
theorem upTo_zero :
  upTo rate 0 = ⟨0, #[Real.exp (-rate)], Real.exp (-rate)⟩
  := by
  have hrange : Array.range 1 = #[0] := rfl
  simp [upTo, hrange]

/-- The weight of one jump more is added at the end. -/
theorem upTo_succ (r : Nat) :
  upTo rate (r + 1)
    = { left := 0
        weights := (upTo rate r).weights.push (jumpProbability rate (r + 1))
        total := (upTo rate r).total + jumpProbability rate (r + 1) }
  := by
  simp [upTo, Array.range_succ, Finset.sum_range_succ]

/-- A weight that is divided by their sum. -/
theorem weight_normalize_upTo {r i : Nat} (hi : i ≤ r) :
  (upTo rate r).normalize.weight i = jumpProbability rate i / (upTo rate r).total
  := by
  have hlt : i < r + 1 := Nat.lt_succ_of_le hi
  simp [weight, normalize, upTo, hlt]

/-- The sum of the weights is positive and at most one. -/
theorem total_upTo_mem_Ioc (hrate : 0 < rate) (r : Nat) :
  (upTo rate r).total ∈ Set.Ioc 0 1
  := by
  rw [total_upTo]
  constructor
  · apply Finset.sum_pos
    · intro i _
      apply jumpProbability_pos hrate
    · simp
  · apply sum_le_hasSum _ _ (hasSum_jumpProbability rate)
    intro i _
    apply jumpProbability_nonneg hrate.le

/-! ### Adding up probabilities -/

/-- The weights can end at `r` jumps: their sum is the desired one, or they are past the mode and
the next one is below the underflow threshold. -/
def Ends (rate underflow desired : ℝ) (r : Nat) : Prop :=
  desired ≤ (upTo rate r).total ∨ rate < r ∧ jumpProbability rate (r + 1) < underflow

/-- A pass of the loop that adds up weights.  The loop ends, or goes on with a number of jumps, its
weight and all weights so far. -/
def extendPass {V : Type} [Arithmetic V] (rate underflow desired : V) :
    Nat × V × PoissonWeights V → Option (Nat × V × PoissonWeights V)
  | (jumps, last, w) =>
    if w.total < desired then
      let next := last * rate / Arithmetic.ofNat (jumps + 1)
      if (next ≤ 0 ∨ next < underflow) ∧ rate < Arithmetic.ofNat jumps then none
      else
        some (jumps + 1, next, { w with weights := w.weights.push next, total := w.total + next })
    else none

/-- Adding up weights makes a pass unless the fuel is spent. -/
theorem extend_succ {V : Type} [Arithmetic V] (rate underflow desired : V) (fuel jumps : Nat)
    (last : V) (w : PoissonWeights V) :
  extend rate underflow desired (fuel + 1) jumps last w
    = (extendPass rate underflow desired (jumps, last, w)).elim w fun (jumps', last', w') =>
      extend rate underflow desired fuel jumps' last' w'
  := by
  rw [extend, extendPass]
  split
  · dsimp only
    split
    · rfl
    · rfl
  · rfl

/-- From probabilities a pass goes on with one probability more, unless the weights can end. -/
theorem extendPass_upTo (hrate : 0 < rate) {underflow desired : ℝ} (r : Nat) :
  (Ends rate underflow desired r
      → extendPass rate underflow desired (r, jumpProbability rate r, upTo rate r) = none)
    ∧ (¬ Ends rate underflow desired r
      → extendPass rate underflow desired (r, jumpProbability rate r, upTo rate r)
        = some (r + 1, jumpProbability rate (r + 1), upTo rate (r + 1)))
  := by
  have hnext : jumpProbability rate r * rate / Arithmetic.ofNat (r + 1)
      = jumpProbability rate (r + 1) := by
    rw [jumpProbability_succ]
    change _ / ((r + 1 : Nat) : ℝ) = _
    rw [Nat.cast_succ]
  have hgain : ((jumpProbability rate (r + 1) ≤ 0 ∨ jumpProbability rate (r + 1) < underflow)
      ∧ rate < Arithmetic.ofNat r) ↔ rate < r ∧ jumpProbability rate (r + 1) < underflow := by
    rw [or_iff_right (not_le_of_gt (jumpProbability_pos hrate (r + 1))), and_comm]
    rfl
  rw [extendPass, hnext]
  dsimp only
  constructor
  · intro hends
    split
    · next hshort =>
        apply if_pos
        apply hgain.mpr (hends.resolve_left (not_le_of_gt hshort))
    · rfl
  · intro hends
    obtain ⟨hshort, hmore⟩ := not_or.mp hends
    rw [if_pos (not_le.mp hshort), if_neg (fun h => hmore (hgain.mp h)), upTo_succ]
    rfl

/-- Weights that are probabilities are extended by probabilities up to the first number of jumps
at which they can end, unless the fuel is spent before. -/
theorem exists_extend_upTo (hrate : 0 < rate) (underflow desired : ℝ) (fuel r : Nat)
    (hbefore : ∀ i < r, ¬ Ends rate underflow desired i) :
  ∃ r', extend rate underflow desired fuel r (jumpProbability rate r) (upTo rate r) = upTo rate r'
    ∧ (∀ i < r', ¬ Ends rate underflow desired i)
    ∧ (Ends rate underflow desired r' ∨ r' = r + fuel)
  := by
  induction fuel generalizing r with
  | zero => exact ⟨r, rfl, hbefore, Or.inr rfl⟩
  | succ fuel ih =>
      rw [extend_succ]
      by_cases hends : Ends rate underflow desired r
      · rw [(extendPass_upTo hrate r).1 hends]
        exact ⟨r, rfl, hbefore, Or.inl hends⟩
      · rw [(extendPass_upTo hrate r).2 hends]
        have hmore : ∀ i < r + 1, ¬ Ends rate underflow desired i := by
          intro i hi
          obtain hi | rfl := Nat.lt_succ_iff_lt_or_eq.mp hi
          · apply hbefore i hi
          · apply hends
        obtain ⟨r', hextend, hfirst, hstop⟩ := ih (r + 1) hmore
        refine ⟨r', hextend, hfirst, hstop.imp_right ?_⟩
        rintro rfl
        rw [Nat.add_right_comm, Nat.add_assoc]

/-- The fuel lasts until the probability of more jumps is at most half the accuracy. -/
theorem le_total_directFuel (hrate : 0 < rate) {accuracy : ℝ} (haccuracy : 0 < accuracy) :
  1 - accuracy / 2 ≤ (upTo rate (directFuel rate accuracy)).total
  := by
  have htail := one_sub_sum_jumpProbability_le hrate.le (directFuel rate accuracy)
  have hfuel : 2 * rate / accuracy ≤ (directFuel rate accuracy : ℝ) + 1 := by
    have hceil : 2 * rate / accuracy ≤ ⌈2 * rate / accuracy⌉₊ := Nat.le_ceil _
    have hle : (⌈2 * rate / accuracy⌉₊ : ℝ) ≤ (directFuel rate accuracy : ℝ) := by
      exact_mod_cast Nat.le_add_right _ 4096
    linarith
  have hcovered : rate / ((directFuel rate accuracy : ℝ) + 1) ≤ accuracy / 2 := by
    rw [div_le_iff₀ haccuracy] at hfuel
    rw [div_le_iff₀ (by positivity)]
    linarith
  rw [total_upTo]
  linarith

/-- Unless the weight of no jump is below the underflow threshold, the direct method finds the
probabilities up to the first number of jumps at which they can end. -/
theorem exists_direct_eq (hrate : 0 < rate) {underflow accuracy : ℝ} (haccuracy : 0 < accuracy)
    (hunderflow : underflow ≤ Real.exp (-rate)) :
  ∃ r, direct rate underflow accuracy = .ok (upTo rate r)
    ∧ IsLeast {i | Ends rate underflow (1 - accuracy / 2) i} r
  := by
  have hfirst : ¬ ((Arithmetic.exp (-rate) : ℝ) ≤ 0 ∨ (Arithmetic.exp (-rate) : ℝ) < underflow) := by
    rintro (h | h)
    · apply not_lt_of_ge h (Real.exp_pos (-rate))
    · apply not_lt_of_ge hunderflow h
  obtain ⟨r, hextend, hbefore, hstop⟩ :=
    exists_extend_upTo hrate underflow (1 - accuracy / 2) (directFuel rate accuracy) 0
      fun i hi => absurd hi (Nat.not_lt_zero i)
  use r
  constructor
  · rw [direct, if_neg hfirst]
    rw [← hextend, upTo_zero, jumpProbability_zero]
    rfl
  · constructor
    · obtain hends | rfl := hstop
      · exact hends
      · left
        rw [Nat.zero_add]
        apply le_total_directFuel hrate haccuracy
    · intro i hi
      by_contra hlt
      apply hbefore i (Nat.lt_of_not_le hlt) hi

/-! ### The weights for a rate -/

/-- The thresholds of exact weights are numbers, so that only the rate, the accuracy and the
underflow threshold are checked. -/
theorem validate_eq_ok_iff {underflow overflow accuracy : ℝ} :
  validate rate underflow overflow accuracy = .ok () ↔ 0 < rate ∧ 0 < accuracy ∧ 0 ≤ underflow
  := by
  have hfinite : ∀ x : ℝ, Arithmetic.isFinite x = true := fun _ => rfl
  simp only [validate, Arithmetic.isNaN_real, hfinite, Bool.true_eq_false, Bool.false_eq_true, false_or]
  split
  · next h => simp [not_lt_of_ge h]
  · next hrate =>
      split
      · next h => simp [not_lt_of_ge h]
      · next haccuracy =>
          split
          · next h => simp [not_le_of_gt h]
          · next hunderflow =>
              rw [not_le] at hrate haccuracy
              rw [not_lt] at hunderflow
              simp [hrate, haccuracy, hunderflow]

/-- Weights can be computed for positive rates and accuracies only, and for underflow thresholds
that are not negative. -/
theorem valid_of_compute_eq_ok {underflow overflow accuracy : ℝ} {weights : PoissonWeights ℝ}
    (h : (compute rate underflow overflow accuracy : Except (CheckError ℝ ℝ) _) = .ok weights) :
  0 < rate ∧ 0 < accuracy ∧ 0 ≤ underflow
  := by
  rw [compute] at h
  cases hvalid : validate rate underflow overflow accuracy with
  | error e =>
      rw [hvalid] at h
      cases h
  | ok u => exact validate_eq_ok_iff.mp hvalid

/-- Weights can be computed for positive rates and accuracies only. -/
theorem pos_of_compute_eq_ok {underflow overflow accuracy : ℝ} {weights : PoissonWeights ℝ}
    (h : (compute rate underflow overflow accuracy : Except (CheckError ℝ ℝ) _) = .ok weights) :
  0 < rate ∧ 0 < accuracy
  := by
  obtain ⟨hrate, haccuracy, -⟩ := valid_of_compute_eq_ok h
  exact ⟨hrate, haccuracy⟩

/-- For valid parameters and a rate below the limit of the direct method, that method is used. -/
theorem compute_eq_direct {underflow overflow accuracy : ℝ} (hrate : 0 < rate) (hlimit : rate < 400)
    (haccuracy : 0 < accuracy) (hunderflow : 0 ≤ underflow) :
  (compute rate underflow overflow accuracy : Except (CheckError ℝ ℝ) _)
    = (direct rate underflow accuracy).mapError .poissonOverflow
  := by
  have hvalid : validate rate underflow overflow accuracy = .ok () :=
    validate_eq_ok_iff.mpr ⟨hrate, haccuracy, hunderflow⟩
  have hwide : (Precision.widen rate : ℝ) < directLimit := hlimit
  rw [compute, hvalid]
  simp only [Except.mapError, bind, Except.bind, if_pos hwide]

/-- Weights can be computed for a rate below the limit of the direct method unless the weight of no
jump is below the underflow threshold, and then they are the probabilities up to the first number
of jumps at which they can end. -/
theorem compute_eq_ok_iff {underflow overflow accuracy : ℝ} {weights : PoissonWeights ℝ}
    (hlimit : rate < 400) :
  (compute rate underflow overflow accuracy : Except (CheckError ℝ ℝ) _) = .ok weights
    ↔ (0 < rate ∧ 0 < accuracy ∧ 0 ≤ underflow) ∧ underflow ≤ Real.exp (-rate)
      ∧ ∃ r, IsLeast {i | Ends rate underflow (1 - accuracy / 2) i} r ∧ weights = upTo rate r
  := by
  constructor
  · intro h
    obtain ⟨hrate, haccuracy, hunderflow⟩ := valid_of_compute_eq_ok h
    rw [compute_eq_direct hrate hlimit haccuracy hunderflow] at h
    have hexp : underflow ≤ Real.exp (-rate) := by
      by_contra hbelow
      have hfirst : (Arithmetic.exp (-rate) : ℝ) ≤ 0 ∨ (Arithmetic.exp (-rate) : ℝ) < underflow :=
        Or.inr (lt_of_not_ge hbelow)
      rw [direct, if_pos hfirst] at h
      cases h
    obtain ⟨r, hdirect, hleast⟩ := exists_direct_eq hrate haccuracy hexp
    rw [hdirect] at h
    cases h
    exact ⟨⟨hrate, haccuracy, hunderflow⟩, hexp, r, hleast, rfl⟩
  · rintro ⟨⟨hrate, haccuracy, hunderflow⟩, hexp, r, hleast, rfl⟩
    obtain ⟨r', hdirect, hleast'⟩ := exists_direct_eq hrate haccuracy hexp
    obtain rfl := hleast.unique hleast'
    rw [compute_eq_direct hrate hlimit haccuracy hunderflow, hdirect]
    rfl

/-- Without an underflow threshold, the weights for a rate below the limit of the direct method are
probabilities that cover all but half the accuracy. -/
theorem exists_compute_eq (overflow : ℝ) {accuracy : ℝ} (hrate : 0 < rate) (hlimit : rate < 400)
    (haccuracy : 0 < accuracy) :
  ∃ r, (compute rate 0 overflow accuracy : Except (CheckError ℝ ℝ) _) = .ok (upTo rate r)
    ∧ 1 - accuracy / 2 ≤ (upTo rate r).total
  := by
  obtain ⟨r, hdirect, hleast⟩ := exists_direct_eq hrate haccuracy (Real.exp_pos (-rate)).le
  refine ⟨r, ?_, ?_⟩
  · rw [compute_eq_direct hrate hlimit haccuracy le_rfl, hdirect]
    rfl
  · obtain hcovered | ⟨-, hbelow⟩ := hleast.1
    · exact hcovered
    · exact absurd hbelow (not_lt_of_ge (jumpProbability_nonneg hrate.le _))

/-! ### Weighing values -/

/-- Probabilities that are divided by their sum weigh values between zero and one as all
probabilities do, up to the probability that they do not cover. -/
theorem abs_sum_sub_jumpMean_le (hrate : 0 < rate) {f : Nat → ℝ} (hf : ∀ i, f i ∈ Set.Icc 0 1)
    (r : Nat) :
  |∑ i ∈ Finset.Icc (upTo rate r).left r, (upTo rate r).normalize.weight i * f i
      - jumpMean rate f| ≤ 1 - (upTo rate r).total
  := by
  obtain ⟨hpos, hone⟩ := total_upTo_mem_Ioc hrate r
  have hlower := sum_le_jumpMean hrate.le hf r
  have hupper := jumpMean_le_sum_add hrate.le hf r
  have hnonneg : 0 ≤ ∑ i ∈ Finset.range (r + 1), jumpProbability rate i * f i := by
    apply Finset.sum_nonneg
    intro i _
    apply mul_nonneg (jumpProbability_nonneg hrate.le i) (hf i).1
  have hpart : ∑ i ∈ Finset.range (r + 1), jumpProbability rate i * f i ≤ (upTo rate r).total := by
    rw [total_upTo]
    apply Finset.sum_le_sum
    intro i _
    apply mul_le_of_le_one_right (jumpProbability_nonneg hrate.le i) (hf i).2
  have hsum : ∑ i ∈ Finset.Icc (upTo rate r).left r, (upTo rate r).normalize.weight i * f i
      = (∑ i ∈ Finset.range (r + 1), jumpProbability rate i * f i) / (upTo rate r).total := by
    have hrange : Finset.Icc (upTo rate r).left r = Finset.range (r + 1) := by
      ext i
      simp [upTo]
    rw [Finset.sum_div, hrange]
    apply Finset.sum_congr rfl
    intro i hi
    rw [weight_normalize_upTo (Nat.le_of_lt_succ (Finset.mem_range.mp hi))]
    ring
  rw [← total_upTo] at hupper
  rw [hsum]
  generalize ∑ i ∈ Finset.range (r + 1), jumpProbability rate i * f i = part at *
  generalize (upTo rate r).total = total at *
  have hgrown : part ≤ part / total := le_div_self hnonneg hpos hone
  have hgap : part / total - part ≤ 1 - total := by
    calc part / total - part
        = part / total * (1 - total) := by field_simp
      _ ≤ 1 * (1 - total) :=
          mul_le_mul_of_nonneg_right ((div_le_one hpos).mpr hpart) (sub_nonneg.mpr hone)
      _ = 1 - total := one_mul _
  rw [abs_le]
  constructor <;> linarith

end PoissonWeights

end Reachability
