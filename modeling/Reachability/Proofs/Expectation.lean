import Mathlib
import Reachability.Proofs.Choice

/-!
# Exact expected values

Facts about the expected value of the successors in a row, for exact values: it is monotone in
the valuation, it is positive where a successor with positive value exists, and if the masses
of the row sum to one it lies between bounds of the values and moves away from a bound with every
successor whose value does.
-/

namespace Reachability

/-- The expected value depends on the values of the successors only. -/
theorem expectation_congr {V : Type} [Arithmetic V] {row : List (Nat × V)} {v w : Nat → V}
    (h : ∀ e ∈ row, v e.1 = w e.1) :
  expectation row v = expectation row w
  := by
  rw [expectation, expectation]
  congr 1
  apply List.map_congr_left
  rintro ⟨s, p⟩ he
  exact congrArg (p * ·) (h (s, p) he)

/-- The exact expected value is a sum over the entries of the row. -/
theorem expectation_real (row : List (Nat × ℝ)) (v : Nat → ℝ) :
  expectation row v = (row.map fun e => e.2 * v e.1).sum
  := by
  rw [expectation, Arithmetic.sum_real]

/-- Without successors the expected value is zero. -/
@[simp]
theorem expectation_nil (v : Nat → ℝ) :
  expectation [] v = 0
  := by
  rw [expectation_real, List.map_nil, List.sum_nil]

section Row

variable {row : List (Nat × ℝ)} {v w : Nat → ℝ} {x : ℝ}

/-- Larger values have a larger expected value. -/
theorem expectation_mono (hrow : ∀ e ∈ row, 0 < e.2) (h : ∀ e ∈ row, v e.1 ≤ w e.1) :
  expectation row v ≤ expectation row w
  := by
  rw [expectation_real, expectation_real]
  apply List.sum_le_sum
  intro e he
  apply mul_le_mul_of_nonneg_left (h e he) (hrow e he).le

/-- If no value improves on another one for a direction, then the expected value does not improve
on that of the other values. -/
theorem improves_expectation {d : Direction} (hrow : ∀ e ∈ row, 0 < e.2)
    (h : ∀ e ∈ row, d.improves (v e.1) (w e.1) = false) :
  d.improves (expectation row v) (expectation row w) = false
  := by
  cases d with
  | min =>
      simp only [Direction.improves, decide_eq_false_iff_not, not_lt] at h ⊢
      apply expectation_mono hrow h
  | max =>
      simp only [Direction.improves, decide_eq_false_iff_not, not_lt] at h ⊢
      apply expectation_mono hrow h

/-- An entry contributes at most the expected value, if no value is negative. -/
theorem mul_le_expectation (hrow : ∀ e ∈ row, 0 < e.2) (hv : ∀ e ∈ row, 0 ≤ v e.1) :
  ∀ e ∈ row, e.2 * v e.1 ≤ expectation row v
  := by
  intro e he
  rw [expectation_real]
  apply List.single_le_sum
  · intro y hy
    obtain ⟨e', he', rfl⟩ := List.mem_map.mp hy
    apply mul_nonneg (hrow e' he').le (hv e' he')
  · apply List.mem_map.mpr ⟨e, he, rfl⟩

/-- The expected value of values that are not negative is not negative. -/
theorem expectation_nonneg (hrow : ∀ e ∈ row, 0 < e.2) (hv : ∀ e ∈ row, 0 ≤ v e.1) :
  0 ≤ expectation row v
  := by
  rw [expectation_real]
  apply List.sum_nonneg
  intro y hy
  obtain ⟨e, he, rfl⟩ := List.mem_map.mp hy
  apply mul_nonneg (hrow e he).le (hv e he)

/-- The expected value is positive if some successor has a positive value, and none has a
negative one. -/
theorem expectation_pos_iff (hrow : ∀ e ∈ row, 0 < e.2) (hv : ∀ e ∈ row, 0 ≤ v e.1) :
  0 < expectation row v ↔ ∃ e ∈ row, 0 < v e.1
  := by
  constructor
  · intro h
    by_contra hnone
    apply absurd h (not_lt_of_ge _)
    have hzero : ∀ e ∈ row, v e.1 = 0 := by
      intro e he
      apply le_antisymm (not_lt.mp fun hpos => hnone ⟨e, he, hpos⟩) (hv e he)
    rw [expectation_congr (w := fun _ => 0) hzero, expectation_real]
    simp
  · rintro ⟨e, he, hpos⟩
    apply lt_of_lt_of_le (mul_pos (hrow e he) hpos)
    apply mul_le_expectation hrow hv e he

/-- Taking an amount off every value takes that amount, times the mass of the row, off the
expected value. -/
theorem expectation_sub_const (row : List (Nat × ℝ)) (v : Nat → ℝ) (x : ℝ) :
  expectation row (fun s => v s - x) = expectation row v - (row.map Prod.snd).sum * x
  := by
  rw [expectation_real, expectation_real]
  induction row with
  | nil => simp
  | cons e row ih =>
      simp only [List.map_cons, List.sum_cons] at ih ⊢
      rw [ih]
      ring

/-- The expected value of negated values is the negated one. -/
theorem expectation_neg (row : List (Nat × ℝ)) (v : Nat → ℝ) :
  expectation row (fun s => -v s) = -expectation row v
  := by
  rw [expectation_real, expectation_real]
  induction row with
  | nil => simp
  | cons e row ih =>
      simp only [List.map_cons, List.sum_cons] at ih ⊢
      rw [ih]
      ring

/-- If no value is below a bound, then an entry of mass at least `δ` whose value is at least `y` lifts
the expected value above the bound by the part `δ` of what `y` is above it. -/
theorem le_expectation_of_mem (hrow : ∀ e ∈ row, 0 < e.2) (hsum : (row.map Prod.snd).sum = 1)
    (hv : ∀ e ∈ row, x ≤ v e.1) {e : Nat × ℝ} (he : e ∈ row) {δ y : ℝ} (hpos : 0 ≤ δ)
    (hδ : δ ≤ e.2) (hy : y ≤ v e.1) :
  x + δ * (y - x) ≤ expectation row v
  := by
  have h := mul_le_expectation (v := fun s => v s - x) hrow
    (fun e' he' => sub_nonneg.mpr (hv e' he')) e he
  rw [expectation_sub_const, hsum, one_mul] at h
  have hvalue := mul_le_mul_of_nonneg_left (sub_le_sub_right hy x) hpos
  have hmass := mul_le_mul_of_nonneg_right hδ (sub_nonneg.mpr (hv e he))
  linarith

/-- If no value is above a bound, then an entry of mass at least `δ` whose value is at most `y` pulls
the expected value below the bound by the part `δ` of what `y` is below it. -/
theorem expectation_le_of_mem (hrow : ∀ e ∈ row, 0 < e.2) (hsum : (row.map Prod.snd).sum = 1)
    (hv : ∀ e ∈ row, v e.1 ≤ x) {e : Nat × ℝ} (he : e ∈ row) {δ y : ℝ} (hpos : 0 ≤ δ)
    (hδ : δ ≤ e.2) (hy : v e.1 ≤ y) :
  expectation row v ≤ x - δ * (x - y)
  := by
  have h := le_expectation_of_mem (v := fun s => -v s) (x := -x) hrow hsum
    (fun e' he' => neg_le_neg (hv e' he')) he hpos hδ (neg_le_neg hy)
  rw [expectation_neg] at h
  linarith

/-- The expected value is at most a bound of all values. -/
theorem expectation_le_const (hrow : ∀ e ∈ row, 0 < e.2) (hsum : (row.map Prod.snd).sum = 1)
    (hv : ∀ e ∈ row, v e.1 ≤ x) :
  expectation row v ≤ x
  := by
  have h := expectation_mono (w := fun _ => x) hrow hv
  have hconst := expectation_sub_const row (fun _ => x) x
  have hzero : expectation row (fun _ => x - x) = 0 := by
    rw [expectation_real]
    simp
  rw [hsum, one_mul, hzero] at hconst
  linarith

/-- If no value is above a bound that the expected value attains, then all values attain it. -/
theorem eq_of_le_expectation (hrow : ∀ e ∈ row, 0 < e.2) (hsum : (row.map Prod.snd).sum = 1)
    (hv : ∀ e ∈ row, v e.1 ≤ x) (h : x ≤ expectation row v) :
  ∀ e ∈ row, v e.1 = x
  := by
  intro e he
  have hpull := expectation_le_of_mem hrow hsum hv he (hrow e he).le (le_refl _) (le_refl _)
  apply le_antisymm (hv e he)
  apply le_of_sub_nonpos
  apply nonpos_of_mul_nonpos_right _ (hrow e he)
  linarith

end Row

/-! ### Sums over all states -/

/-- If no state occurs twice in a row, then the expected value is the sum over all states of their
masses times their values. -/
theorem sum_lookup_mul {row : List (Nat × ℝ)} {n : Nat} (hlt : ∀ e ∈ row, e.1 < n)
    (hdistinct : (row.map Prod.fst).Nodup) (v : Nat → ℝ) :
  ∑ t ∈ Finset.range n, (row.lookup t).getD 0 * v t = expectation row v
  := by
  rw [expectation_real]
  induction row with
  | nil => simp
  | cons e row ih =>
      obtain ⟨he, hlt⟩ := List.forall_mem_cons.mp hlt
      obtain ⟨hfirst, hdistinct⟩ := List.nodup_cons.mp hdistinct
      have hlookup : ∀ t, ((e :: row).lookup t).getD 0
          = (if t = e.1 then e.2 else 0) + (row.lookup t).getD 0 := by
        intro t
        rw [List.lookup_cons]
        split
        · next h =>
            obtain rfl := eq_of_beq h
            have hnone : row.lookup e.1 = none := by
              apply List.lookup_eq_none_iff.mpr
              intro e' he'
              apply bne_iff_ne.mpr
              intro hsame
              apply hfirst (List.mem_map.mpr ⟨e', he', hsame.symm⟩)
            rw [hnone, if_pos rfl, Option.getD_some, Option.getD_none, add_zero]
        · next h => rw [if_neg (ne_of_beq_false h), zero_add]
      rw [List.map_cons, List.sum_cons, ← ih hlt hdistinct]
      simp only [hlookup, add_mul, Finset.sum_add_distrib, ite_mul, zero_mul, Finset.sum_ite_eq',
        Finset.mem_range, he, if_true]

/-! ### Linear combinations -/

section Linear

variable (row : List (Nat × ℝ)) (v w : Nat → ℝ)

/-- The expected value of sums is the sum of the expected values. -/
theorem expectation_add :
  expectation row (fun s => v s + w s) = expectation row v + expectation row w
  := by
  simp only [expectation_real, mul_add, List.sum_map_add]

/-- The expected value of multiples is the multiple of the expected value. -/
theorem expectation_mul_left (x : ℝ) :
  expectation row (fun s => x * v s) = x * expectation row v
  := by
  simp only [expectation_real, mul_left_comm _ x, List.sum_map_mul_left]

/-- The expected value of differences is the difference of the expected values. -/
theorem expectation_sub :
  expectation row (fun s => v s - w s) = expectation row v - expectation row w
  := by
  simp only [sub_eq_add_neg, expectation_add, expectation_neg]

end Linear

end Reachability
