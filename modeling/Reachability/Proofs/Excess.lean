import Mathlib
import Reachability.Proofs.Bounded

/-!
# Masses that sum to more than one

A distribution is accepted if its masses sum to one within a tolerance, so they may sum to more.
`Mdp.excess` is the most by which those of a choice do.  For a model that can be made it is at most
the tolerance (`Model.Built.excess_le`).

A step takes a bound on all values to at most the bound times one plus the excess, and the values
of the target are one.  Hence the values of `k` steps are at most the `k`-th power of one plus the
excess (`Arena.stepValue_le_pow`).  They are above one only if the masses of some choice sum to more
than one.
-/

namespace Reachability

/-! ### The largest of exact values -/

/-- The largest of exact values and zero is at most a bound if the bound is not negative and all
values are at most it. -/
theorem Arithmetic.maximum_le_iff {values : List ℝ} {x : ℝ} :
  maximum values ≤ x ↔ 0 ≤ x ∧ ∀ y ∈ values, y ≤ x
  := by
  constructor
  · intro h
    constructor
    · apply le_of_forall_gt
      intro z hz
      apply (maximum_lt_iff.mp (lt_of_le_of_lt h hz)).1
    · intro y hy
      apply le_of_forall_gt
      intro z hz
      apply (maximum_lt_iff.mp (lt_of_le_of_lt h hz)).2 y hy
  · rintro ⟨hx, hvalues⟩
    apply le_of_forall_gt
    intro z hz
    apply maximum_lt_iff.mpr ⟨lt_of_le_of_lt hx hz, _⟩
    intro y hy
    apply lt_of_le_of_lt (hvalues y hy) hz

/-! ### The excess of a process -/

namespace Mdp

/-- The sum of the masses of a choice. -/
noncomputable def totalMass (m : Mdp ℝ) (s c : Nat) : ℝ :=
  ((m.successors s c).map Prod.snd).sum

/-- By how much the masses of a choice sum to more than one at most, or zero if those of no choice
do. -/
noncomputable def excess (m : Mdp ℝ) : ℝ :=
  Arithmetic.maximum (m.choicePairs.map fun (s, c) => m.totalMass s c - 1)

variable (m : Mdp ℝ)

/-- The excess is at most a bound if the bound is not negative and the masses of no choice exceed
one by more. -/
theorem excess_le_iff {x : ℝ} :
  m.excess ≤ x ↔ 0 ≤ x ∧ ∀ s < m.numStates, ∀ c < m.numChoices s, m.totalMass s c ≤ 1 + x
  := by
  rw [excess, Arithmetic.maximum_le_iff, List.forall_mem_map]
  apply and_congr_right'
  constructor
  · intro h s hs c hc
    apply sub_le_iff_le_add'.mp (h (s, c) (mem_choicePairs.mpr ⟨hs, hc⟩))
  · rintro h ⟨s, c⟩ hmem
    obtain ⟨hs, hc⟩ := mem_choicePairs.mp hmem
    apply sub_le_iff_le_add'.mpr (h s hs c hc)

/-- The excess is not negative. -/
theorem excess_nonneg :
  0 ≤ m.excess
  := (m.excess_le_iff.mp (le_refl _)).1

/-- The masses of no choice exceed one by more than the excess. -/
theorem totalMass_le {s c : Nat} (hs : s < m.numStates) (hc : c < m.numChoices s) :
  m.totalMass s c ≤ 1 + m.excess
  := (m.excess_le_iff.mp (le_refl _)).2 s hs c hc

/-- The excess is zero or that of some choice, and none of these is larger. -/
theorem isGreatest_excess :
  IsGreatest {x | x = 0 ∨ ∃ s < m.numStates, ∃ c < m.numChoices s, m.totalMass s c = 1 + x} m.excess
  := by
  constructor
  · by_contra hnot
    obtain ⟨hzero, hnone⟩ := not_or.mp hnot
    -- If all values were below the largest one, then so would be the largest one.
    apply lt_irrefl m.excess
    apply Arithmetic.maximum_lt_iff.mpr ⟨lt_of_le_of_ne m.excess_nonneg (Ne.symm hzero), _⟩
    intro y hy
    obtain ⟨⟨s, c⟩, hmem, rfl⟩ := List.mem_map.mp hy
    obtain ⟨hs, hc⟩ := mem_choicePairs.mp hmem
    apply lt_of_le_of_ne (sub_le_iff_le_add'.mpr (m.totalMass_le hs hc))
    intro hattained
    apply hnone ⟨s, hs, c, hc, sub_eq_iff_eq_add'.mp hattained⟩
  · rintro x (rfl | ⟨s, hs, c, hc, hmass⟩)
    · apply m.excess_nonneg
    · have hle := m.totalMass_le hs hc
      rw [hmass] at hle
      apply le_of_add_le_add_left hle

/-- If the masses of no choice exceed one, then there is no excess. -/
theorem excess_eq_zero (h : ∀ s < m.numStates, ∀ c < m.numChoices s, m.totalMass s c ≤ 1) :
  m.excess = 0
  := by
  apply le_antisymm (m.excess_le_iff.mpr ⟨le_refl 0, _⟩) m.excess_nonneg
  rw [add_zero]
  apply h

end Mdp

/-- The row of a distribution that fits sums to one within the tolerance. -/
theorem Distribution.abs_sum_row_sub_one_le {W : Type} {d : Distribution ℝ} {s c numStates : Nat}
    (h : (d.validate s c numStates : Except (CheckError ℝ W) Unit) = .ok ()) :
  |(d.row.map Prod.snd).sum - 1| ≤ 1 / 10 ^ 6
  := by
  obtain ⟨hpairs, hclose⟩ := validate_eq_ok_iff_abs_le.mp h
  have hsum := expectation_row (fun pair hpair => (hpairs pair hpair).2) fun _ => 1
  simp only [expectation_real, mul_one] at hsum
  rw [hsum]
  apply hclose

/-- The masses of a choice of a model that can be made sum to one within the tolerance. -/
theorem Model.Built.abs_totalMass_sub_one_le {m : Model ℝ} (hm : m.Built) {s c : Nat}
    (hc : c < m.process.numChoices s) :
  |m.process.totalMass s c - 1| ≤ 1 / 10 ^ 6
  := by
  obtain ⟨W, b, hvalid, hprocess⟩ := hm.exists_draft
  rw [hprocess] at hc ⊢
  rw [Mdp.Draft.numChoices_process] at hc
  obtain ⟨choice, hchoice⟩ := Mdp.Draft.exists_choice hc
  rw [Mdp.totalMass, Mdp.Draft.successors_process, hchoice]
  apply Distribution.abs_sum_row_sub_one_le
    (Mdp.Draft.validate_eq_ok_iff.mp hvalid s c choice hchoice)

/-- The excess of a model that can be made is at most the tolerance. -/
theorem Model.Built.excess_le {m : Model ℝ} (hm : m.Built) :
  m.process.excess ≤ 1 / 10 ^ 6
  := by
  rw [Mdp.excess_le_iff]
  constructor
  · positivity
  · intro s _ c hc
    apply sub_le_iff_le_add'.mp (le_trans (le_abs_self _) (hm.abs_totalMass_sub_one_le hc))

/-! ### Values of a number of steps -/

/-- If the masses of a row sum to at most `x` and no value is above `y`, which is not negative, then
the expected value is at most `x` times `y`. -/
theorem expectation_le_mul {row : List (Nat × ℝ)} {v : Nat → ℝ} {x y : ℝ}
    (hrow : ∀ e ∈ row, 0 < e.2) (hsum : (row.map Prod.snd).sum ≤ x) (hy : 0 ≤ y)
    (hv : ∀ e ∈ row, v e.1 ≤ y) :
  expectation row v ≤ x * y
  := by
  calc expectation row v
      ≤ expectation row fun _ => y := expectation_mono hrow hv
    _ = (row.map Prod.snd).sum * y := by rw [expectation_real, List.sum_map_mul_right]
    _ ≤ x * y := mul_le_mul_of_nonneg_right hsum hy

namespace Arena

variable {a : Arena ℝ} {u : Until} {o : Objective}

/-- A step takes a bound on all values that is at least one to at most the bound times one plus the
excess. -/
theorem advance_le_mul (ha : a.mdp.Proper) {v : Nat → ℝ} {x : ℝ} (hx : 1 ≤ x)
    (hv : ∀ t < a.numStates, v t ≤ x) {s : Nat} (hs : s < a.numStates) :
  a.advance u o v s ≤ (1 + a.mdp.excess) * x
  := by
  have hnonneg : 0 ≤ x := le_trans zero_le_one hx
  have hone : 1 ≤ (1 + a.mdp.excess) * x :=
    one_le_mul_of_one_le_of_one_le (le_add_of_nonneg_right a.mdp.excess_nonneg) hx
  rw [advance]
  split
  · apply hone
  · split
    · rw [update_fst]
      obtain hn | hn := Nat.eq_zero_or_pos (a.mdp.numChoices s)
      · rw [hn, Direction.optimum_zero]
        apply le_trans zero_le_one hone
      · obtain ⟨c, hc, hopt, -⟩ := Direction.exists_optimum (d := a.direction o s) hn
          fun c => expectation (a.mdp.successors s c) v
        rw [Direction.optimum, hopt]
        apply expectation_le_mul (ha.mass_pos s c) (a.mdp.totalMass_le hs hc) hnonneg
        intro e he
        apply hv e.1 (ha.lt_numStates s c e he)
    · apply le_trans zero_le_one hone

/-- The values of a number of steps are at most that power of one plus the excess. -/
theorem stepValue_le_pow (ha : a.mdp.Proper) (k : Nat) {s : Nat} (hs : s < a.numStates) :
  a.stepValue u o k s ≤ (1 + a.mdp.excess) ^ k
  := by
  induction k generalizing s with
  | zero =>
      rw [stepValue_zero, pow_zero]
      split
      · apply le_refl
      · apply zero_le_one
  | succ k ih =>
      rw [stepValue_succ, pow_succ']
      apply advance_le_mul ha (one_le_pow₀ (le_add_of_nonneg_right a.mdp.excess_nonneg)) _ hs
      intro t ht
      apply ih ht

end Arena

/-! ### Answers -/

/-- The most by which masses of a model that can be made exceed one is at most the tolerance.
Whether or not zero states are left out, no entry of an answer within `k` steps is negative or above
the `k`-th power of one plus that excess, and none is above one if the masses of no choice are.
Target states have exactly one, and states that do not remain and are not in the target have exactly
zero. -/
theorem Checker.exists_answers_le_pow {W : Type} (checker : Checker W) {m : Model ℝ} (hm : m.Built)
    {u : Until} (hu : u.Within m.numStates) (o : Objective) :
  IsGreatest {x | x = 0 ∨ ∃ s < m.numStates, ∃ c < m.process.numChoices s,
      m.process.totalMass s c = 1 + x} m.process.excess
    ∧ m.process.excess ≤ 1 / 10 ^ 6
    ∧ ∃ answer, checker.Answers m.arena u o answer
      ∧ ∀ k, ∀ s < m.numStates,
        0 ≤ valuation (answer k).values s
        ∧ valuation (answer k).values s ≤ (1 + m.process.excess) ^ k
        ∧ ((∀ t < m.numStates, ∀ c < m.process.numChoices t, m.process.totalMass t c ≤ 1) →
          valuation (answer k).values s ≤ 1)
        ∧ (u.target.contains s = true → valuation (answer k).values s = 1)
        ∧ (u.target.contains s = false → u.remains s = false → valuation (answer k).values s = 0)
  := by
  use m.process.isGreatest_excess, hm.excess_le
  have ha := hm.proper_arena
  rw [← m.numStates_arena] at hu ⊢
  obtain ⟨answer, hanswers, hvalues⟩ := checker.exists_answers (o := o) ha hu
  refine ⟨answer, hanswers, ?_⟩
  intro k s hs
  have hpow := Arena.stepValue_le_pow (u := u) (o := o) ha k hs
  rw [m.mdp_arena] at hpow
  rw [hvalues k s hs]
  refine ⟨Arena.stepValue_nonneg ha k s, hpow, ?_, Arena.stepValue_target k,
    Arena.stepValue_outside k⟩
  intro hmass
  rw [m.numStates_arena] at hmass
  rw [m.process.excess_eq_zero hmass, add_zero, one_pow] at hpow
  apply hpow

/-- A process of two states.  State `0` moves to state `1` with a mass that exceeds one by the
tolerance. -/
noncomputable def Mdp.Draft.heavy : Mdp.Draft ℝ where
  choices := #[#[⟨⟨[(1, 1 + 1 / (10 : Nat) ^ 6)], by decide⟩, none⟩], #[]]
  initialStates := [0]

/-- The heavy process. -/
noncomputable def Model.heavy : Model ℝ := .mdp Mdp.Draft.heavy.process

/-- In the heavy process, state `1` is to be reached. -/
def Until.reachOne : Until := ⟨none, .ofList 2 [1]⟩

/-- The formula is within the heavy process. -/
theorem Until.within_reachOne :
  reachOne.Within Model.heavy.numStates
  := within_of_target (StateSet.within_ofList (by decide))

/-- The heavy process can be made. -/
theorem Model.built_heavy :
  Model.heavy.Built
  := by
  apply Model.Built.mdp (W := ℝ) (b := Mdp.Draft.heavy)
  apply Mdp.Draft.build_eq_ok_iff.mpr ⟨Mdp.Draft.validate_eq_ok_iff.mpr _, rfl⟩
  intro s c choice hchoice
  obtain rfl : choice = ⟨⟨⟨[(1, 1 + 1 / (10 : Nat) ^ 6)], by decide⟩⟩, none⟩ := by
    simpa [Mdp.Draft.heavy] using Mdp.Draft.mem_of_choice?_eq_some hchoice
  apply Distribution.validate_eq_ok_iff_abs_le.mpr
  constructor
  · intro pair hpair
    obtain rfl := List.mem_singleton.mp hpair
    refine ⟨by decide, ?_⟩
    norm_num
  · norm_num [Distribution.pairs]

/-- In the heavy process no value of `k` steps is above the `k`-th power of one plus the
tolerance. -/
theorem Checker.exists_answers_le_pow_heavy :
  ∃ answer, sample.Answers Model.heavy.arena .reachOne .max answer
    ∧ ∀ k, ∀ s < 2, valuation (answer k).values s ≤ (1 + 1 / 10 ^ 6) ^ k
  := by
  obtain ⟨-, hexcess, answer, hanswers, hbounds⟩ :=
    sample.exists_answers_le_pow Model.built_heavy Until.within_reachOne .max
  use answer, hanswers
  intro k s hs
  obtain ⟨-, hpow, -⟩ := hbounds k s hs
  apply le_trans hpow
  apply pow_le_pow_left₀ (add_nonneg zero_le_one Model.heavy.process.excess_nonneg)
  apply add_le_add_right hexcess

end Reachability
