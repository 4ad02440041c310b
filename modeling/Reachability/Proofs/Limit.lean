import Mathlib
import Reachability.Proofs.Sure

/-!
# Values of any number of steps

For a proper process whose masses sum to one, the values of a number of steps have the least
upper bound `Arena.limitValue`, which they converge to.  It is one on the target and on the sure
states and zero on the zero states, and another step does not lead above it: no choices that
the owner of a state may insist on have an expected value above the one of the state
(`Arena.not_quantify_lt_limitValue`).
-/

namespace Reachability

/-- If each of the conditions that hold holds from some number on in a sequence of conditions,
then they do so together for all choices of a player. -/
theorem Direction.Quantify.eventually {d : Direction} {n : Nat} {p : Nat → Prop}
    {q : Nat → Nat → Prop} (h : d.Quantify n p)
    (hpq : ∀ c < n, p c → ∀ᶠ k in Filter.atTop, q k c) :
  ∀ᶠ k in Filter.atTop, d.Quantify n (q k)
  := by
  cases d with
  | min =>
      have hall : ∀ c ∈ Finset.range n, ∀ᶠ k in Filter.atTop, q k c := by
        intro c hc
        rw [Finset.mem_range] at hc
        apply hpq c hc (h c hc)
      apply ((Filter.eventually_all_finset _).mpr hall).mono
      intro k hk c hc
      apply hk c (Finset.mem_range.mpr hc)
  | max =>
      obtain ⟨c, hc, hp⟩ := h
      apply (hpq c hc hp).mono
      intro k hk
      exact ⟨c, hc, hk⟩

namespace Arena

variable (a : Arena ℝ) (u : Until) (o : Objective)

/-- The value of any number of steps. -/
noncomputable def limitValue (s : Nat) : ℝ := ⨆ k, a.stepValue u o k s

variable {a u o}

/-- The value of any number of steps is the least upper bound of those of a number of steps. -/
theorem isLUB_limitValue (ha : a.mdp.Proper) (hsum : a.mdp.Stochastic) (s : Nat) :
  IsLUB (Set.range fun k => a.stepValue u o k s) (a.limitValue u o s)
  := by
  apply isLUB_ciSup
  use 1
  rintro _ ⟨k, rfl⟩
  apply stepValue_le_one ha hsum

/-- No value of a number of steps is above that of any number. -/
theorem stepValue_le_limitValue (ha : a.mdp.Proper) (hsum : a.mdp.Stochastic) (k s : Nat) :
  a.stepValue u o k s ≤ a.limitValue u o s
  := (isLUB_limitValue ha hsum s).1 ⟨k, rfl⟩

/-- The value of any number of steps is not negative. -/
theorem limitValue_nonneg (ha : a.mdp.Proper) (hsum : a.mdp.Stochastic) (s : Nat) :
  0 ≤ a.limitValue u o s
  := le_trans (stepValue_nonneg ha 0 s) (stepValue_le_limitValue ha hsum 0 s)

/-- The value of any number of steps is not above one. -/
theorem limitValue_le_one (ha : a.mdp.Proper) (hsum : a.mdp.Stochastic) (s : Nat) :
  a.limitValue u o s ≤ 1
  := ciSup_le fun k => stepValue_le_one ha hsum k s

/-- On the sure states the value of any number of steps is one. -/
theorem limitValue_sure (ha : a.mdp.Proper) (hsum : a.mdp.Stochastic) {s : Nat}
    (hs : (a.sureStates u.remain u.target o).contains s = true) :
  a.limitValue u o s = 1
  := (isLUB_limitValue ha hsum s).unique ((contains_sureStates ha hsum s).mp hs).2

/-- On the target the value of any number of steps is one. -/
theorem limitValue_target {s : Nat} (hs : u.target.contains s = true) :
  a.limitValue u o s = 1
  := by
  rw [limitValue]
  simp only [stepValue_target _ hs, ciSup_const]

/-- Where no value of a number of steps differs from zero, that of any number does not. -/
theorem limitValue_eq_zero {s : Nat} (h : ∀ k, a.stepValue u o k s = 0) :
  a.limitValue u o s = 0
  := by
  rw [limitValue]
  simp only [h, ciSup_const]

/-- The expected values for more and more steps converge to that for any number of steps. -/
theorem tendsto_expectation (ha : a.mdp.Proper) (hsum : a.mdp.Stochastic)
    (row : List (Nat × ℝ)) :
  Filter.Tendsto (fun k => expectation row (a.stepValue u o k)) Filter.atTop
    (nhds (expectation row (a.limitValue u o)))
  := by
  simp only [expectation_real]
  apply tendsto_list_sum
  intro e _
  apply Filter.Tendsto.const_mul
  apply tendsto_atTop_isLUB (stepValue_mono ha e.1) (isLUB_limitValue ha hsum e.1)

/-- The owner of an open state cannot insist on choices whose expected values for any number of
steps are above the value of the state. -/
theorem not_quantify_lt_limitValue (ha : a.mdp.Proper) (hsum : a.mdp.Stochastic) {s : Nat}
    (hopen : a.IsOpen u s) :
  ¬ (a.direction o s).Quantify (a.mdp.numChoices s)
    fun c => a.limitValue u o s < expectation (a.mdp.successors s c) (a.limitValue u o)
  := by
  intro h
  obtain ⟨k, hk⟩ := (h.eventually fun c _ hc =>
    (tendsto_expectation ha hsum (a.mdp.successors s c)).eventually_const_lt hc).exists
  apply not_lt_of_ge (stepValue_le_limitValue ha hsum (k + 1) s)
  apply (lt_stepValue_succ_iff k hopen).mpr hk

/-! ### Optima between the values -/

section Optimum

variable {s : Nat} (hs : s < a.numStates) (htarget : u.target.contains s = false)
  (hremains : u.remains s = true) {f : Nat → ℝ}

include hs htarget hremains

/-- The optimum over the choices of a state that remains and is not in the target is not above the
value of any number of steps if only choices are whose expected value is, too. -/
theorem optimum_le_limitValue (ha : a.mdp.Proper) (hsum : a.mdp.Stochastic)
    (hf : ∀ c < a.mdp.numChoices s, a.limitValue u o s < f c →
      a.limitValue u o s < expectation (a.mdp.successors s c) (a.limitValue u o)) :
  (a.direction o s).optimum (a.mdp.numChoices s) f ≤ a.limitValue u o s
  := by
  obtain hn | hn := Nat.eq_zero_or_pos (a.mdp.numChoices s)
  · rw [hn, Direction.optimum_zero]
    apply limitValue_nonneg ha hsum
  · apply le_of_not_gt
    intro hlt
    apply not_quantify_lt_limitValue ha hsum ⟨hs, htarget, hremains, hn⟩
    apply ((Direction.lt_optimum_iff hn).mp hlt).mono hf

omit hremains in
/-- The optimum over the choices of a state that is not in the target is at least the value of a
number of steps if each choice is at least the value of a step in which it made the value
larger. -/
theorem stepValue_le_optimum (hnonneg : ∀ c < a.mdp.numChoices s, 0 ≤ f c) (k : Nat)
    (hf : ∀ j < k, ∀ c < a.mdp.numChoices s, a.stepValue u o j s < a.stepValue u o (j + 1) s →
      a.stepValue u o (j + 1) s ≤ expectation (a.mdp.successors s c) (a.stepValue u o j) →
      a.stepValue u o (j + 1) s ≤ f c) :
  a.stepValue u o k s ≤ (a.direction o s).optimum (a.mdp.numChoices s) f
  := by
  by_cases hopen : a.IsOpen u s
  · induction k with
    | zero =>
        rw [stepValue_zero, if_neg (Bool.eq_false_iff.mp htarget)]
        apply Direction.optimum_nonneg hnonneg
    | succ k ih =>
        obtain hle | hlt := le_or_gt (a.stepValue u o (k + 1) s) (a.stepValue u o k s)
        · apply le_trans hle
          apply ih fun j hj => hf j (Nat.lt_succ_of_lt hj)
        · apply (Direction.le_optimum_iff hopen.choices).mpr
          apply ((le_stepValue_succ_iff k hopen).mp (le_refl _)).mono
          intro c hc
          apply hf k (Nat.lt_succ_self k) c hc hlt
  · rw [stepValue_of_not_isOpen k hs htarget hopen]
    apply Direction.optimum_nonneg hnonneg

end Optimum

end Arena

end Reachability
