import Mathlib
import Reachability.Proofs.Bounded

/-!
# States with probability one

For a proper process whose masses sum to one, the sure states are those for which the values of
all numbers of steps have the least upper bound one (`Arena.contains_sureStates`).

All masses are at least some positive `δ`.  Within the sure states, `n` more steps close at least
the part `δ ^ n` of the gap between the value and one, where `n` is the number of states
(`Arena.one_sub_pow_le_stepValue`).  A state that the outer search leaves out in its first `j`
rounds has a value of at most `1 - δ ^ j` after any number of steps
(`Arena.stepValue_le_one_sub_pow`).
-/

namespace Reachability

namespace Arena

variable {a : Arena ℝ} {u : Until} {o : Objective} {δ : ℝ}

/-! ### Sure states have value one -/

/-- If the values of `k` steps are at least `x` on a set, then the states that are attracted to
the target within the set in `i` steps of the search gain the part `δ ^ i` of what `x` lacks to
one in as many further steps. -/
theorem add_pow_mul_le_stepValue (ha : a.mdp.Proper) (hsum : a.mdp.Stochastic)
    (hδ : a.mdp.MassAtLeast δ) {set : StateSet} {x : ℝ}
    {k : Nat} (hx : x ≤ 1) (hset : ∀ s, set.contains s = true → x ≤ a.stepValue u o k s)
    (i : Nat) {s : Nat}
    (hs : ((a.attractWithin u.remain u.target o set)^[i]
      (u.target.below a.numStates)).contains s = true) :
  x + δ ^ i * (1 - x) ≤ a.stepValue u o (k + i) s
  := by
  have htarget : ∀ i s, u.target.contains s = true →
      x + δ ^ i * (1 - x) ≤ a.stepValue u o (k + i) s := by
    intro i s hs
    rw [stepValue_target _ hs]
    have hgap := mul_le_mul_of_nonneg_right (pow_le_one₀ hδ.pos.le hδ.le_one : δ ^ i ≤ 1)
      (sub_nonneg.mpr hx)
    linarith
  induction i generalizing s with
  | zero =>
      rw [Function.iterate_zero_apply, StateSet.contains_below, Bool.and_eq_true] at hs
      apply htarget 0 s hs.1
  | succ i ih =>
      rw [Function.iterate_succ_apply', contains_attractWithin] at hs
      obtain ⟨hs, -⟩ | ⟨hopen, hquantify⟩ := hs
      · apply htarget (i + 1) s hs
      · apply (le_stepValue_succ_iff (k + i) hopen).mpr
        apply hquantify.mono
        rintro c hc ⟨hstay, hhit⟩
        have hmass := ha.mass_pos s c
        rw [staysIn_iff hmass] at hstay
        obtain ⟨e, he, hhit⟩ := (hits_iff hmass).mp hhit
        have hle : ∀ e ∈ a.mdp.successors s c, x ≤ a.stepValue u o (k + i) e.1 := by
          intro e he
          apply le_trans (hset e.1 (hstay e he))
          apply stepValue_mono ha e.1 (Nat.le_add_right k i)
        have hgain := le_expectation_of_mem hmass (hsum s c hc) hle he hδ.pos.le
          (hδ.le_mass s c e he) (ih hhit)
        calc x + δ ^ (i + 1) * (1 - x)
            = x + δ * (x + δ ^ i * (1 - x) - x) := by ring
          _ ≤ expectation (a.mdp.successors s c) (a.stepValue u o (k + i)) := hgain

/-- On the sure states, the value of `j` times as many steps as there are states is one but for
the `j`-th power of a number below one. -/
theorem one_sub_pow_le_stepValue (ha : a.mdp.Proper) (hsum : a.mdp.Stochastic)
    (hδ : a.mdp.MassAtLeast δ) (j : Nat) {s : Nat}
    (hs : (a.sureStates u.remain u.target o).contains s = true) :
  1 - (1 - δ ^ a.numStates) ^ j ≤ a.stepValue u o (j * a.numStates) s
  := by
  obtain ⟨-, -, -, hfixed⟩ := a.exists_sureStates u o
  induction j generalizing s with
  | zero =>
      rw [pow_zero, sub_self]
      apply stepValue_nonneg ha
  | succ j ih =>
      have hgap : 0 ≤ (1 - δ ^ a.numStates) ^ j :=
        pow_nonneg (sub_nonneg.mpr (pow_le_one₀ hδ.pos.le hδ.le_one)) j
      have hattracted := (a.contains_positiveWithin u o _ s).1.mp ((hfixed s).trans hs)
      have hgain := add_pow_mul_le_stepValue ha hsum hδ (by linarith)
        (fun s hs => ih hs) a.numStates hattracted
      calc 1 - (1 - δ ^ a.numStates) ^ (j + 1)
          = 1 - (1 - δ ^ a.numStates) ^ j
            + δ ^ a.numStates * (1 - (1 - (1 - δ ^ a.numStates) ^ j)) := by ring
        _ ≤ a.stepValue u o (j * a.numStates + a.numStates) s := hgain
        _ = a.stepValue u o ((j + 1) * a.numStates) s := by rw [Nat.succ_mul]

/-! ### States with value one are sure -/

/-- If the states outside a set have values of at most `x`, then those that do not reach the
target within the set lack to one at least the part `δ` of what `x` lacks. -/
theorem stepValue_le_of_not_positiveWithin (ha : a.mdp.Proper) (hsum : a.mdp.Stochastic)
    (hδ : a.mdp.MassAtLeast δ) {set : StateSet} {x : ℝ} (hx : 0 ≤ x) (hx' : x ≤ 1)
    (hset : ∀ s < a.numStates, set.contains s = false → ∀ k, a.stepValue u o k s ≤ x) (k : Nat)
    {s : Nat} (hs : s < a.numStates)
    (hout : (a.positiveWithin u.remain u.target o set).contains s = false) :
  a.stepValue u o k s ≤ 1 - δ * (1 - x)
  := by
  have hzero : 0 ≤ 1 - δ * (1 - x) :=
    sub_nonneg.mpr (mul_le_one₀ hδ.le_one (sub_nonneg.mpr hx') (sub_le_self 1 hx))
  induction k generalizing s with
  | zero =>
      obtain ⟨htarget, -⟩ := a.of_not_positiveWithin u o hs hout
      rw [stepValue_zero, if_neg (Bool.eq_false_iff.mp htarget)]
      apply hzero
  | succ k ih =>
      obtain ⟨htarget, hquantify⟩ := a.of_not_positiveWithin u o hs hout
      by_cases hopen : a.IsOpen u s
      · apply le_of_not_gt
        intro hlt
        apply hquantify hopen (((lt_stepValue_succ_iff k hopen).mp hlt).mono _)
        intro c hc hlt
        have hmass := ha.mass_pos s c
        constructor
        · apply (staysIn_iff hmass).mpr
          intro e he
          by_contra hleaves
          have hvalue := hset e.1 (ha.lt_numStates s c e he) (Bool.eq_false_iff.mpr hleaves) k
          have hvalues : ∀ e ∈ a.mdp.successors s c, a.stepValue u o k e.1 ≤ 1 :=
            fun e _ => stepValue_le_one ha hsum k e.1
          apply not_le_of_gt hlt
          apply expectation_le_of_mem hmass (hsum s c hc) hvalues he hδ.pos.le
            (hδ.le_mass s c e he) hvalue
        · apply (hits_iff hmass).mpr
          by_contra hmiss
          apply not_le_of_gt hlt
          apply expectation_le_const hmass (hsum s c hc)
          intro e he
          apply ih (ha.lt_numStates s c e he)
          apply Bool.eq_false_iff.mpr
          intro hhit
          apply hmiss ⟨e, he, hhit⟩
      · rw [stepValue_of_not_isOpen (k + 1) hs htarget hopen]
        apply hzero

/-- A state that is not among those of the first `j` rounds of the outer search has a value of at
most `1 - δ ^ j` after any number of steps. -/
theorem stepValue_le_one_sub_pow (ha : a.mdp.Proper) (hsum : a.mdp.Stochastic)
    (hδ : a.mdp.MassAtLeast δ) (j : Nat) {s : Nat}
    (hs : s < a.numStates)
    (hout : ((a.positiveWithin u.remain u.target o)^[j]
      (.full a.numStates)).contains s = false) (k : Nat) :
  a.stepValue u o k s ≤ 1 - δ ^ j
  := by
  induction j generalizing s k with
  | zero =>
      rw [Function.iterate_zero_apply, StateSet.contains_full, decide_eq_false_iff_not] at hout
      exact absurd hs hout
  | succ j ih =>
      rw [Function.iterate_succ_apply'] at hout
      have hpow : δ ^ j ≤ 1 := pow_le_one₀ hδ.pos.le hδ.le_one
      have hle := stepValue_le_of_not_positiveWithin ha hsum hδ (sub_nonneg.mpr hpow)
        (sub_le_self 1 (pow_pos hδ.pos j).le) (fun s hs hout k => ih hs hout k) k hs hout
      rw [sub_sub_cancel, ← pow_succ'] at hle
      apply hle

/-- The sure states are those whose values of all numbers of steps have the least upper bound
one. -/
theorem contains_sureStates (ha : a.mdp.Proper) (hsum : a.mdp.Stochastic) (s : Nat) :
  (a.sureStates u.remain u.target o).contains s = true
    ↔ s < a.numStates ∧ IsLUB (Set.range fun k => a.stepValue u o k s) 1
  := by
  obtain ⟨δ, hδ⟩ := ha.exists_massAtLeast
  constructor
  · intro hs
    use a.lt_numStates_of_contains_sureStates u o s hs
    constructor
    · rintro _ ⟨k, rfl⟩
      apply stepValue_le_one ha hsum
    · intro x hx
      by_contra hlt
      have hpart : 0 < δ ^ a.numStates := pow_pos hδ.pos _
      obtain ⟨j, hj⟩ := exists_pow_lt_of_lt_one (sub_pos.mpr (lt_of_not_ge hlt))
        (sub_lt_self 1 hpart)
      have hgain := one_sub_pow_le_stepValue ha hsum hδ j hs
      have hbound := hx ⟨j * a.numStates, rfl⟩
      dsimp only at hbound
      linarith
  · rintro ⟨hs, hlub⟩
    obtain ⟨j, -, hsure, -⟩ := a.exists_sureStates u o
    by_contra hout
    rw [hsure, ← ne_eq, ← Bool.eq_false_iff] at hout
    have hbound : 1 ≤ 1 - δ ^ j := by
      apply hlub.2
      rintro _ ⟨k, rfl⟩
      apply stepValue_le_one_sub_pow ha hsum hδ j hs hout k
    apply not_lt_of_ge hbound
    apply sub_lt_self 1 (pow_pos hδ.pos j)

end Arena

/-- If the masses of a model sum to one, then its sure states are those whose values in the answers
of a checker within any number of steps have the least upper bound one. -/
theorem Checker.contains_sureStates_iff_answers {W : Type} (checker : Checker W) {u : Until}
    {o : Objective} {m : Model ℝ} (hm : m.Built) (hsum : m.process.Stochastic)
    (hu : u.Within m.numStates) :
  ∃ answer, checker.Answers m.arena u o answer
    ∧ ∀ s, (m.arena.sureStates u.remain u.target o).contains s = true
      ↔ s < m.numStates ∧ IsLUB (Set.range fun k => valuation (answer k).values s) 1
  := by
  have ha := hm.proper_arena
  rw [← m.mdp_arena] at hsum
  rw [← m.numStates_arena] at hu ⊢
  obtain ⟨answer, hanswers, hvalues⟩ := checker.exists_answers (o := o) ha hu
  refine ⟨answer, hanswers, ?_⟩
  intro s
  rw [Arena.contains_sureStates ha hsum]
  apply and_congr_right
  intro hs
  have hsame : (fun k => valuation (answer k).values s) = fun k => m.arena.stepValue u o k s := by
    funext k
    apply hvalues k s hs
  rw [hsame]

/-- For the sample query, the sure states are those with answers of least upper bound one. -/
theorem Checker.contains_sureStates_iff_answers_sample :
  ∃ answer, sample.Answers Model.sample.arena .sample .opposed answer
    ∧ ∀ s,
      (Model.sample.arena.sureStates Until.sample.remain Until.sample.target .opposed).contains s
        = true
      ↔ s < Model.sample.numStates
        ∧ IsLUB (Set.range fun k => valuation (answer k).values s) 1
  := sample.contains_sureStates_iff_answers Model.built_sample Model.stochastic_sample
    Until.within_sample

end Reachability
