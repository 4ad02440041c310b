import Mathlib
import Reachability.Proofs.Attraction
import Reachability.Proofs.StepValue

/-!
# States with probability zero

For a proper process, a state has a positive value of `k` steps exactly if it is attracted to the
target in `k` steps of the search (`Arena.stepValue_pos_iff`).  Hence the zero states are those
whose value of any number of steps is zero, for which the number of states suffices
(`Arena.contains_zeroStates`).
-/

namespace Reachability

namespace Arena

variable {a : Arena ℝ} {u : Until} {o : Objective}

/-- A state that is neither open nor in the target has value zero. -/
theorem stepValue_of_not_isOpen (k : Nat) {s : Nat} (hs : s < a.numStates)
    (htarget : u.target.contains s = false) (hopen : ¬ a.IsOpen u s) :
  a.stepValue u o k s = 0
  := by
  cases k with
  | zero => rw [stepValue_zero, if_neg (Bool.eq_false_iff.mp htarget)]
  | succ k =>
      cases hremains : u.remains s with
      | false => rw [stepValue_succ, advance_outside _ _ _ htarget hremains]
      | true =>
          have hchoices : a.mdp.numChoices s = 0 := by
            by_contra hchoices
            apply hopen ⟨hs, htarget, hremains, Nat.pos_of_ne_zero hchoices⟩
          rw [stepValue_succ, advance_remains _ _ _ htarget hremains, update_fst, hchoices,
            Direction.optimum_zero]

/-- The value of an open state with one more step is above a bound if the expected value of all
its choices is, or of some choice, as its owner minimises or maximises. -/
theorem lt_stepValue_succ_iff (k : Nat) {s : Nat} (hopen : a.IsOpen u s) {x : ℝ} :
  x < a.stepValue u o (k + 1) s
    ↔ (a.direction o s).Quantify (a.mdp.numChoices s)
        fun c => x < expectation (a.mdp.successors s c) (a.stepValue u o k)
  := by
  rw [stepValue_succ, advance_remains _ _ _ hopen.target hopen.remains, update_fst,
    Direction.lt_optimum_iff hopen.choices]

/-- The value of an open state with one more step is at least a bound if the expected value of
all its choices is, or of some choice, as its owner minimises or maximises. -/
theorem le_stepValue_succ_iff (k : Nat) {s : Nat} (hopen : a.IsOpen u s) {x : ℝ} :
  x ≤ a.stepValue u o (k + 1) s
    ↔ (a.direction o s).Quantify (a.mdp.numChoices s)
        fun c => x ≤ expectation (a.mdp.successors s c) (a.stepValue u o k)
  := by
  rw [stepValue_succ, advance_remains _ _ _ hopen.target hopen.remains, update_fst,
    Direction.le_optimum_iff hopen.choices]

/-- The value of `k` steps is positive at the states that are attracted to the target in `k`
steps of the search. -/
theorem stepValue_pos_iff (ha : a.mdp.Proper) (k : Nat) {s : Nat} (hs : s < a.numStates) :
  0 < a.stepValue u o k s
    ↔ ((a.attract u.remain u.target o)^[k] (u.target.below a.numStates)).contains s = true
  := by
  induction k generalizing s with
  | zero =>
      rw [stepValue_zero, Function.iterate_zero_apply, StateSet.contains_below, Bool.and_eq_true,
        decide_eq_true_eq]
      split
      · next h => simp only [zero_lt_one, h, hs, and_self]
      · next h => simp only [lt_irrefl, h, Bool.false_eq_true, false_and]
  | succ k ih =>
      rw [Function.iterate_succ_apply', contains_attract]
      cases htarget : u.target.contains s with
      | true => simp only [stepValue_target _ htarget, zero_lt_one, hs, and_self, true_or]
      | false =>
          by_cases hopen : a.IsOpen u s
          · rw [lt_stepValue_succ_iff k hopen]
            simp only [Bool.false_eq_true, false_and, hopen, true_and, false_or]
            apply Direction.quantify_congr
            intro c _
            rw [expectation_pos_iff (ha.mass_pos s c) fun e _ => stepValue_nonneg ha k e.1,
              hits_iff (ha.mass_pos s c)]
            apply exists_congr
            intro e
            apply and_congr_right
            intro he
            apply ih (ha.lt_numStates s c e he)
          · simp only [stepValue_of_not_isOpen _ hs htarget hopen, lt_irrefl, Bool.false_eq_true,
              false_and, hopen, or_self]

/-- The value of `k` steps is zero at the states that are not attracted to the target in `k` steps
of the search. -/
theorem stepValue_eq_zero_iff (ha : a.mdp.Proper) (k : Nat) {s : Nat} (hs : s < a.numStates) :
  a.stepValue u o k s = 0
    ↔ ¬ ((a.attract u.remain u.target o)^[k] (u.target.below a.numStates)).contains s = true
  := by
  rw [← stepValue_pos_iff ha k hs, not_lt]
  constructor
  · intro h
    apply le_of_eq h
  · intro h
    apply le_antisymm h (stepValue_nonneg ha k s)

/-- The zero states are those whose value of as many steps as there are states is zero. -/
theorem contains_zeroStates_iff_numStates (ha : a.mdp.Proper) (s : Nat) :
  (a.zeroStates u.remain u.target o).contains s = true
    ↔ s < a.numStates ∧ a.stepValue u o a.numStates s = 0
  := by
  rw [contains_zeroStates_iff_positiveStates, (a.contains_positiveStates u o s).1]
  apply and_congr_right
  intro hs
  rw [stepValue_eq_zero_iff ha _ hs]

/-- The zero states are those whose value of any number of steps is zero. -/
theorem contains_zeroStates (ha : a.mdp.Proper) (s : Nat) :
  (a.zeroStates u.remain u.target o).contains s = true
    ↔ s < a.numStates ∧ ∀ k, a.stepValue u o k s = 0
  := by
  rw [contains_zeroStates_iff_positiveStates, (a.contains_positiveStates u o s).2, not_exists]
  apply and_congr_right
  intro hs
  apply forall_congr'
  intro k
  rw [stepValue_eq_zero_iff ha k hs]

end Arena

end Reachability
