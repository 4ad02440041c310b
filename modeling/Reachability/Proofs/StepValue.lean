import Mathlib
import Reachability.Proofs.Expectation
import Reachability.Proofs.Formula
import Reachability.Proofs.Stochastic

/-!
# Values of a number of steps

`Arena.advance` is one step of the values of a formula: one on the target, the best expected
value at the states that remain, and zero elsewhere.  `Arena.stepValue` iterates it from the
values of no step, which are one on the target and zero elsewhere.

For exact values and a proper process, more steps never make a value smaller
(`Arena.stepValue_mono`), and if the masses sum to one then no value is above one
(`Arena.stepValue_le_one`).
-/

namespace Reachability

section Arithmetic

variable {V : Type} [Arithmetic V]

/-- The values before the first step: one on the target, the given ones at the states that
remain, and zero elsewhere. -/
def Until.start (u : Until) (init : Option (Array V)) (s : Nat) : V :=
  if u.target.contains s then 1
  else if u.remains s then
    match init with
    | some v => valuation v s
    | none => 0
  else 0

/-- A target state starts with one. -/
theorem Until.start_target {u : Until} {init : Option (Array V)} {s : Nat}
    (h : u.target.contains s = true) :
  u.start init s = 1
  := if_pos h

/-- A state that remains and is not in the target starts with the given value, or with zero. -/
theorem Until.start_remains {u : Until} {init : Option (Array V)} {s : Nat}
    (htarget : u.target.contains s = false) (hremains : u.remains s = true) :
  u.start init s = init.elim 0 fun v => valuation v s
  := by
  unfold start
  rw [if_neg (Bool.eq_false_iff.mp htarget), if_pos hremains]
  cases init <;> rfl

/-- A state that does not remain and is not in the target starts with zero. -/
theorem Until.start_outside {u : Until} {init : Option (Array V)} {s : Nat}
    (htarget : u.target.contains s = false) (hremains : u.remains s = false) :
  u.start init s = 0
  := by
  unfold start
  rw [if_neg (Bool.eq_false_iff.mp htarget), if_neg (Bool.eq_false_iff.mp hremains)]

namespace Arena

variable (a : Arena V) (u : Until) (o : Objective)

/-- The values with one more step. -/
def advance (v : Nat → V) (s : Nat) : V :=
  if u.target.contains s then 1 else if u.remains s then (a.update none o v s).1 else 0

/-- The values of a number of steps. -/
def stepValue (k : Nat) : Nat → V := (a.advance u o)^[k] (u.start none)

/-- A further step is taken first. -/
theorem stepValue_succ (k : Nat) :
  a.stepValue u o (k + 1) = a.advance u o (a.stepValue u o k)
  := Function.iterate_succ_apply' _ _ _

/-- On the target the value is one after any step. -/
theorem advance_target {v : Nat → V} {s : Nat} (h : u.target.contains s = true) :
  a.advance u o v s = 1
  := if_pos h

/-- The value of a state that remains and is not in the target is that of its best choice. -/
theorem advance_remains {v : Nat → V} {s : Nat} (htarget : u.target.contains s = false)
    (hremains : u.remains s = true) :
  a.advance u o v s = (a.update none o v s).1
  := by
  rw [advance, if_neg (Bool.eq_false_iff.mp htarget), if_pos hremains]

/-- The value of a state that does not remain and is not in the target is zero. -/
theorem advance_outside {v : Nat → V} {s : Nat} (htarget : u.target.contains s = false)
    (hremains : u.remains s = false) :
  a.advance u o v s = 0
  := by
  rw [advance, if_neg (Bool.eq_false_iff.mp htarget), if_neg (Bool.eq_false_iff.mp hremains)]

/-- Formulas with the same target states and the same states that remain have the same
values. -/
theorem stepValue_congr {u u' : Until} (htarget : ∀ s, u.target.contains s = u'.target.contains s)
    (hremains : ∀ s, u.remains s = u'.remains s) :
  a.stepValue u o = a.stepValue u' o
  := by
  have hstart : (u.start none : Nat → V) = u'.start none := by
    funext s
    simp only [Until.start, htarget, hremains]
  have hadvance : a.advance u o = a.advance u' o := by
    funext v s
    simp only [advance, htarget, hremains]
  funext k
  rw [stepValue, stepValue, hstart, hadvance]

variable {a o}

/-- The update of a state depends on the values of the states of the model only. -/
theorem update_congr (ha : a.mdp.Proper) {rewards : Option (Rewards V)} {v w : Nat → V}
    (h : ∀ t < a.numStates, v t = w t) (s : Nat) :
  a.update rewards o v s = a.update rewards o w s
  := by
  have hchoice : ∀ c, a.choiceValue rewards v s c = a.choiceValue rewards w s c := by
    intro c
    have hexpected :
        expectation (a.mdp.successors s c) v = expectation (a.mdp.successors s c) w := by
      apply expectation_congr
      intro e he
      apply h e.1 (ha.lt_numStates s c e he)
    cases rewards with
    | none => apply hexpected
    | some r => exact congrArg (· + r.stepReward s c) hexpected
  rw [update, update, optimal, optimal, choiceValues, choiceValues, List.map_congr_left]
  intro c _
  apply hchoice

/-- Where there are choices, the update of a state takes one of them and its expected value, on
which that of no other choice improves. -/
theorem exists_update [Ranked V] {s : Nat} (hn : 0 < a.mdp.numChoices s) (v : Nat → V) :
  ∃ c < a.mdp.numChoices s, a.update none o v s = (expectation (a.mdp.successors s c) v, some c)
    ∧ ∀ c' < a.mdp.numChoices s, (a.direction o s).improves
        (expectation (a.mdp.successors s c') v) (expectation (a.mdp.successors s c) v) = false
  := by
  obtain ⟨c, hc, hopt, hunbeaten, -⟩ := Direction.exists_optimum (d := a.direction o s) hn
    fun c => expectation (a.mdp.successors s c) v
  exact ⟨c, hc, hopt, hunbeaten⟩

/-- Without rewards, the value of a state is the optimum of the expected values of its
choices. -/
theorem update_fst (v : Nat → V) (s : Nat) :
  (a.update none o v s).1
    = (a.direction o s).optimum (a.mdp.numChoices s) fun c => expectation (a.mdp.successors s c) v
  := rfl

end Arena

end Arithmetic

/-! ### Exact values -/

namespace Arena

variable {a : Arena ℝ} {u : Until} {o : Objective}

/-- The values of no step are one on the target and zero elsewhere. -/
theorem stepValue_zero (s : Nat) :
  a.stepValue u o 0 s = if u.target.contains s = true then 1 else 0
  := by
  change u.start none s = _
  rw [Until.start, ite_self]

/-- Where no value is larger, no updated value is larger. -/
theorem update_mono (ha : a.mdp.Proper) {v w : Nat → ℝ} (h : ∀ t < a.numStates, v t ≤ w t)
    (s : Nat) :
  (a.update none o v s).1 ≤ (a.update none o w s).1
  := by
  rw [update_fst, update_fst]
  apply Direction.optimum_mono
  intro c _
  apply expectation_mono (ha.mass_pos s c)
  intro e he
  apply h e.1 (ha.lt_numStates s c e he)

/-- Where no value is larger, none is larger after one more step. -/
theorem advance_mono (ha : a.mdp.Proper) {v w : Nat → ℝ} (h : ∀ t < a.numStates, v t ≤ w t)
    (s : Nat) :
  a.advance u o v s ≤ a.advance u o w s
  := by
  rw [advance, advance]
  split
  · apply le_refl
  · split
    · apply update_mono ha h
    · apply le_refl

/-- Where no value is negative, none is negative after one more step. -/
theorem advance_nonneg (ha : a.mdp.Proper) {v : Nat → ℝ} (h : ∀ t < a.numStates, 0 ≤ v t)
    (s : Nat) :
  0 ≤ a.advance u o v s
  := by
  rw [advance]
  split
  · apply zero_le_one
  · split
    · rw [update_fst]
      apply Direction.optimum_nonneg
      intro c _
      apply expectation_nonneg (ha.mass_pos s c)
      intro e he
      apply h e.1 (ha.lt_numStates s c e he)
    · apply le_refl

/-- Where no value is above one, none is above one after one more step. -/
theorem advance_le_one (ha : a.mdp.Proper) (hsum : a.mdp.Stochastic) {v : Nat → ℝ}
    (h : ∀ t < a.numStates, v t ≤ 1) (s : Nat) :
  a.advance u o v s ≤ 1
  := by
  rw [advance]
  split
  · apply le_refl
  · split
    · rw [update_fst]
      obtain hn | hn := Nat.eq_zero_or_pos (a.mdp.numChoices s)
      · rw [hn, Direction.optimum_zero]
        apply zero_le_one
      · obtain ⟨c, hc, hopt, -⟩ := Direction.exists_optimum (d := a.direction o s) hn
          fun c => expectation (a.mdp.successors s c) v
        rw [Direction.optimum, hopt]
        apply expectation_le_const (ha.mass_pos s c) (hsum s c hc)
        intro e he
        apply h e.1 (ha.lt_numStates s c e he)
    · apply zero_le_one

/-- No value of a number of steps is negative. -/
theorem stepValue_nonneg (ha : a.mdp.Proper) (k s : Nat) :
  0 ≤ a.stepValue u o k s
  := by
  induction k generalizing s with
  | zero =>
      rw [stepValue_zero]
      split
      · apply zero_le_one
      · apply le_refl
  | succ k ih =>
      rw [stepValue_succ]
      apply advance_nonneg ha fun t _ => ih t

/-- If the masses sum to one, then no value of a number of steps is above one. -/
theorem stepValue_le_one (ha : a.mdp.Proper) (hsum : a.mdp.Stochastic) (k s : Nat) :
  a.stepValue u o k s ≤ 1
  := by
  induction k generalizing s with
  | zero =>
      rw [stepValue_zero]
      split
      · apply le_refl
      · apply zero_le_one
  | succ k ih =>
      rw [stepValue_succ]
      apply advance_le_one ha hsum fun t _ => ih t

/-- If the masses sum to one, then the values of a number of steps are between zero and one. -/
theorem stepValue_mem_Icc (ha : a.mdp.Proper) (hsum : a.mdp.Stochastic) (k s : Nat) :
  a.stepValue u o k s ∈ Set.Icc 0 1
  := ⟨stepValue_nonneg ha k s, stepValue_le_one ha hsum k s⟩

/-- One more step makes no value smaller. -/
theorem stepValue_le_succ (ha : a.mdp.Proper) (k s : Nat) :
  a.stepValue u o k s ≤ a.stepValue u o (k + 1) s
  := by
  induction k generalizing s with
  | zero =>
      rw [stepValue_zero, stepValue_succ]
      split
      · next h => rw [advance_target _ _ _ h]
      · apply advance_nonneg ha fun t _ => stepValue_nonneg ha 0 t
  | succ k ih =>
      rw [stepValue_succ, stepValue_succ]
      apply advance_mono ha fun t _ => ih t

/-- More steps make no value smaller. -/
theorem stepValue_mono (ha : a.mdp.Proper) (s : Nat) :
  Monotone fun k => a.stepValue u o k s
  := by
  apply monotone_nat_of_le_succ
  intro k
  apply stepValue_le_succ ha

/-- On the target the value of any number of steps is one. -/
theorem stepValue_target (k : Nat) {s : Nat} (h : u.target.contains s = true) :
  a.stepValue u o k s = 1
  := by
  cases k with
  | zero => rw [stepValue_zero, if_pos h]
  | succ k => rw [stepValue_succ, advance_target _ _ _ h]

/-- The value of any number of steps is zero at a state that does not remain and is not in the
target. -/
theorem stepValue_outside (k : Nat) {s : Nat} (htarget : u.target.contains s = false)
    (hremains : u.remains s = false) :
  a.stepValue u o k s = 0
  := by
  cases k with
  | zero => rw [stepValue_zero, if_neg (Bool.eq_false_iff.mp htarget)]
  | succ k => rw [stepValue_succ, advance_outside _ _ _ htarget hremains]

end Arena

end Reachability
