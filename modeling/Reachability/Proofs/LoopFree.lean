import Mathlib
import Reachability.Proofs.Expectation
import Reachability.Proofs.Stochastic

/-!
# Choices with their loops solved for

The expected value of a choice is what it gains at other states, plus the value of its own state
times the mass that stays there (`Arena.expectation_eq_escape`).  Hence the value with the loop
solved for is at least any value that the choice attains from a lower one of its state
(`Arena.le_loopFreeValue`), and if it is above the value of the state then so is the expected
value (`Arena.lt_expectation_of_lt_loopFreeValue`).
-/

namespace Reachability

/-! ### Entries that lead away -/

/-- The entries of a row that lead away from a state. -/
def leaving {V : Type} (s : Nat) (row : List (Nat × V)) : List (Nat × V) :=
  row.filter fun e => decide (e.1 ≠ s)

@[simp]
theorem leaving_nil {V : Type} (s : Nat) :
  leaving s ([] : List (Nat × V)) = []
  := rfl

theorem leaving_cons {V : Type} (s : Nat) (e : Nat × V) (row : List (Nat × V)) :
  leaving s (e :: row) = if e.1 = s then leaving s row else e :: leaving s row
  := by
  rw [leaving, List.filter_cons]
  split
  · next h => rw [if_neg (of_decide_eq_true h), leaving]
  · next h =>
      rw [decide_eq_true_eq, not_not] at h
      rw [if_pos h, leaving]

/-- The entries that lead away are those of the row whose state is another one. -/
theorem mem_leaving {V : Type} {s : Nat} {row : List (Nat × V)} {e : Nat × V} :
  e ∈ leaving s row ↔ e ∈ row ∧ e.1 ≠ s
  := by
  rw [leaving, List.mem_filter, decide_eq_true_eq]

/-- The entries that lead away are entries of the row. -/
theorem mem_of_mem_leaving {V : Type} {s : Nat} {row : List (Nat × V)} :
  ∀ e ∈ leaving s row, e ∈ row
  := fun _ he => (mem_leaving.mp he).1

section Leaving

variable (s : Nat) (row : List (Nat × ℝ))

/-- What is gained at other states is the expected value of the entries that lead there. -/
theorem foldl_escapeValue (v : Nat → ℝ) (x : ℝ) :
  row.foldl (fun total e => if e.1 = s then total else total + e.2 * v e.1) x
    = x + expectation (leaving s row) v
  := by
  rw [expectation_real]
  induction row generalizing x with
  | nil => simp
  | cons e row ih =>
      rw [List.foldl_cons, ih, leaving_cons]
      split
      · rfl
      · rw [List.map_cons, List.sum_cons, add_assoc]

/-- Taking the masses that lead back off a number leaves it less all masses, and more by those
that lead away. -/
theorem foldl_escapeMass (x : ℝ) :
  row.foldl (fun mass e => if e.1 = s then mass - e.2 else mass) x
    = x - (row.map Prod.snd).sum + ((leaving s row).map Prod.snd).sum
  := by
  induction row generalizing x with
  | nil => simp
  | cons e row ih =>
      rw [List.foldl_cons, ih, leaving_cons, List.map_cons, List.sum_cons]
      split
      · ring
      · rw [List.map_cons, List.sum_cons]
        ring

/-- The expected value is that of the entries that lead away, plus the value of the state times
the mass that stays. -/
theorem expectation_leaving (v : Nat → ℝ) :
  expectation row v = expectation (leaving s row) v
    + ((row.map Prod.snd).sum - ((leaving s row).map Prod.snd).sum) * v s
  := by
  rw [expectation_real, expectation_real]
  induction row with
  | nil => simp
  | cons e row ih =>
      rw [leaving_cons, List.map_cons, List.sum_cons, List.map_cons, List.sum_cons, ih]
      split
      · next h =>
          rw [h]
          ring
      · rw [List.map_cons, List.sum_cons, List.map_cons, List.sum_cons]
        ring

end Leaving

/-! ### Values with loops solved for -/

namespace Arena

variable {a : Arena ℝ} {s c : Nat}

/-- What a choice gains elsewhere is the expected value of its entries that lead away. -/
theorem escapeValue_eq (v : Nat → ℝ) :
  a.escapeValue none v s c = expectation (leaving s (a.mdp.successors s c)) v
  := (foldl_escapeValue s _ v 0).trans (zero_add _)

/-- If the masses sum to one, then the mass that does not lead back is that of the entries that
lead away. -/
theorem escapeMass_eq (hsum : a.mdp.Stochastic) (hc : c < a.mdp.numChoices s) :
  a.escapeMass s c = ((leaving s (a.mdp.successors s c)).map Prod.snd).sum
  := by
  have h := foldl_escapeMass s (a.mdp.successors s c) 1
  rw [hsum s c hc, sub_self, zero_add] at h
  apply h

/-- The expected value of a choice is what it gains elsewhere, plus the value of its state times
the mass that leads back. -/
theorem expectation_eq_escape (hsum : a.mdp.Stochastic) (hc : c < a.mdp.numChoices s)
    (v : Nat → ℝ) :
  expectation (a.mdp.successors s c) v
    = a.escapeValue none v s c + (1 - a.escapeMass s c) * v s
  := by
  rw [expectation_leaving s, hsum s c hc, escapeValue_eq, escapeMass_eq hsum hc]

/-- The entries that lead away have positive masses, too. -/
theorem mass_pos_leaving (ha : a.mdp.Proper) :
  ∀ e ∈ leaving s (a.mdp.successors s c), 0 < e.2
  := fun e he => ha.mass_pos s c e (mem_of_mem_leaving e he)

/-- The mass that leads back is not negative. -/
theorem escapeMass_le_one (ha : a.mdp.Proper) (hsum : a.mdp.Stochastic)
    (hc : c < a.mdp.numChoices s) :
  a.escapeMass s c ≤ 1
  := by
  rw [escapeMass_eq hsum hc, ← hsum s c hc]
  apply List.Sublist.sum_le_sum (List.filter_sublist.map _)
  intro p hp
  obtain ⟨e, he, rfl⟩ := List.mem_map.mp hp
  apply (ha.mass_pos s c e he).le

/-- A choice with an entry that leads away has mass that does. -/
theorem escapeMass_pos (ha : a.mdp.Proper) (hsum : a.mdp.Stochastic)
    (hc : c < a.mdp.numChoices s) {e : Nat × ℝ} (he : e ∈ leaving s (a.mdp.successors s c)) :
  0 < a.escapeMass s c
  := by
  rw [escapeMass_eq hsum hc]
  apply List.sum_pos
  · intro p hp
    obtain ⟨e, he, rfl⟩ := List.mem_map.mp hp
    apply mass_pos_leaving ha e he
  · apply List.ne_nil_of_mem (List.mem_map_of_mem he)

/-- A choice without mass that leads away gains nothing elsewhere, and so its expected value is
that of its state. -/
theorem escapeValue_eq_zero (ha : a.mdp.Proper) (hsum : a.mdp.Stochastic)
    (hc : c < a.mdp.numChoices s) (hmass : ¬ 0 < a.escapeMass s c) (v : Nat → ℝ) :
  a.escapeValue none v s c = 0 ∧ expectation (a.mdp.successors s c) v = v s
  := by
  have hnil : leaving s (a.mdp.successors s c) = [] := by
    apply List.eq_nil_iff_forall_not_mem.mpr
    intro e he
    apply hmass (escapeMass_pos ha hsum hc he)
  rw [expectation_eq_escape hsum hc, escapeValue_eq, escapeMass_eq hsum hc, hnil]
  simp

/-- Larger values gain more elsewhere. -/
theorem escapeValue_mono (ha : a.mdp.Proper) {v w : Nat → ℝ}
    (h : ∀ t < a.numStates, v t ≤ w t) :
  a.escapeValue none v s c ≤ a.escapeValue none w s c
  := by
  rw [escapeValue_eq, escapeValue_eq]
  apply expectation_mono (mass_pos_leaving ha)
  intro e he
  apply h e.1 (ha.lt_numStates s c e (mem_of_mem_leaving e he))

/-- The value with the loop solved for is not negative if no value is. -/
theorem loopFreeValue_nonneg (ha : a.mdp.Proper) {v : Nat → ℝ}
    (h : ∀ t < a.numStates, 0 ≤ v t) :
  0 ≤ a.loopFreeValue none v s c
  := by
  have hgain : 0 ≤ a.escapeValue none v s c := by
    rw [escapeValue_eq]
    apply expectation_nonneg (mass_pos_leaving ha)
    intro e he
    apply h e.1 (ha.lt_numStates s c e (mem_of_mem_leaving e he))
  rw [loopFreeValue]
  split
  · next hmass => apply div_nonneg hgain hmass.le
  · apply hgain

/-- If a choice with mass that leads away attains a value that is not below that of its state, then
its value with the loop solved for is at least that value, and this stays so for larger values of
the states. -/
theorem le_loopFreeValue_of_mass (ha : a.mdp.Proper) (hsum : a.mdp.Stochastic)
    (hc : c < a.mdp.numChoices s) (hmass : 0 < a.escapeMass s c) {v w : Nat → ℝ}
    (h : ∀ t < a.numStates, v t ≤ w t) {x : ℝ} (hle : v s ≤ x)
    (hx : x ≤ expectation (a.mdp.successors s c) v) :
  x ≤ a.loopFreeValue none w s c
  := by
  have hback := mul_le_mul_of_nonneg_left hle
    (sub_nonneg.mpr (escapeMass_le_one ha hsum hc))
  have hgain := escapeValue_mono (s := s) (c := c) ha h
  rw [expectation_eq_escape hsum hc] at hx
  rw [loopFreeValue, if_pos hmass, le_div_iff₀ hmass]
  linarith

/-- If a choice attains a value from a lower one of its state, then its value with the loop solved
for is at least that value, and this stays so for larger values of the states. -/
theorem le_loopFreeValue (ha : a.mdp.Proper) (hsum : a.mdp.Stochastic)
    (hc : c < a.mdp.numChoices s) {v w : Nat → ℝ} (h : ∀ t < a.numStates, v t ≤ w t) {x : ℝ}
    (hlt : v s < x) (hx : x ≤ expectation (a.mdp.successors s c) v) :
  x ≤ a.loopFreeValue none w s c
  := by
  have hmass : 0 < a.escapeMass s c := by
    by_contra hmass
    rw [(escapeValue_eq_zero ha hsum hc hmass v).2] at hx
    apply not_le_of_gt hlt hx
  apply le_loopFreeValue_of_mass ha hsum hc hmass h hlt.le hx

/-- If the value with the loop solved for is above one that its state may have, then so is the
expected value of the choice, and this stays so for larger values of the states. -/
theorem lt_expectation_of_lt_loopFreeValue (ha : a.mdp.Proper) (hsum : a.mdp.Stochastic)
    (hc : c < a.mdp.numChoices s) {v w : Nat → ℝ} (h : ∀ t < a.numStates, v t ≤ w t)
    (hw : 0 ≤ w s) (hlt : w s < a.loopFreeValue none v s c) :
  w s < expectation (a.mdp.successors s c) w
  := by
  have hgain := escapeValue_mono (s := s) (c := c) ha h
  rw [loopFreeValue] at hlt
  split at hlt
  · next hmass =>
      rw [lt_div_iff₀ hmass] at hlt
      rw [expectation_eq_escape hsum hc]
      linarith
  · next hmass =>
      rw [(escapeValue_eq_zero ha hsum hc hmass v).1] at hlt
      exact absurd hw (not_le_of_gt hlt)

end Arena

end Reachability
