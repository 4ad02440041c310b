import Mathlib
import Reachability.Proofs.Construction
import Reachability.Proofs.Exact
import Reachability.Proofs.Expectation

/-!
# Processes whose masses sum to one

`Mdp.Stochastic` says that the masses of every choice sum to one.  A draft whose distributions do so
can be finished, and then its process does (`Mdp.Draft.build_of_exact`).  The masses of a proper
process are bounded away from zero (`Mdp.Proper.exists_massAtLeast`).
-/

namespace Reachability

/-! ### Masses of a process -/

/-- The masses of every choice sum to one. -/
def Mdp.Stochastic (m : Mdp ℝ) : Prop :=
  ∀ s, ∀ c < m.numChoices s, ((m.successors s c).map Prod.snd).sum = 1

/-- Finitely many positive numbers have a positive lower bound, which may be taken at most
one. -/
theorem exists_le_of_pos (values : List ℝ) (h : ∀ x ∈ values, 0 < x) :
  ∃ δ : ℝ, 0 < δ ∧ δ ≤ 1 ∧ ∀ x ∈ values, δ ≤ x
  := by
  induction values with
  | nil =>
      use 1, one_pos, le_refl 1
      intro x hx
      cases hx
  | cons y values ih =>
      obtain ⟨hy, hvalues⟩ := List.forall_mem_cons.mp h
      obtain ⟨δ, hpos, hone, hle⟩ := ih hvalues
      use min δ y, lt_min hpos hy, le_trans (min_le_left _ _) hone
      rw [List.forall_mem_cons]
      constructor
      · apply min_le_right
      · intro x hx
        apply le_trans (min_le_left _ _) (hle x hx)

/-- A choice that a state does not have is without successors. -/
theorem Mdp.successors_eq_nil {V : Type} {m : Mdp V} {s c : Nat} (h : m.numChoices s ≤ c) :
  m.successors s c = []
  := by
  rw [numChoices] at h
  rw [successors, ChoiceMatrix.successors, ChoiceMatrix.rowIndex?, if_neg (Nat.not_lt_of_ge h)]

/-- The masses of a process are at least `δ`, which is positive and at most one. -/
structure Mdp.MassAtLeast (m : Mdp ℝ) (δ : ℝ) : Prop where
  pos : 0 < δ
  le_one : δ ≤ 1
  le_mass : ∀ s c, ∀ e ∈ m.successors s c, δ ≤ e.2

/-- The masses of a proper process are bounded away from zero. -/
theorem Mdp.Proper.exists_massAtLeast {m : Mdp ℝ} (h : m.Proper) :
  ∃ δ, m.MassAtLeast δ
  := by
  obtain ⟨δ, hpos, hone, hle⟩ := exists_le_of_pos
    (m.choicePairs.flatMap fun p => (m.successors p.1 p.2).map Prod.snd) (by
      intro x hx
      obtain ⟨p, -, hx⟩ := List.mem_flatMap.mp hx
      obtain ⟨e, he, rfl⟩ := List.mem_map.mp hx
      apply h.mass_pos p.1 p.2 e he)
  refine ⟨δ, hpos, hone, ?_⟩
  intro s c e he
  have hc : c < m.numChoices s := by
    by_contra hc
    rw [successors_eq_nil (Nat.le_of_not_lt hc)] at he
    cases he
  apply hle
  apply List.mem_flatMap.mpr ⟨(s, c), mem_choicePairs.mpr ⟨h.lt_of_lt_numChoices hc, hc⟩, _⟩
  apply List.mem_map.mpr ⟨e, he, rfl⟩

/-! ### Exact distributions -/

namespace Distribution

/-- The masses of an exact distribution are on states of the model, not negative, and sum to
exactly one. -/
structure Exact (d : Distribution ℝ) (numStates : Nat) : Prop where
  lt_numStates : ∀ pair ∈ d.pairs, pair.1 < numStates
  nonneg : ∀ pair ∈ d.pairs, 0 ≤ pair.2
  sum : (d.pairs.map Prod.snd).sum = 1

variable {d : Distribution ℝ} {numStates : Nat}

/-- A distribution fits if its masses are on states of the model, not negative, and sum to one within
the tolerance. -/
theorem validate_eq_ok_iff_abs_le {W : Type} {s c : Nat} :
  (d.validate s c numStates : Except (CheckError ℝ W) Unit) = .ok ()
    ↔ (∀ pair ∈ d.pairs, pair.1 < numStates ∧ 0 ≤ pair.2)
      ∧ |(d.pairs.map Prod.snd).sum - 1| ≤ 1 / 10 ^ 6
  := by
  have htolerance : ¬ tolerance < Arithmetic.abs (d.total - 1)
      ↔ |(d.pairs.map Prod.snd).sum - 1| ≤ 1 / 10 ^ 6 := by
    have hreal : (tolerance : ℝ) = 1 / 10 ^ 6 := by
      change ((1 : ℕ) : ℝ) / 10 ^ 6 = _
      rw [Nat.cast_one]
    rw [hreal, total, Arithmetic.sum_real]
    apply not_lt
  rw [validate_eq_ok_iff, htolerance]
  constructor
  · rintro ⟨-, hpairs, hsum⟩
    exact ⟨fun pair hpair => ⟨(hpairs pair hpair).1, not_lt.mp (hpairs pair hpair).2.2⟩, hsum⟩
  · rintro ⟨hpairs, hsum⟩
    refine ⟨?_, fun pair hpair =>
      ⟨(hpairs pair hpair).1, rfl, not_lt.mpr (hpairs pair hpair).2⟩, hsum⟩
    intro hnone
    rw [hnone] at hsum
    norm_num at hsum

/-- An exact distribution fits any choice. -/
theorem Exact.validate_eq_ok {W : Type} (h : d.Exact numStates) (s c : Nat) :
  (d.validate s c numStates : Except (CheckError ℝ W) Unit) = .ok ()
  := by
  apply validate_eq_ok_iff_abs_le.mpr
  constructor
  · intro pair hpair
    exact ⟨h.lt_numStates pair hpair, h.nonneg pair hpair⟩
  · rw [h.sum, sub_self, abs_zero]
    positivity

/-- Leaving out the masses that are zero does not change the sum of values times their masses. -/
theorem sum_filter_pos {pairs : List (Nat × ℝ)} (h : ∀ pair ∈ pairs, 0 ≤ pair.2) (v : Nat → ℝ) :
  ((pairs.filter fun pair => decide (0 < pair.2)).map fun pair => pair.2 * v pair.1).sum
    = (pairs.map fun pair => pair.2 * v pair.1).sum
  := by
  induction pairs with
  | nil => rfl
  | cons pair pairs ih =>
      obtain ⟨hpair, hpairs⟩ := List.forall_mem_cons.mp h
      rw [List.filter_cons, List.map_cons, List.sum_cons, ← ih hpairs]
      split
      · rw [List.map_cons, List.sum_cons]
      · next hzero =>
          rw [decide_eq_true_eq, not_lt] at hzero
          rw [le_antisymm hzero hpair, zero_mul, zero_add]

/-- The expected value of the row of a distribution is the sum of the values times their masses. -/
theorem expectation_row (h : ∀ pair ∈ d.pairs, 0 ≤ pair.2) (v : Nat → ℝ) :
  expectation d.row v = (d.pairs.map fun pair => pair.2 * v pair.1).sum
  := by
  have hperm := (List.mergeSort_perm (d.pairs.filter fun pair => decide (0 < pair.2))
    fun x y => decide (x.1 ≤ y.1)).map fun pair => pair.2 * v pair.1
  rw [expectation_real, row, hperm.sum_eq]
  apply sum_filter_pos h

/-- The row of an exact distribution sums to one. -/
theorem Exact.sum_row (h : d.Exact numStates) :
  (d.row.map Prod.snd).sum = 1
  := by
  have hone := expectation_row h.nonneg fun _ => 1
  simp only [expectation_real, mul_one] at hone
  apply hone.trans h.sum

/-- The distribution with all mass on one state lists that state only. -/
theorem pairs_dirac (s : Nat) :
  (dirac s : Distribution ℝ).pairs = [(s, 1)]
  := rfl

/-- The distribution with all mass on one state of the model is exact. -/
theorem exact_dirac {s : Nat} (hs : s < numStates) :
  (dirac s).Exact numStates
  := by
  constructor <;> simp [pairs_dirac, hs]

/-- With all mass on one state the expected value is that of the state. -/
theorem expectation_row_dirac (s : Nat) (v : Nat → ℝ) :
  expectation (dirac s).row v = v s
  := by
  rw [expectation_row] <;> simp [pairs_dirac]

/-- The distribution over two states with the same probability. -/
noncomputable def fair (s t : Nat) (h : s ≠ t) : Distribution ℝ :=
  ⟨⟨[(s, 1 / 2), (t, 1 / 2)], by simpa using h⟩⟩

/-- A fair distribution over states of the model is exact. -/
theorem exact_fair {s t : Nat} (h : s ≠ t) (hs : s < numStates) (ht : t < numStates) :
  (fair s t h).Exact numStates
  := by
  constructor <;> norm_num [pairs, fair, hs, ht]

/-- The expected value of two states with the same probability is their mean. -/
theorem expectation_row_fair {s t : Nat} (h : s ≠ t) (v : Nat → ℝ) :
  expectation (fair s t h).row v = (v s + v t) / 2
  := by
  rw [expectation_row]
  · simp [pairs, fair]
    ring
  · simp [pairs, fair]

end Distribution

/-- A draft whose distributions are exact can be finished, and then the masses of every choice
sum to one. -/
theorem Mdp.Draft.build_of_exact {W : Type} {b : Mdp.Draft ℝ}
    (h : ∀ s c choice, b.choice? s c = some choice → choice.distribution.Exact b.numStates) :
  (b.build : Except (CheckError ℝ W) (Mdp ℝ)) = .ok b.process ∧ b.process.Stochastic
  := by
  constructor
  · apply build_eq_ok_iff.mpr ⟨_, rfl⟩
    apply validate_eq_ok_iff.mpr
    intro s c choice hchoice
    apply (h s c choice hchoice).validate_eq_ok
  · intro s c hc
    rw [successors_process]
    rw [numChoices_process] at hc
    obtain ⟨choice, hchoice⟩ := exists_choice hc
    rw [hchoice]
    apply (h s c choice hchoice).sum_row

/-! ### A sample game -/

/-- A game of four states.  The first player may gamble in state `0` or stay there; the second
player may move from state `1` to state `3` or back to state `0` with probability one half; the
other states have no choices. -/
noncomputable def Game.Draft.sample : Game.Draft ℝ where
  mdp :=
    { choices :=
        #[#[⟨⟨[(1, 1 / 2), (2, 1 / 2)], by decide⟩, none⟩, ⟨⟨[(0, 1)], by decide⟩, some "stay"⟩],
          #[⟨⟨[(3, 1)], by decide⟩, none⟩, ⟨⟨[(0, 1 / 2), (3, 1 / 2)], by decide⟩, none⟩],
          #[], #[]]
      initialStates := [0] }
  players := #[.one, .two, .one, .one]

/-- The model of the sample game. -/
noncomputable def Model.sample : Model ℝ :=
  .game ⟨Game.Draft.sample.mdp.process, Game.Draft.sample.players⟩

/-- The distributions of the sample game are exact. -/
theorem Game.Draft.exact_sample (s c : Nat) (choice : Choice ℝ)
    (h : sample.mdp.choice? s c = some choice) :
  choice.distribution.Exact sample.mdp.numStates
  := by
  have hmem := Mdp.Draft.mem_of_choice?_eq_some h
  simp only [sample, List.flatMap_cons, List.flatMap_nil, List.cons_append, List.nil_append,
    List.mem_cons, List.not_mem_nil, or_false] at hmem
  obtain rfl | rfl | rfl | rfl := hmem
  · constructor <;> norm_num [Distribution.pairs, Mdp.Draft.numStates, sample]
  · constructor <;> norm_num [Distribution.pairs, Mdp.Draft.numStates, sample]
  · constructor <;> norm_num [Distribution.pairs, Mdp.Draft.numStates, sample]
  · constructor <;> norm_num [Distribution.pairs, Mdp.Draft.numStates, sample]

/-- The sample game can be made. -/
theorem Model.built_sample :
  Model.sample.Built
  := by
  have hmdp := (Mdp.Draft.build_of_exact (W := Nat) Game.Draft.exact_sample).1
  apply Model.Built.game (W := Nat) (b := Game.Draft.sample)
  rw [Game.Draft.build, hmdp]
  rfl

/-- The masses of every choice of the sample game sum to one. -/
theorem Model.stochastic_sample :
  Model.sample.process.Stochastic
  := by
  apply (Mdp.Draft.build_of_exact (W := Nat) Game.Draft.exact_sample).2

end Reachability
