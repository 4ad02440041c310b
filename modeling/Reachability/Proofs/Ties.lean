import Mathlib
import Reachability.Proofs.Greedy
import Reachability.Proofs.Passes

/-!
# Choices with the same value

The value of a state is that of the first of its best choices, and the choices whose values are
within the tolerance of it are listed separately.  For exact values the two agree: the list ascends,
and it has all choices with the value of the state, so that it has the one that is taken
(`Arena.exists_optimal_ties`).  It may have others, too, since the tolerance is positive.
-/

namespace Reachability

namespace Arena

section Ties

variable {V : Type} [Arithmetic V] (a : Arena V) (rewards : Option (Rewards V)) (v : Nat → V)

/-- The choices with about the same value are listed in ascending order. -/
theorem pairwise_optimalChoices (s : Nat) (value : V) :
  (a.optimalChoices rewards v s value).Pairwise (· < ·)
  := List.pairwise_lt_range.filter _

/-- The choices with about the same value are those of the state whose values are within the
tolerance of it. -/
theorem mem_optimalChoices {s c : Nat} {value : V} :
  c ∈ a.optimalChoices rewards v s value
    ↔ c < a.mdp.numChoices s
      ∧ Arithmetic.abs (a.choiceValue rewards v s c - value) ≤ tieTolerance
  := by
  rw [optimalChoices, List.mem_filter, List.mem_range, decide_eq_true_eq]

/-- A state without choices has value zero and takes none. -/
theorem optimal_of_numChoices_eq_zero {s : Nat} (hn : a.mdp.numChoices s = 0) (d : Direction) :
  a.optimal rewards v d s = (0, none)
  := by
  rw [optimal, choiceValues, hn]
  rfl

/-- A choice is the first best one of a state for a direction if no choice of the state is better,
and all choices before it are worse. -/
structure IsFirstBest (d : Direction) (s c : Nat) : Prop where
  lt_numChoices : c < a.mdp.numChoices s
  unbeaten : ∀ c' < a.mdp.numChoices s,
    d.improves (a.choiceValue rewards v s c') (a.choiceValue rewards v s c) = false
  worse_before : ∀ c' < c,
    d.improves (a.choiceValue rewards v s c) (a.choiceValue rewards v s c') = true

/-- A state with choices has the value of its first best one, which it takes. -/
theorem exists_optimal [Ranked V] {s : Nat} (hn : 0 < a.mdp.numChoices s) (d : Direction) :
  ∃ c, a.optimal rewards v d s = (a.choiceValue rewards v s c, some c)
    ∧ a.IsFirstBest rewards v d s c
  := by
  obtain ⟨c, hc, hoptimal, hunbeaten, hworse⟩ :=
    Direction.exists_optimum (d := d) hn (a.choiceValue rewards v s)
  exact ⟨c, hoptimal, hc, hunbeaten, hworse⟩

end Ties

/-- For exact values, the tolerance is what it is written as. -/
theorem mem_optimalChoices_real {a : Arena ℝ} {rewards : Option (Rewards ℝ)} {v : Nat → ℝ}
    {s c : Nat} {value : ℝ} :
  c ∈ a.optimalChoices rewards v s value
    ↔ c < a.mdp.numChoices s ∧ |a.choiceValue rewards v s c - value| ≤ 1 / 10 ^ 12
  := by
  have htolerance : (tieTolerance : ℝ) = 1 / 10 ^ 12 := by
    change ((1 : ℕ) / 10 ^ 12 : ℝ) = _
    rw [Nat.cast_one]
  rw [a.mem_optimalChoices rewards v, htolerance]
  rfl

/-- For exact values, all choices with the given value are listed. -/
theorem mem_optimalChoices_of_eq {a : Arena ℝ} {rewards : Option (Rewards ℝ)} {v : Nat → ℝ}
    {s c : Nat} {value : ℝ} (hc : c < a.mdp.numChoices s)
    (hvalue : a.choiceValue rewards v s c = value) :
  c ∈ a.optimalChoices rewards v s value
  := by
  rw [mem_optimalChoices_real, hvalue, sub_self, abs_zero]
  exact ⟨hc, by positivity⟩

/-- For exact values, a state has value zero and takes no choice if and only if it has none.
Otherwise it takes its first best choice and has the value of that.  The choices with about this
value are listed in ascending order; among them are the one that is taken and all others with this
value, and they are those whose values are within the tolerance of it. -/
theorem exists_optimal_ties {a : Arena ℝ} (rewards : Option (Rewards ℝ)) {v : Array ℝ} {s : Nat}
    (hs : s < a.numStates) (hv : a.covers v.size s = true) (d : Direction) :
  ∃ value choice, a.optimal? rewards v d s = some (value, choice)
    ∧ ((value, choice) = (0, none) ↔ a.mdp.numChoices s = 0)
    ∧ (0 < a.mdp.numChoices s → ∃ c ties, choice = some c
      ∧ value = a.choiceValue rewards (valuation v) s c
      ∧ a.IsFirstBest rewards (valuation v) d s c
      ∧ a.optimalChoices? rewards v s value = some ties
      ∧ ties.Pairwise (· < ·)
      ∧ c ∈ ties
      ∧ (∀ c' < a.mdp.numChoices s, a.choiceValue rewards (valuation v) s c' = value → c' ∈ ties)
      ∧ ∀ c', c' ∈ ties ↔ c' < a.mdp.numChoices s
        ∧ |a.choiceValue rewards (valuation v) s c' - value| ≤ 1 / 10 ^ 12)
  := by
  have hoptimal : a.optimal? rewards v d s = some (a.optimal rewards (valuation v) d s) :=
    if_pos ⟨hs, hv⟩
  have hlisted : ∀ value,
      a.optimalChoices? rewards v s value = some (a.optimalChoices rewards (valuation v) s value) :=
    fun value => if_pos ⟨hs, hv⟩
  obtain hn | hn := Nat.eq_zero_or_pos (a.mdp.numChoices s)
  · rw [a.optimal_of_numChoices_eq_zero rewards _ hn] at hoptimal
    refine ⟨0, none, hoptimal, iff_of_true rfl hn, ?_⟩
    intro hpos
    exact absurd hn hpos.ne'
  · obtain ⟨c, hc, hfirst⟩ := a.exists_optimal rewards (valuation v) hn d
    rw [hc] at hoptimal
    have hnone : (a.choiceValue rewards (valuation v) s c, some c) ≠ (0, none) := by
      intro h
      cases (Prod.mk.inj h).2
    refine ⟨_, _, hoptimal, iff_of_false hnone hn.ne', ?_⟩
    intro _
    refine ⟨c, _, rfl, rfl, hfirst, hlisted _, a.pairwise_optimalChoices rewards _ s _,
      mem_optimalChoices_of_eq hfirst.lt_numChoices rfl, ?_, ?_⟩
    · intro c' hc' hsame
      apply mem_optimalChoices_of_eq hc' hsame
    · intro c'
      apply mem_optimalChoices_real

/-- In the model with a tie, if the states have the values one half, one and zero, then staying and
gambling have the same value in state `0`: staying is taken by a player who maximises, and both are
listed. -/
theorem exists_optimal_ties_tied :
  0 < Model.tied.arena.numStates ∧ Model.tied.arena.covers (#[1 / 2, 1, 0] : Array ℝ).size 0 = true
    ∧ ∃ value ties, Model.tied.arena.optimal? none #[1 / 2, 1, 0] .max 0 = some (value, some 0)
      ∧ value = 1 / 2
      ∧ Model.tied.arena.optimalChoices? none #[1 / 2, 1, 0] 0 value = some ties
      ∧ ties = [0, 1]
  := by
  have hcovers : Model.tied.arena.covers (#[1 / 2, 1, 0] : Array ℝ).size 0 = true :=
    covers_iff.mpr fun c _ e he => Model.built_tied.proper_arena.lt_numStates 0 c e he
  have hstay : Model.tied.arena.choiceValue none (valuation #[1 / 2, 1, 0]) 0 0 = 1 / 2 :=
    Model.expectation_tied_stay _
  have hgamble : Model.tied.arena.choiceValue none (valuation #[1 / 2, 1, 0]) 0 1 = 1 / 2 := by
    apply Eq.trans (Model.expectation_tied_gamble _)
    norm_num [valuation]
  obtain ⟨value, choice, hoptimal, -, hties⟩ :=
    exists_optimal_ties none (Nat.zero_lt_succ 2) hcovers .max
  obtain ⟨c, ties, rfl, rfl, hfirst, hlisted, hpairwise, hc, hmem, hiff⟩ := hties (by decide)
  have hvalue : ∀ c' < 2,
      Model.tied.arena.choiceValue none (valuation #[1 / 2, 1, 0]) 0 c' = 1 / 2 := by
    intro c' hc'
    obtain rfl | rfl : c' = 0 ∨ c' = 1 := by omega
    · exact hstay
    · exact hgamble
  have hlt : c < 2 := hfirst.lt_numChoices
  obtain rfl : c = 0 := by
    by_contra hne
    have hworse := hfirst.worse_before 0 (Nat.pos_of_ne_zero hne)
    rw [hvalue c hlt, hstay, Direction.improves_self] at hworse
    cases hworse
  refine ⟨Nat.zero_lt_succ 2, hcovers, _, ties, hoptimal, hstay, hlisted, ?_⟩
  have : Std.Asymm fun c c' : Nat => c < c' := ⟨fun _ _ hlt => Nat.lt_asymm hlt⟩
  apply hpairwise.eq_of_mem_iff (by decide)
  intro c'
  constructor
  · intro hin
    have hc' : c' < 2 := ((hiff c').mp hin).1
    obtain rfl | rfl : c' = 0 ∨ c' = 1 := by omega
    · decide
    · decide
  · intro hin
    have hc' : c' < 2 := by
      simp only [List.mem_cons, List.not_mem_nil, or_false] at hin
      omega
    apply hmem c' hc'
    rw [hvalue c' hc', hstay]

end Arena

end Reachability
