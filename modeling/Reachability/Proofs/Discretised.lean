import Mathlib
import Reachability.Proofs.Bounded
import Reachability.Proofs.Rates
import Reachability.Proofs.StayingPut
import Reachability.Proofs.Steps

/-!
# What discretised processes compute

In a step of the discretised process a choice stays put with a probability that depends on its exit
rate only.  If all exit rates are equal, then the discretised process is the process of the jumps
made lazy (`Mdp.IsLazy`).

Choices of the lazy process are made by the step and those of the process of the jumps by the number
of jumps.  So a value of the lazy process does not improve on the expected value of the process of
the jumps at the number of jumps, and equals it where there is nothing to choose
(`Mdp.IsLazy.improves_stepValue`, `Mdp.IsLazy.stepValue_eq`).
-/

namespace Reachability

/-! ### Combined values -/

namespace Direction

variable {d : Direction} {stay : ℝ}

/-- If neither of two values improves on another one, then their mean does not improve on that of
the others. -/
theorem improves_mean (hstay : stay ∈ Set.Icc 0 1) {x x' y y' : ℝ} (h : d.improves x y = false)
    (h' : d.improves x' y' = false) :
  d.improves (stay * x + (1 - stay) * x') (stay * y + (1 - stay) * y') = false
  := by
  have hjump := sub_nonneg.mpr hstay.2
  have hstay := hstay.1
  cases d with
  | min =>
      simp only [improves, decide_eq_false_iff_not, not_lt] at h h' ⊢
      gcongr
  | max =>
      simp only [improves, decide_eq_false_iff_not, not_lt] at h h' ⊢
      gcongr

/-- If no value improves on another one, then the expected value at the number of jumps does not
improve on that of the others. -/
theorem improves_stepMean (hstay : stay ∈ Set.Icc 0 1) (k : Nat) {f g : Nat → ℝ}
    (h : ∀ i, d.improves (f i) (g i) = false) :
  d.improves (stepMean stay k f) (stepMean stay k g) = false
  := by
  cases d with
  | min =>
      simp only [improves, decide_eq_false_iff_not, not_lt] at h ⊢
      apply stepMean_mono hstay k h
  | max =>
      simp only [improves, decide_eq_false_iff_not, not_lt] at h ⊢
      apply stepMean_mono hstay k h

end Direction

/-- The expected values of the successors and of the number of jumps may be taken in any order. -/
theorem expectation_stepMean (row : List (Nat × ℝ)) (stay : ℝ) (k : Nat) (v : Nat → Nat → ℝ) :
  expectation row (fun s => stepMean stay k fun i => v i s)
    = stepMean stay k fun i => expectation row (v i)
  := by
  induction k generalizing v with
  | zero => simp only [stepMean_zero]
  | succ k ih =>
      simp only [stepMean_succ, expectation_add, expectation_mul_left, ih]

/-! ### Updates -/

namespace Arena

variable {a : Arena ℝ} {u : Until} {o : Objective} {s : Nat}

/-- No choice improves on the update for the direction of the owner, nor for the other one if there
is a single choice. -/
theorem improves_update {d : Direction} (hd : a.direction o s = d ∨ a.mdp.numChoices s ≤ 1)
    {c : Nat} (hc : c < a.mdp.numChoices s) (v : Nat → ℝ) :
  d.improves (expectation (a.mdp.successors s c) v) (a.update none o v s).1 = false
  := by
  obtain ⟨best, hbest, hupdate, hunbeaten⟩ := a.exists_update (o := o) (Nat.zero_lt_of_lt hc) v
  rw [hupdate]
  obtain rfl | hsingle := hd
  · apply hunbeaten c hc
  · obtain rfl : c = best := by omega
    apply d.improves_self

/-- A state without choices that is not in the target has the value zero. -/
theorem stepValue_eq_zero (hnone : a.mdp.numChoices s = 0) (htarget : u.target.contains s = false)
    (k : Nat) :
  a.stepValue u o k s = 0
  := by
  cases k with
  | zero => rw [stepValue_zero, if_neg (Bool.eq_false_iff.mp htarget)]
  | succ k =>
      rw [stepValue_succ, advance, if_neg (Bool.eq_false_iff.mp htarget), update_fst, hnone,
        Direction.optimum_zero, ite_self]

end Arena

/-! ### Lazy processes -/

/-- A process is a lazy version of another one if it has the same states and choices, which stay put
with probability `stay` and otherwise make a step of the other process. -/
structure Mdp.IsLazy (m' m : Mdp ℝ) (stay : ℝ) : Prop where
  numStates : m'.numStates = m.numStates
  numChoices : ∀ s, m'.numChoices s = m.numChoices s
  expectation : ∀ s < m.numStates, ∀ c < m.numChoices s, ∀ v,
    expectation (m'.successors s c) v = stay * v s + (1 - stay) * expectation (m.successors s c) v

namespace Mdp.IsLazy

variable {m m' : Mdp ℝ} {stay : ℝ} {u : Until} {o : Objective}

/-- Where there are choices, the update of a lazy process keeps the value of the state with
probability `stay` and otherwise takes the expected value of a choice. -/
theorem exists_update (h : m'.IsLazy m stay) {s : Nat} (hs : s < m.numStates)
    (hsome : 0 < m.numChoices s) (v : Nat → ℝ) :
  ∃ c < m.numChoices s, (m'.arena.update none o v s).1
    = stay * v s + (1 - stay) * Reachability.expectation (m.successors s c) v
  := by
  rw [← h.numChoices] at hsome
  obtain ⟨c, hc, hupdate, -⟩ := m'.arena.exists_update (o := o) hsome v
  have hc' : c < m.numChoices s := (h.numChoices s) ▸ hc
  use c, hc'
  rw [hupdate, ← h.expectation s hs c hc']
  rfl

/-- The values of a lazy process do not improve on the expected values at the number of jumps, for a
direction that is that of all states with several choices. -/
theorem improves_stepValue (h : m'.IsLazy m stay) (hstay : stay ∈ Set.Icc 0 1) (hm : m.Proper)
    {d : Direction} (hd : ∀ s < m.numStates, o.player1 = d ∨ m.numChoices s ≤ 1)
    (k : Nat) {s : Nat} (hs : s < m.numStates) :
  d.improves (m'.arena.stepValue u o k s) (stepMean stay k fun i => m.arena.stepValue u o i s)
    = false
  := by
  induction k generalizing s with
  | zero =>
      rw [stepMean_zero, Arena.stepValue_zero, Arena.stepValue_zero]
      apply d.improves_self
  | succ k ih =>
      cases htarget : u.target.contains s with
      | true =>
          simp only [Arena.stepValue_target _ htarget, stepMean_const]
          apply d.improves_self
      | false =>
          cases hremains : u.remains s with
          | false =>
              simp only [Arena.stepValue_outside _ htarget hremains, stepMean_const]
              apply d.improves_self
          | true =>
              obtain hnone | hsome := Nat.eq_zero_or_pos (m.numChoices s)
              · have hnone' := (h.numChoices s).trans hnone
                simp only [Arena.stepValue_eq_zero (a := m.arena) hnone htarget,
                  Arena.stepValue_eq_zero (a := m'.arena) hnone' htarget, stepMean_const]
                apply d.improves_self
              -- The lazy process makes one choice for all numbers of jumps, and the process of the
              -- jumps makes the best one for each.
              · obtain ⟨c, hc, hupdate⟩ := h.exists_update (o := o) hs hsome
                  (m'.arena.stepValue u o k)
                have hjump : d.improves
                    (Reachability.expectation (m.successors s c) (m'.arena.stepValue u o k))
                    (stepMean stay k fun i =>
                      Reachability.expectation (m.successors s c) (m.arena.stepValue u o i))
                    = false := by
                  rw [← expectation_stepMean]
                  apply improves_expectation (hm.mass_pos s c)
                  intro e he
                  apply ih (hm.lt_numStates s c e he)
                rw [Arena.stepValue_succ, Arena.advance_remains _ _ _ htarget hremains, hupdate,
                  stepMean_succ]
                apply Direction.improves_mean hstay (ih hs)
                apply d.improves_trans hjump
                apply Direction.improves_stepMean hstay
                intro i
                rw [Arena.stepValue_succ, Arena.advance_remains _ _ _ htarget hremains]
                apply Arena.improves_update (a := m.arena) (hd s hs) hc

/-- If no state has several choices, then the values of a lazy process are the expected values at
the number of jumps. -/
theorem stepValue_eq (h : m'.IsLazy m stay) (hstay : stay ∈ Set.Icc 0 1) (hm : m.Proper)
    (hsingle : ∀ s < m.numStates, m.numChoices s ≤ 1) (k : Nat) {s : Nat} (hs : s < m.numStates) :
  m'.arena.stepValue u o k s = stepMean stay k fun i => m.arena.stepValue u o i s
  := by
  have hnever : ∀ d : Direction, d.improves (m'.arena.stepValue u o k s)
      (stepMean stay k fun i => m.arena.stepValue u o i s) = false := by
    intro d
    apply h.improves_stepValue hstay hm (fun t ht => Or.inr (hsingle t ht)) k hs
  apply le_antisymm
  · apply not_lt.mp (decide_eq_false_iff_not.mp (hnever .max))
  · apply not_lt.mp (decide_eq_false_iff_not.mp (hnever .min))

end Mdp.IsLazy

/-! ### Discretised distributions -/

/-- Exact arithmetic with any function in the place of the exponential one. -/
@[reducible]
noncomputable def Arithmetic.exactWith (exp : ℝ → ℝ) : Arithmetic ℝ :=
  { (inferInstance : Arithmetic ℝ) with exp := exp }

namespace Ctmdp

/-- The probability of staying put lies between zero and one. -/
theorem exp_neg_mul_mem_Icc {q tau : ℝ} (hq : 0 ≤ q) (htau : 0 ≤ tau) :
  Real.exp (-q * tau) ∈ Set.Icc 0 1
  := by
  constructor
  · apply (Real.exp_pos _).le
  · rw [Real.exp_le_one_iff, neg_mul, neg_nonpos]
    apply mul_nonneg hq htau

/-- The process that is seen in steps in which a choice with exit rate `E` stays put with probability
`stay E`. -/
noncomputable def stepped {W : Type} (m : Ctmdp ℝ) (stay : ℝ → ℝ) :
    Except (CheckError ℝ W) (Mdp ℝ) :=
  m.mdp.mapDistributions fun s c d => discretised (stay (m.exitRate s c)) s d

/-- The process that is seen in steps exists if the probabilities of staying put lie between zero
and one. -/
theorem Built.exists_stepped {W : Type} {m : Ctmdp ℝ} (hm : m.Built) (stay : ℝ → ℝ)
    (hstay : ∀ rate ∈ m.exitRates, stay rate ∈ Set.Icc 0 1) :
  ∃ mdp, (m.stepped stay : Except (CheckError ℝ W) (Mdp ℝ)) = .ok mdp ∧ mdp.Proper
    ∧ mdp.JumpsOrStays m.mdp (fun s c => 1 - stay (m.exitRate s c)) fun s c =>
      stay (m.exitRate s c)
  := by
  have hunit : ∀ s < m.mdp.numStates, ∀ c < m.mdp.numChoices s,
      stay (m.exitRate s c) ∈ Set.Icc 0 1 :=
    fun s hs c hc => hstay _ (hm.exitRate_mem hs hc)
  obtain ⟨mdp, hok, hproper, hjumps, -⟩ := hm.exists_jumpsOrStays (W := W)
    (fun s c d => discretised (stay (m.exitRate s c)) s d)
    (fun s c => 1 - stay (m.exitRate s c)) (fun s c => stay (m.exitRate s c)) (by
      intro s hs c hc
      obtain ⟨hnonneg, hone⟩ := hunit s hs c hc
      exact ⟨⟨sub_nonneg.mpr hone, sub_le_self 1 hnonneg⟩, sub_add_cancel _ _⟩)
    (fun s hs c hc d hd => hd.discretised hs (hunit s hs c hc))
  exact ⟨mdp, hok, hproper, hjumps⟩

/-- If all exit rates are equal, then the discretised process exists and is a lazy version of the
process of the jumps. -/
theorem exists_discretise {W : Type} {m : Ctmdp ℝ} (hm : m.Built) (hsum : m.mdp.Stochastic)
    {q tau : ℝ} (hrates : ∀ rate ∈ m.exitRates, rate = q) {exp : ℝ → ℝ}
    (hstay : exp (-q * tau) ∈ Set.Icc 0 1) :
  ∃ mdp, (@discretise ℝ W (.exactWith exp) m tau = .ok mdp) ∧ mdp.Proper ∧ mdp.Stochastic
    ∧ mdp.IsLazy m.mdp (exp (-q * tau))
  := by
  have hproper : m.mdp.Proper := hm.model.proper_arena
  obtain ⟨mdp, hok, hproper', hjumps⟩ :=
    hm.exists_stepped (W := W) (fun rate => exp (-rate * tau)) (by
      intro rate hrate
      rw [hrates rate hrate]
      apply hstay)
  have hmean : ∀ s < m.mdp.numStates, ∀ c < m.mdp.numChoices s, ∀ v,
      expectation (mdp.successors s c) v
        = exp (-q * tau) * v s + (1 - exp (-q * tau)) * expectation (m.mdp.successors s c) v := by
    intro s hs c hc v
    rw [hjumps.expectation_successors hproper' hproper hs hc, hm.exitRate_eq hrates hs hc, add_comm]
  refine ⟨mdp, hok, hproper', ?_, hjumps.frame.numStates, hjumps.frame.numChoices, hmean⟩
  intro s c hc
  rw [hjumps.frame.numChoices] at hc
  have hone := hmean s (hproper.lt_of_lt_numChoices hc) c hc fun _ => 1
  simp only [expectation_real, mul_one, hsum s c hc, add_sub_cancel] at hone
  apply hone

end Ctmdp

/-! ### Answers for discretised processes -/

/-- If all exit rates are equal, then the answers for the discretised process are at most (at
least), for a player that maximises (minimises), the expected values of the answers for the process
of the jumps at the number of jumps in so many steps, and equal to them if no state has several
choices. -/
theorem Checker.exists_answers_discretised {W : Type} (checker : Checker W) {m : Ctmdp ℝ}
    (hm : m.Built) (hsum : m.mdp.Stochastic) {q tau stay : ℝ}
    (hrates : ∀ rate ∈ m.exitRates, rate = q) {exp : ℝ → ℝ} (hstay : exp (-q * tau) = stay)
    (hunit : stay ∈ Set.Icc 0 1) {u : Until} (o : Objective) (hu : u.Within m.mdp.numStates) :
  ∃ mdp answer discrete, (@Ctmdp.discretise ℝ W (.exactWith exp) m tau = .ok mdp)
    ∧ mdp.numStates = m.mdp.numStates
    ∧ checker.Answers m.arena u o answer ∧ checker.Answers mdp.arena u o discrete
    ∧ ∀ k, ∀ s < m.mdp.numStates,
      (o.player1 = .max → valuation (discrete k).values s
        ≤ stepMean stay k fun i => valuation (answer i).values s)
      ∧ (o.player1 = .min → stepMean stay k (fun i => valuation (answer i).values s)
        ≤ valuation (discrete k).values s)
      ∧ ((∀ t < m.mdp.numStates, m.mdp.numChoices t ≤ 1) → valuation (discrete k).values s
        = stepMean stay k fun i => valuation (answer i).values s)
  := by
  subst hstay
  have hproper : m.mdp.Proper := hm.model.proper_arena
  obtain ⟨mdp, hok, hproper', -, hlazy⟩ := Ctmdp.exists_discretise (W := W) hm hsum hrates hunit
  obtain ⟨answer, hanswers, hvalues⟩ := checker.exists_answers (a := m.arena) (o := o) hproper hu
  obtain ⟨discrete, hdiscrete, hvalues'⟩ := checker.exists_answers (a := mdp.arena) (o := o)
    (u := u) hproper' (by rw [← hlazy.numStates] at hu; exact hu)
  refine ⟨mdp, answer, discrete, hok, hlazy.numStates, hanswers, hdiscrete, ?_⟩
  intro k s hs
  have hmean : (fun i => valuation (answer i).values s)
      = fun i => m.mdp.arena.stepValue u o i s := by
    funext i
    apply hvalues i s hs
  rw [hmean, hvalues' k s (by rw [← hlazy.numStates] at hs; exact hs)]
  refine ⟨?_, ?_, ?_⟩
  · intro hmax
    have h := hlazy.improves_stepValue (u := u) hunit hproper (fun t _ => Or.inl hmax) k hs
    apply not_lt.mp (decide_eq_false_iff_not.mp h)
  · intro hmin
    have h := hlazy.improves_stepValue (u := u) hunit hproper (fun t _ => Or.inl hmin) k hs
    apply not_lt.mp (decide_eq_false_iff_not.mp h)
  · intro hsingle
    apply hlazy.stepValue_eq hunit hproper hsingle k hs

/-- The sample model is answered in steps of one unit of time by the jumps in them. -/
theorem Checker.exists_answers_discretised_sample :
  Real.exp (-1 * 1) ∈ Set.Icc 0 1
    ∧ ∃ mdp answer discrete,
      (@Ctmdp.discretise ℝ ℝ (.exactWith Real.exp) Ctmdp.sample 1 = .ok mdp)
      ∧ mdp.numStates = Ctmdp.sample.mdp.numStates
      ∧ sample.Answers Ctmdp.sample.arena .arrival .max answer
      ∧ sample.Answers mdp.arena .arrival .max discrete
      ∧ ∀ k, ∀ s < Ctmdp.sample.mdp.numStates,
        (Objective.max.player1 = .max → valuation (discrete k).values s
          ≤ stepMean (Real.exp (-1 * 1)) k fun i => valuation (answer i).values s)
        ∧ (Objective.max.player1 = .min →
          stepMean (Real.exp (-1 * 1)) k (fun i => valuation (answer i).values s)
            ≤ valuation (discrete k).values s)
        ∧ ((∀ t < Ctmdp.sample.mdp.numStates, Ctmdp.sample.mdp.numChoices t ≤ 1) →
          valuation (discrete k).values s
            = stepMean (Real.exp (-1 * 1)) k fun i => valuation (answer i).values s)
  := by
  have hunit : Real.exp (-1 * 1) ∈ Set.Icc 0 1 := by
    constructor
    · apply (Real.exp_pos _).le
    · apply Real.exp_le_one_iff.mpr
      norm_num
  exact ⟨hunit, sample.exists_answers_discretised Ctmdp.built_sample Ctmdp.stochastic_sample
    Ctmdp.exitRates_sample rfl hunit .max Until.within_arrival⟩

end Reachability
