import Mathlib
import Reachability.Proofs.Discretised

/-!
# The error of discretisation

A time is split into so many steps that the square of the expected number of jumps is at most their
number times twice the allowed error (`Ctmdp.exists_steps`).  The steps count at most one jump each,
and the values of a number of jumps rise with that number, so that no more than the allowed error is
missed of their expected value (`Checker.exists_timedReach_discretised`).
-/

namespace Reachability

/-! ### Counting steps -/

namespace Ctmdp

variable {m : Ctmdp ℝ} {settings : Settings ℝ} {t : ℝ}

/-- A number of steps that fits a machine word is taken as it is. -/
theorem steps_eq_ok {k : Nat} (hcount : m.stepCount settings t = k)
    (hk : k ≤ indexLimit) :
  (m.steps settings t : Except (CheckError ℝ ℝ) Nat) = .ok k
  := by
  have hfits : ¬ (Arithmetic.isFinite (k : ℝ) = false ∨ (k : ℝ) < 0
      ∨ (Arithmetic.ofNat (indexLimit + 1) : ℝ) < k) := by
    rintro (h | h | h)
    · cases h
    · apply not_le_of_gt h (Nat.cast_nonneg k)
    · apply not_le_of_gt (Nat.cast_lt.mp h)
      apply Nat.le_succ_of_le hk
  have hindex : (Wide.toIndex (k : ℝ)) = k := by
    change min indexLimit ⌊(k : ℝ)⌋₊ = k
    rw [Nat.floor_natCast, Nat.min_eq_right hk]
  rw [steps, hcount, if_neg hfits, hindex]

/-- The number of steps is the least one that is at least the square of the expected number of jumps
divided by twice the allowed error, if it fits a machine word. -/
theorem exists_steps (herror : 0 < settings.discretisationError)
    (hsteps : m.stepCount settings t ≤ indexLimit) :
  ∃ k : Nat, m.stepCount settings t = k
    ∧ (m.steps settings t : Except (CheckError ℝ ℝ) Nat) = .ok k
    ∧ (m.maxExitRate * t) ^ 2 ≤ k * (2 * settings.discretisationError)
    ∧ (k = 0 ↔ m.maxExitRate * t = 0)
  := by
  have hcount : m.stepCount settings t
      = (⌈(m.maxExitRate * t) ^ 2 / (2 * settings.discretisationError)⌉₊ : ℝ) := by
    change ((⌈m.maxExitRate * m.maxExitRate * t * t
      / (((2 : Nat) : ℝ) * settings.discretisationError)⌉ : ℤ) : ℝ) = _
    have hsquare : m.maxExitRate * m.maxExitRate * t * t = (m.maxExitRate * t) ^ 2 := by ring
    rw [hsquare, Nat.cast_ofNat, natCast_ceil_eq_intCast_ceil]
    positivity
  refine ⟨_, hcount, ?_, ?_, ?_⟩
  · apply steps_eq_ok hcount
    rw [hcount] at hsteps
    apply Nat.cast_le.mp hsteps
  · rw [← div_le_iff₀ (by positivity)]
    apply Nat.le_ceil
  · rw [Nat.ceil_eq_zero]
    constructor
    · intro h
      apply pow_eq_zero_iff two_ne_zero |>.mp
      apply le_antisymm _ (sq_nonneg _)
      rw [div_le_iff₀ (by positivity), zero_mul] at h
      apply h
    · intro h
      simp [h]

/-- Discretisation in no step answers as a bounded run of the process of the jumps without a
round. -/
theorem outcome_discretisedReach_zero
    (hsteps : (m.steps settings t : Except (CheckError ℝ ℝ) Nat) = .ok 0) (verbose : Bool)
    (u : Until) (o : Objective) :
  (m.discretisedReach settings verbose u t o : Account ℝ ℝ (Solution ℝ)).outcome
    = ((m.arena.boundedAccount settings verbose u o 0 none).map BoundedRun.solution).outcome
  := by
  rw [discretisedReach, hsteps]
  rfl

/-- Discretisation in several steps answers as a bounded run of the discretised process. -/
theorem outcome_discretisedReach {k : Nat} {mdp : Mdp ℝ}
    (hsteps : (m.steps settings t : Except (CheckError ℝ ℝ) Nat) = .ok k) (hk : k ≠ 0)
    (hmdp : (m.discretise (t / k) : Except (CheckError ℝ ℝ) (Mdp ℝ)) = .ok mdp) (verbose : Bool)
    (u : Until) (o : Objective) :
  (m.discretisedReach settings verbose u t o : Account ℝ ℝ (Solution ℝ)).outcome
    = ((mdp.arena.boundedAccount settings verbose u o k none).map BoundedRun.solution).outcome
  := by
  have hnarrow : (m.discretise (Precision.narrow (t / Arithmetic.ofNat k : ℝ))
      : Except (CheckError ℝ ℝ) (Mdp ℝ)) = .ok mdp := hmdp
  rw [discretisedReach, hsteps]
  simp only [if_neg hk, hnarrow]
  rfl

end Ctmdp

/-- The answer within a number of steps takes as many rounds. -/
theorem Checker.Answers.iterations {W : Type} {checker : Checker W} {a : Arena ℝ} {u : Until}
    {o : Objective} {answer : Nat → Solution ℝ} (h : checker.Answers a u o answer)
    (hu : u.Within a.numStates) (k : Nat) :
  (answer k).iterations = k
  := by
  have hanswer := (h k).1
  rw [checker.reachWithin_eq_ok hu] at hanswer
  rw [← Except.ok.inj hanswer]
  rfl

/-! ### The answer by discretisation -/

/-- The value of a state without choices is the same for any number of steps. -/
theorem Arena.stepValue_eq_zero_steps {a : Arena ℝ} {u : Until} {o : Objective} {s : Nat}
    (hnone : a.mdp.numChoices s = 0) (k : Nat) :
  a.stepValue u o k s = a.stepValue u o 0 s
  := by
  cases htarget : u.target.contains s with
  | true => rw [stepValue_target k htarget, stepValue_target 0 htarget]
  | false => rw [stepValue_eq_zero hnone htarget k, stepValue_eq_zero hnone htarget 0]

section Discretisation

variable (checker : Checker ℝ) {m : Ctmdp ℝ} {q t : ℝ} {u : Until} {o : Objective}

/-- If all exit rates of a model equal `q` and no state has several choices, then discretisation in
`k` steps answers with the expected values at the number of jumps in these steps. -/
theorem Checker.exists_discretisedReach (hm : m.Built) (hsum : m.mdp.Stochastic) (hq : 0 < q)
    (hrates : ∀ rate ∈ m.exitRates, rate = q)
    (hsingle : ∀ s < m.mdp.numStates, m.mdp.numChoices s ≤ 1) (hu : u.Within m.mdp.numStates)
    (ht : 0 < t) {k : Nat}
    (hsteps : (m.steps checker.settings t : Except (CheckError ℝ ℝ) Nat) = .ok k) :
  ∃ solution, (m.discretisedReach checker.settings checker.sink.verbose u t o
      : Account ℝ ℝ (Solution ℝ)).outcome = .ok solution
    ∧ solution.values.size = m.mdp.numStates
    ∧ solution.iterations = k
    ∧ ∀ s < m.mdp.numStates, valuation solution.values s
      = stepMean (Real.exp (-(q * t / k))) k fun i => m.arena.stepValue u o i s
  := by
  have ha : m.arena.mdp.Proper := hm.model.proper_arena
  obtain rfl | hk := eq_or_ne k 0
  · obtain ⟨answer, hanswers, hvalues⟩ := checker.exists_answers (a := m.arena) (o := o) ha hu
    refine ⟨answer 0, ?_, (hanswers 0).2, hanswers.iterations hu 0, ?_⟩
    · rw [Ctmdp.outcome_discretisedReach_zero hsteps]
      apply (hanswers 0).1
    · intro s hs
      rw [stepMean_zero]
      apply hvalues 0 s hs
  · have hunit : Real.exp (-q * (t / k)) ∈ Set.Icc 0 1 :=
      Ctmdp.exp_neg_mul_mem_Icc hq.le (div_nonneg ht.le k.cast_nonneg)
    obtain ⟨mdp, hmdp, hproper, -, hlazy⟩ :=
      Ctmdp.exists_discretise (W := ℝ) hm hsum hrates hunit
    have hu' : u.Within mdp.numStates := hlazy.numStates ▸ hu
    obtain ⟨answer, hanswers, hvalues⟩ :=
      checker.exists_answers (a := mdp.arena) (o := o) hproper hu'
    refine ⟨answer k, ?_, (hanswers k).2.trans hlazy.numStates, hanswers.iterations hu' k, ?_⟩
    · rw [Ctmdp.outcome_discretisedReach hsteps hk hmdp]
      apply (hanswers k).1
    · intro s hs
      have hs' : s < mdp.numStates := hlazy.numStates ▸ hs
      rw [hvalues k s hs', hlazy.stepValue_eq hunit ha hsingle k hs, neg_mul, mul_div_assoc]
      rfl

/-- If all exit rates of a model equal `q` and no state has several choices, then discretisation
answers with values that are not above the expected values at the number of jumps in the time, and
below them by no more than the allowed error. -/
theorem Checker.exists_timedReach_discretised (hm : m.Built) (hsum : m.mdp.Stochastic) (hq : 0 < q)
    (hrates : ∀ rate ∈ m.exitRates, rate = q)
    (hsingle : ∀ s < m.mdp.numStates, m.mdp.numChoices s ≤ 1) (hu : u.Within m.mdp.numStates)
    (ht : 0 < t) (hmethod : checker.settings.timedMethod = .discretisation)
    (herror : 0 < checker.settings.discretisationError)
    (hsteps : m.stepCount checker.settings t ≤ indexLimit) :
  ∃ answer solution, checker.Answers m.arena u o answer
    ∧ (checker.timedReach m u t o : Account ℝ ℝ (Solution ℝ)).outcome = .ok solution
    ∧ solution.values.size = m.mdp.numStates
    ∧ (solution.iterations : ℝ) = m.stepCount checker.settings t
    ∧ ∀ s < m.mdp.numStates,
      ∃ x, HasSum (fun i : Nat => Real.exp (-(q * t)) * (q * t) ^ i / i.factorial
          * valuation (answer i).values s) x
        ∧ x - checker.settings.discretisationError ≤ valuation solution.values s
        ∧ valuation solution.values s ≤ x
  := by
  have ha : m.arena.mdp.Proper := hm.model.proper_arena
  obtain ⟨answer, hanswers, hvalues⟩ := checker.exists_answers (a := m.arena) (o := o) ha hu
  obtain ⟨k, hcount, hok, hsquare, hzero⟩ := Ctmdp.exists_steps herror hsteps
  obtain ⟨solution, houtcome, hsize, hrounds, hsolution⟩ :=
    checker.exists_discretisedReach (o := o) hm hsum hq hrates hsingle hu ht hok
  refine ⟨answer, solution, hanswers, ?_, hsize, ?_, ?_⟩
  · rw [timedReach, Ctmdp.timedReach, hm.checkLocallyUniform_eq_ok hq hrates, hmethod]
    apply houtcome
  · rw [hrounds, hcount]
  · intro s hs
    have hunit : ∀ i, m.arena.stepValue u o i s ∈ Set.Icc 0 1 := fun i =>
      Arena.stepValue_mem_Icc ha hsum i s
    have hjumps := mul_pos hq ht
    refine ⟨jumpMean (q * t) fun i => m.arena.stepValue u o i s, ?_, ?_⟩
    · simp only [fun i => hvalues i s hs]
      apply hasSum_jumpMean hjumps.le hunit
    · rw [hsolution s hs]
      obtain rfl | hk := eq_or_ne k 0
      -- Only a model without choices is answered in no step.
      · have hnone : m.exitRates = #[] := by
          by_contra hsome
          rw [Ctmdp.maxExitRate_eq hq hrates hsome] at hzero
          apply hjumps.ne' (hzero.mp rfl)
        simp only [Arena.stepValue_eq_zero_steps (a := m.arena) (hm.numChoices_eq_zero hnone hs),
          stepMean_const, jumpMean_const, le_refl, and_true, sub_le_self_iff]
        apply herror.le
      · have hsome : m.exitRates ≠ #[] := by
          intro hnone
          apply hk (hzero.mpr _)
          rw [Ctmdp.maxExitRate_eq_zero hnone, zero_mul]
        rw [Ctmdp.maxExitRate_eq hq hrates hsome] at hsquare
        apply stepMean_error hk hjumps.le hsquare hunit (Arena.stepValue_mono ha s)

end Discretisation

/-! ### A sample query -/

/-- One unit of time is split into few enough steps for the sample model. -/
theorem Ctmdp.stepCount_sample :
  sample.stepCount Checker.sample.settings 1 ≤ indexLimit
  := by
  have hmax : sample.maxExitRate = 1 := maxExitRate_eq one_pos exitRates_sample (by simp [sample])
  have hcount : sample.stepCount Checker.sample.settings 1
      = (⌈(1 : ℝ) * 1 * 1 * 1 / ((2 : Nat) * ((1 : Nat) / 10 ^ 3))⌉ : ℝ) := by
    rw [stepCount, hmax]
    rfl
  rw [hcount, indexLimit]
  norm_num

/-- The sample model is answered by discretisation within one unit of time. -/
theorem Checker.exists_timedReach_discretised_sample :
  Ctmdp.sample.stepCount sample.settings 1 ≤ indexLimit
    ∧ ∃ answer solution, sample.Answers Ctmdp.sample.arena .arrival .max answer
      ∧ (sample.timedReach Ctmdp.sample .arrival 1 .max
        : Account ℝ ℝ (Solution ℝ)).outcome = .ok solution
      ∧ solution.values.size = Ctmdp.sample.mdp.numStates
      ∧ (solution.iterations : ℝ) = Ctmdp.sample.stepCount sample.settings 1
      ∧ ∀ s < Ctmdp.sample.mdp.numStates,
        ∃ x, HasSum (fun i : Nat => Real.exp (-(1 * 1)) * (1 * 1) ^ i / i.factorial
            * valuation (answer i).values s) x
          ∧ x - sample.settings.discretisationError ≤ valuation solution.values s
          ∧ valuation solution.values s ≤ x
  := by
  have herror : 0 < sample.settings.discretisationError := by
    change (0 : ℝ) < (1 : Nat) / 10 ^ 3
    positivity
  exact ⟨Ctmdp.stepCount_sample, sample.exists_timedReach_discretised Ctmdp.built_sample
    Ctmdp.stochastic_sample one_pos Ctmdp.exitRates_sample Ctmdp.numChoices_sample
    Until.within_arrival one_pos rfl herror Ctmdp.stepCount_sample⟩

end Reachability
