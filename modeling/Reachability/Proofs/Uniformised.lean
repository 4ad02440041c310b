import Mathlib
import Reachability.Proofs.Bounded
import Reachability.Proofs.Rates
import Reachability.Proofs.Weights

/-!
# What uniformisation computes

The vector of a uniformised run is the weighted sum of the values of the numbers of steps between
the truncation points, each with the weight of as many jumps (`Arena.valuation_mixRounds`).

If all exit rates of the model equal `q`, then this is the answer of a checker, and with exact
weights (`Ctmdp.exists_sum_close`) it differs from the expected value at the number of jumps in the
time by no more than the accuracy of the weights (`Checker.exists_timedReach_uniformised`).
-/

namespace Reachability

/-! ### Weighted sums of vectors -/

section Arithmetic

variable {V W : Type} [Arithmetic V]

/-- Vectors of the same length are equal if they have the same entries. -/
theorem eq_of_valuation_eq {v w : Array V} (hsize : v.size = w.size)
    (h : ∀ s < v.size, valuation v s = valuation w s) :
  v = w
  := by
  apply Array.ext hsize
  intro s hv hw
  have hs := h s hv
  rw [valuation, valuation, Array.getElem?_eq_getElem hv, Array.getElem?_eq_getElem hw] at hs
  apply hs

/-- Adding a weighted vector adds each entry with the weight. -/
theorem valuation_addWeighted {sum v : Array V} {s : Nat} (hsum : s < sum.size) (hv : s < v.size)
    (weight : V) :
  valuation (addWeighted sum v weight) s = valuation sum s + weight * valuation v s
  := by
  rw [valuation, valuation, valuation, addWeighted, Array.getElem?_zipWith,
    Array.getElem?_eq_getElem hsum, Array.getElem?_eq_getElem hv]
  rfl

/-- Adding a weighted vector of the same length changes no length. -/
theorem size_addWeighted {sum v : Array V} (h : sum.size = v.size) (weight : V) :
  (addWeighted sum v weight).size = sum.size
  := by
  rw [addWeighted, Array.size_zipWith, h, Nat.min_self]

/-- A run that starts without a vector starts from the indicator of the target. -/
theorem startVector_none (target unknown : StateSet) (numStates : Nat) :
  (startVector numStates target unknown none : Array V) = target.indicator numStates
  := by
  rw [startVector, StateSet.indicator]
  simp only [ite_self]

/-! ### Rounds of a mixture -/

namespace Arena

variable (a : Arena V) (settings : Settings W) (u : Until) (o : Objective)
  (weights : PoissonWeights V)

/-- The mixture after `k` rounds. -/
def mixAfter (k : Nat) : Mixture V :=
  let start : Array V := u.target.indicator a.numStates
  let zero : Array V := Array.replicate a.numStates 0
  ((List.range k).map (· + 1)).foldl
    (a.mixRound settings.parallel o
      (u.unknown a.numStates u.target (a.settledStates settings u o)) weights)
    ⟨⟨start, start, noChoices a.numStates settings.exportStrategy⟩,
      if weights.left = 0 then addWeighted zero start (weights.weight 0) else zero⟩

/-- A further round is made last. -/
theorem mixAfter_succ (k : Nat) :
  a.mixAfter settings u o weights (k + 1)
    = a.mixRound settings.parallel o
      (u.unknown a.numStates u.target (a.settledStates settings u o)) weights
      (a.mixAfter settings u o weights k) (k + 1)
  := by
  rw [mixAfter, List.range_succ, List.map_append, List.foldl_append]
  rfl

/-- The sum of a mixture gains the vector of each further round, from the left truncation point
on. -/
theorem sum_mixAfter_succ (k : Nat) :
  (a.mixAfter settings u o weights (k + 1)).sum
    = if weights.left ≤ k + 1 then
        addWeighted (a.mixAfter settings u o weights k).sum
          (a.mixAfter settings u o weights (k + 1)).progress.current (weights.weight (k + 1))
      else (a.mixAfter settings u o weights k).sum
  := by
  rw [mixAfter_succ]
  rfl

/-- A uniformised run makes as many rounds as the right truncation point says. -/
theorem mixRounds_eq :
  a.mixRounds settings u o weights = a.mixAfter settings u o weights weights.right
  := rfl

/-- The rounds of a mixture are those of a run. -/
theorem progress_mixAfter (k : Nat) (trace : Array (Option V)) :
  (a.mixAfter settings u o weights k).progress
    = (Nat.repeat (a.trackedRound settings.parallel o
        (u.unknown a.numStates u.target (a.settledStates settings u o))) k
      ⟨(a.mixAfter settings u o weights 0).progress, trace⟩).progress
  := by
  induction k with
  | zero => rfl
  | succ k ih =>
      rw [mixAfter_succ, mixRound, ih]
      rfl

/-- After `k` rounds the current vector of a mixture is that of a run of `k` rounds. -/
theorem current_mixAfter (k : Nat) :
  (a.mixAfter settings u o weights k).progress.current
    = (a.runRounds settings u o k none).solution.values
  := by
  rw [progress_mixAfter a settings u o weights k
    #[(u.target.indicator a.numStates)[a.mdp.initialState]?]]
  simp only [runRounds, startVector_none, Option.isNone_none, if_true]
  rfl

end Arena

end Arithmetic

/-- After `k` rounds a mixture holds the values of at most `k` steps, each with its weight. -/
theorem Arena.valuation_mixAfter {W : Type} {a : Arena ℝ} {u : Until} {o : Objective}
    (ha : a.mdp.Proper) (settings : Settings W) (weights : PoissonWeights ℝ) (k : Nat) :
  (a.mixAfter settings u o weights k).sum.size = a.numStates
    ∧ ∀ s < a.numStates, valuation (a.mixAfter settings u o weights k).sum s
        = ∑ i ∈ Finset.range (k + 1) with weights.left ≤ i,
          weights.weight i * a.stepValue u o i s
  := by
  simp only [Finset.sum_filter]
  induction k with
  | zero =>
      have hzero : ∀ s, valuation (Array.replicate a.numStates (0 : ℝ)) s = 0 := by
        intro s
        rw [valuation, Array.getElem?_replicate]
        split <;> rfl
      simp only [Nat.zero_add, Finset.sum_range_one, Nat.le_zero]
      change (if weights.left = 0 then _ else _ : Array ℝ).size = _ ∧ ∀ s < _,
        valuation (if weights.left = 0 then _ else _ : Array ℝ) s = _
      split
      · constructor
        · rw [size_addWeighted, Array.size_replicate]
          simp
        · intro s hs
          rw [valuation_addWeighted, hzero, zero_add, valuation_indicator _ hs, stepValue_zero]
          · simpa using hs
          · simpa using hs
      · constructor
        · apply Array.size_replicate
        · intro s _
          apply hzero
  | succ k ih =>
      obtain ⟨hsize, hvalues⟩ := ih
      obtain ⟨hsize', hvalues'⟩ := a.values_runRounds_real (u := u) (o := o) ha settings (k + 1)
      rw [← current_mixAfter a settings u o weights (k + 1)] at hsize' hvalues'
      rw [sum_mixAfter_succ]
      simp only [Finset.sum_range_succ _ (k + 1)]
      split
      · constructor
        · rw [size_addWeighted (hsize.trans hsize'.symm), hsize]
        · intro s hs
          rw [valuation_addWeighted (hsize ▸ hs) (hsize' ▸ hs), hvalues s hs, hvalues' s hs]
      · simp only [add_zero]
        exact ⟨hsize, hvalues⟩

/-- A uniformised run holds the values of the numbers of steps from the left to the right truncation
point, each with its weight, and its last vector those of the right truncation point. -/
theorem Arena.valuation_mixRounds {W : Type} {a : Arena ℝ} {u : Until} {o : Objective}
    (ha : a.mdp.Proper) (settings : Settings W) (weights : PoissonWeights ℝ) :
  (a.mixRounds settings u o weights).sum.size = a.numStates
    ∧ (∀ s < a.numStates, valuation (a.mixRounds settings u o weights).sum s
      = ∑ i ∈ Finset.Icc weights.left weights.right, weights.weight i * a.stepValue u o i s)
    ∧ (a.mixRounds settings u o weights).progress.current
      = (a.runRounds settings u o weights.right none).solution.values
  := by
  obtain ⟨hsize, hvalues⟩ := valuation_mixAfter (u := u) (o := o) ha settings weights weights.right
  have hrange : Finset.Icc weights.left weights.right
      = {i ∈ Finset.range (weights.right + 1) | weights.left ≤ i} := by
    ext i
    rw [Finset.mem_Icc, Finset.mem_filter, Finset.mem_range, Nat.lt_succ_iff, and_comm]
  rw [hrange, mixRounds_eq]
  exact ⟨hsize, hvalues, current_mixAfter a settings u o weights weights.right⟩

/-! ### The answer by uniformisation -/

/-- The Poisson weights of a model are normalised ones that can be computed. -/
theorem Ctmdp.exists_of_poissonWeights {m : Ctmdp ℝ} {settings : Settings ℝ} {t : ℝ}
    {weights : PoissonWeights ℝ}
    (h : (m.poissonWeights settings t : Except (CheckError ℝ ℝ) _) = .ok weights) :
  ∃ w, (PoissonWeights.compute (m.maxExitRate * t) settings.underflow settings.overflow
      settings.poissonAccuracy : Except (CheckError ℝ ℝ) _) = .ok w ∧ weights = w.normalize
  := by
  rw [poissonWeights] at h
  change (PoissonWeights.compute (m.maxExitRate * t) settings.underflow settings.overflow
    settings.poissonAccuracy).map _ = _ at h
  cases hcompute : (PoissonWeights.compute (m.maxExitRate * t) settings.underflow
      settings.overflow settings.poissonAccuracy : Except (CheckError ℝ ℝ) _) with
  | error e =>
      rw [hcompute] at h
      cases h
  | ok w =>
      rw [hcompute] at h
      cases h
      exact ⟨w, rfl, rfl⟩

/-- If weights can be computed for a model whose exit rates are all equal to a positive one, then
that is its largest exit rate. -/
theorem Ctmdp.maxExitRate_of_poissonWeights {m : Ctmdp ℝ} {settings : Settings ℝ} {q t : ℝ}
    (hq : 0 < q) (hrates : ∀ rate ∈ m.exitRates, rate = q) {weights : PoissonWeights ℝ}
    (h : (m.poissonWeights settings t : Except (CheckError ℝ ℝ) _) = .ok weights) :
  m.maxExitRate = q
  := by
  apply maxExitRate_eq hq hrates
  intro hnone
  obtain ⟨w, hcompute, -⟩ := exists_of_poissonWeights h
  have hpos := (PoissonWeights.pos_of_compute_eq_ok hcompute).1
  rw [maxExitRate_eq_zero hnone, zero_mul] at hpos
  apply lt_irrefl 0 hpos

/-- Without an underflow threshold and for fewer than 400 expected jumps, the weighted sum of values
between zero and one, one for each number of jumps, differs from their expected value at the number
of jumps by no more than the accuracy of the weights. -/
theorem Ctmdp.exists_sum_close {m : Ctmdp ℝ} {settings : Settings ℝ} {t : ℝ}
    (hfew : m.maxExitRate * t < 400) (hunderflow : settings.underflow = 0)
    {weights : PoissonWeights ℝ}
    (hweights : (m.poissonWeights settings t : Except (CheckError ℝ ℝ) _) = .ok weights)
    {f : Nat → ℝ} (hf : ∀ i, f i ∈ Set.Icc 0 1) :
  ∃ x, HasSum (fun i : Nat => Real.exp (-(m.maxExitRate * t)) * (m.maxExitRate * t) ^ i
      / i.factorial * f i) x
    ∧ |∑ i ∈ Finset.Icc weights.left weights.right, weights.weight i * f i - x|
      ≤ settings.poissonAccuracy
  := by
  obtain ⟨w, hcompute, rfl⟩ := exists_of_poissonWeights hweights
  rw [hunderflow] at hcompute
  obtain ⟨hpos, haccuracy⟩ := PoissonWeights.pos_of_compute_eq_ok hcompute
  obtain ⟨r, hupTo, hcovered⟩ :=
    PoissonWeights.exists_compute_eq settings.overflow hpos hfew haccuracy
  rw [hupTo] at hcompute
  cases hcompute
  refine ⟨_, hasSum_jumpMean hpos.le hf, ?_⟩
  rw [PoissonWeights.right_normalize, PoissonWeights.right_upTo]
  apply le_trans (PoissonWeights.abs_sum_sub_jumpMean_le hpos hf r)
  linarith

/-- If the state sets are within a model whose largest exit rate is positive, then uniformisation
answers with the sum of its rounds. -/
theorem Ctmdp.outcome_uniformisedReach {m : Ctmdp ℝ} {settings : Settings ℝ} {u : Until}
    {o : Objective} {t : ℝ} (hu : u.Within m.mdp.numStates) (hpos : 0 < m.maxExitRate)
    {weights : PoissonWeights ℝ}
    (hweights : (m.poissonWeights settings t : Except (CheckError ℝ ℝ) _) = .ok weights) :
  let mixture := m.arena.mixRounds settings (u.resized m.mdp.numStates) o weights
  (m.uniformisedReach settings u t o : Account ℝ ℝ (Solution ℝ)).outcome = .ok
    { values := mixture.sum
      previous := some mixture.progress.current
      iterations := weights.right
      strategy := keptStrategy mixture.progress.strategy settings.exportStrategy }
  := by
  have hne : (m.maxExitRate == 0) = false := decide_eq_false hpos.ne'
  simp only [uniformisedReach, Until.restrict_eq_ok_iff.mpr ⟨hu, rfl⟩, hne, hweights]
  rfl

/-- If all exit rates of a model equal `q`, then uniformisation answers with the sum of the answers
within numbers of steps, each times the weight of as many jumps.  Without an underflow threshold and
for fewer than 400 expected jumps, this differs from the expected value at the number of jumps by no
more than the accuracy of the weights. -/
theorem Checker.exists_timedReach_uniformised (checker : Checker ℝ) {m : Ctmdp ℝ} (hm : m.Built)
    (hsum : m.mdp.Stochastic) {q : ℝ} (hq : 0 < q) (hrates : ∀ rate ∈ m.exitRates, rate = q)
    {u : Until} {o : Objective} (hu : u.Within m.mdp.numStates) {t : ℝ}
    (hmethod : checker.settings.timedMethod = .uniformisation) {weights : PoissonWeights ℝ}
    (hweights : (m.poissonWeights checker.settings t : Except (CheckError ℝ ℝ) _) = .ok weights) :
  ∃ answer solution, checker.Answers m.arena u o answer
    ∧ (checker.timedReach m u t o : Account ℝ ℝ (Solution ℝ)).outcome = .ok solution
    ∧ solution.values.size = m.mdp.numStates
    ∧ solution.iterations = weights.right
    ∧ solution.previous = some (answer weights.right).values
    ∧ (∀ s < m.mdp.numStates, valuation solution.values s
      = ∑ i ∈ Finset.Icc weights.left weights.right,
        weights.weight i * valuation (answer i).values s)
    ∧ (q * t < 400 → checker.settings.underflow = 0 → ∀ s < m.mdp.numStates,
      ∃ x, HasSum (fun i : Nat => Real.exp (-(q * t)) * (q * t) ^ i / i.factorial
          * valuation (answer i).values s) x
        ∧ |valuation solution.values s - x| ≤ checker.settings.poissonAccuracy)
  := by
  have ha : m.arena.mdp.Proper := hm.model.proper_arena
  obtain ⟨answer, hanswers, hvalues⟩ := checker.exists_answers (a := m.arena) (o := o) ha hu
  have hmax := Ctmdp.maxExitRate_of_poissonWeights hq hrates hweights
  obtain ⟨hsize, hmixture, hcurrent⟩ := Arena.valuation_mixRounds
    (u := u.resized m.mdp.numStates) (o := o) ha checker.settings weights
  obtain ⟨hsize', hlast⟩ := m.arena.values_runRounds_real (u := u.resized m.mdp.numStates) (o := o)
    ha checker.settings weights.right
  have hsame : m.arena.stepValue (u.resized m.mdp.numStates) o = m.arena.stepValue u o :=
    m.arena.stepValue_congr o (u.contains_target_resized _) (u.remains_resized _)
  rw [hsame] at hmixture hlast
  have huniformised : (checker.timedReach m u t o : Account ℝ ℝ (Solution ℝ))
      = m.uniformisedReach checker.settings u t o := by
    rw [timedReach, Ctmdp.timedReach, hm.checkLocallyUniform_eq_ok hq hrates, hmethod]
  have houtcome := Ctmdp.outcome_uniformisedReach (o := o) hu (hmax ▸ hq) hweights
  rw [← huniformised] at houtcome
  have hweighted : ∀ s < m.mdp.numStates,
      valuation (m.arena.mixRounds checker.settings (u.resized m.mdp.numStates) o weights).sum s
        = ∑ i ∈ Finset.Icc weights.left weights.right,
          weights.weight i * valuation (answer i).values s := by
    intro s hs
    rw [hmixture s hs]
    apply Finset.sum_congr rfl
    intro i _
    rw [hvalues i s hs]
  refine ⟨answer, _, hanswers, houtcome, hsize, rfl, ?_, hweighted, ?_⟩
  · rw [hcurrent]
    apply congrArg some
    apply eq_of_valuation_eq (hsize'.trans (hanswers weights.right).2.symm)
    intro s hs
    rw [hsize'] at hs
    rw [hlast s hs, hvalues weights.right s hs]
  · intro hfew hunderflow s hs
    have hunit : ∀ i, valuation (answer i).values s ∈ Set.Icc 0 1 := by
      intro i
      rw [hvalues i s hs]
      apply Arena.stepValue_mem_Icc ha hsum
    rw [← hmax] at hfew ⊢
    obtain ⟨x, hx, hclose⟩ := Ctmdp.exists_sum_close hfew hunderflow hweights hunit
    rw [← hweighted s hs] at hclose
    exact ⟨x, hx, hclose⟩

/-! ### A sample query -/

/-- A checker that uniformises without an underflow threshold. -/
noncomputable def Checker.uniformising : Checker ℝ :=
  ⟨{ Settings.default with timedMethod := .uniformisation, underflow := 0 }, .silent⟩

/-- The uniformising checker finds weights for the sample model within one unit of time. -/
theorem Checker.exists_poissonWeights_uniformising :
  ∃ weights, (Ctmdp.sample.poissonWeights uniformising.settings 1
    : Except (CheckError ℝ ℝ) _) = .ok weights
  := by
  have haccuracy : 0 < uniformising.settings.poissonAccuracy := by
    change (0 : ℝ) < (1 : ℕ) / 10 ^ 6 / (8 : ℕ)
    positivity
  have hmax : Ctmdp.sample.maxExitRate = 1 :=
    Ctmdp.maxExitRate_eq one_pos Ctmdp.exitRates_sample (by simp [Ctmdp.sample])
  obtain ⟨r, hcompute, -⟩ := PoissonWeights.exists_compute_eq
    uniformising.settings.overflow one_pos (by norm_num) haccuracy
  use (PoissonWeights.upTo 1 r).normalize
  rw [Ctmdp.poissonWeights, hmax, one_mul]
  change (PoissonWeights.compute (1 : ℝ) 0 uniformising.settings.overflow
    uniformising.settings.poissonAccuracy).map _ = _
  rw [hcompute]
  rfl

/-- The sample model is answered by uniformisation within one unit of time. -/
theorem Checker.exists_timedReach_uniformised_sample :
  ∃ weights, (Ctmdp.sample.poissonWeights uniformising.settings 1
      : Except (CheckError ℝ ℝ) _) = .ok weights
    ∧ ∃ answer solution, uniformising.Answers Ctmdp.sample.arena .arrival .max answer
      ∧ (uniformising.timedReach Ctmdp.sample .arrival 1 .max
        : Account ℝ ℝ (Solution ℝ)).outcome = .ok solution
      ∧ solution.values.size = Ctmdp.sample.mdp.numStates
      ∧ solution.iterations = weights.right
      ∧ solution.previous = some (answer weights.right).values
      ∧ (∀ s < Ctmdp.sample.mdp.numStates, valuation solution.values s
        = ∑ i ∈ Finset.Icc weights.left weights.right,
          weights.weight i * valuation (answer i).values s)
      ∧ ((1 * 1 : ℝ) < 400 → uniformising.settings.underflow = 0 →
        ∀ s < Ctmdp.sample.mdp.numStates,
          ∃ x, HasSum (fun i : Nat => Real.exp (-(1 * 1)) * (1 * 1) ^ i / i.factorial
              * valuation (answer i).values s) x
            ∧ |valuation solution.values s - x| ≤ uniformising.settings.poissonAccuracy)
  := by
  obtain ⟨weights, hweights⟩ := exists_poissonWeights_uniformising
  exact ⟨weights, hweights, uniformising.exists_timedReach_uniformised Ctmdp.built_sample
    Ctmdp.stochastic_sample one_pos Ctmdp.exitRates_sample Until.within_arrival rfl hweights⟩

end Reachability
