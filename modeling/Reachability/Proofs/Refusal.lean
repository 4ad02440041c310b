import Mathlib
import Reachability.Proofs.DiscretisationError

/-!
# Formulas that leave the model

A formula that names a state which the model does not have is refused.  The error tells the least
such state of the target or, if there is none, of the set to remain in (`Until.Leaves`).

All queries refuse such a formula (`Checker.refuses`), but for those whose bound allows no step or
no time.  These are answered by the target alone, so that a set to remain in that leaves the model
goes unnoticed.
-/

namespace Reachability

variable {V W : Type}

/-! ### States outside of the model -/

/-- The least state of a set that a model does not have. -/
def StateSet.FirstOutside (set : StateSet) (numStates s : Nat) : Prop :=
  IsLeast {t | numStates ≤ t ∧ set.contains t = true} s

/-- The state by which a formula is found to leave a model. -/
inductive Until.Leaves (u : Until) (numStates s : Nat) : Prop where
  | target (h : u.target.FirstOutside numStates s)
  | remain (htarget : u.target.Within numStates) {set : StateSet} (hset : set ∈ u.remain)
      (h : set.FirstOutside numStates s)

/-- A set that is not within a model has a least state that the model does not have. -/
theorem StateSet.exists_firstOutside {set : StateSet} {numStates : Nat}
    (h : ¬ set.Within numStates) :
  ∃ s, set.FirstOutside numStates s
  := by
  have hsome : ∃ s, numStates ≤ s ∧ set.contains s = true := by
    by_contra hnone
    apply h
    intro s hs
    by_contra hout
    exact hnone ⟨s, Nat.le_of_not_lt hout, hs⟩
  exact ⟨_, Nat.isLeast_find hsome⟩

/-- A set that is within a model has no such state. -/
theorem StateSet.FirstOutside.not_within {set : StateSet} {numStates s : Nat}
    (h : set.FirstOutside numStates s) :
  ¬ set.Within numStates
  := fun hwithin => Nat.not_lt_of_le h.1.1 (hwithin s h.1.2)

/-- A formula that is not within a model leaves it by some state. -/
theorem Until.exists_leaves {u : Until} {numStates : Nat} (h : ¬ u.Within numStates) :
  ∃ s, u.Leaves numStates s
  := by
  by_cases htarget : u.target.Within numStates
  · obtain ⟨set, hset, hout⟩ : ∃ set ∈ u.remain, ¬ set.Within numStates := by
      by_contra hnone
      apply h ⟨htarget, _⟩
      intro set hset
      by_contra hout
      exact hnone ⟨set, hset, hout⟩
    obtain ⟨s, hs⟩ := StateSet.exists_firstOutside hout
    exact ⟨s, .remain htarget hset hs⟩
  · obtain ⟨s, hs⟩ := StateSet.exists_firstOutside htarget
    exact ⟨s, .target hs⟩

/-! ### The check of the sets -/

/-- The first state that is listed from a number on is the least one in the set. -/
theorem StateSet.FirstOutside.find?_toList {set : StateSet} {numStates s : Nat}
    (h : set.FirstOutside numStates s) :
  (set.toList.find? fun t => decide (numStates ≤ t)) = some s
  := by
  obtain ⟨⟨hout, hs⟩, hleast⟩ := h
  have hcapacity := List.mem_of_mem_filter (mem_toList.mpr hs)
  rw [toList, List.find?_filter]
  apply List.find?_range_eq_some.mpr ⟨_, hcapacity, _⟩
  · simp only [hs, hout, decide_true, and_self]
  · intro t ht
    rw [Bool.not_eq_true', decide_eq_false_iff_not, decide_eq_true_eq]
    rintro ⟨hin, hout⟩
    exact Nat.not_lt_of_le (hleast ⟨hout, hin⟩) ht

/-- The check of a set fails with its least state that the model does not have. -/
theorem StateSet.restrict_eq_error {set : StateSet} {numStates s : Nat}
    (h : set.FirstOutside numStates s) :
  (set.restrict numStates : Except (CheckError V W) StateSet)
    = .error (.stateOutOfRange s numStates)
  := by
  rw [restrict, h.find?_toList]

/-- The check of a formula fails with the state by which it leaves the model. -/
theorem Until.restrict_eq_error {u : Until} {numStates s : Nat} (h : u.Leaves numStates s) :
  (u.restrict numStates : Except (CheckError V W) Until) = .error (.stateOutOfRange s numStates)
  := by
  obtain ⟨remain, target⟩ := u
  rw [restrict]
  cases h with
  | target h =>
      rw [StateSet.restrict_eq_error h]
      rfl
  | remain htarget hset h =>
      obtain rfl := Option.mem_def.mp hset
      rw [StateSet.restrict_eq_ok_iff.mpr ⟨htarget, rfl⟩]
      dsimp only [bind, Except.bind]
      rw [StateSet.restrict_eq_error h]

/-! ### Queries -/

/-- An outcome is an answer under a condition, and otherwise an error. -/
structure AnsweredIf {ε α : Type} (condition : Prop) (outcome : Except ε α) (e : ε) : Prop where
  exists_answer : condition → ∃ a, outcome = .ok a
  error : ¬ condition → outcome = .error e

/-- An outcome is an answer under two conditions if, given the first one, it is so under the second
one, and otherwise it is an error. -/
theorem AnsweredIf.and {ε α : Type} {p q : Prop} {outcome : Except ε α} {e : ε}
    (h : p → AnsweredIf q outcome e) (herror : ¬ p → outcome = .error e) :
  AnsweredIf (p ∧ q) outcome e
  := by
  constructor
  · rintro ⟨hp, hq⟩
    apply (h hp).exists_answer hq
  · intro hnot
    by_cases hp : p
    · apply (h hp).error fun hq => hnot ⟨hp, hq⟩
    · apply herror hp

section Queries

variable [Arithmetic V] {u : Until} {s : Nat}

/-- The answer when no step is allowed checks the target alone. -/
theorem answeredIf_indicatorSolution (settings : Settings W) {numStates : Nat}
    (h : u.Leaves numStates s) :
  AnsweredIf (u.target.Within numStates)
    (indicatorSolution settings u.target numStates : Except (CheckError V W) (Solution V))
    (.stateOutOfRange s numStates)
  := by
  constructor
  · intro hwithin
    rw [indicatorSolution, StateSet.restrict_eq_ok_iff.mpr ⟨hwithin, rfl⟩]
    exact ⟨_, rfl⟩
  · intro hout
    cases h with
    | target h =>
        rw [indicatorSolution, StateSet.restrict_eq_error h]
        rfl
    | remain htarget => exact absurd htarget hout

/-- A bounded run refuses a formula that leaves the model. -/
theorem Arena.boundedRun_eq_error {a : Arena V} (h : u.Leaves a.numStates s)
    (settings : Settings W) (o : Objective) (k : Nat) (init : Option (Array V)) :
  (a.boundedRun settings u o k init : Except (CheckError V W) (BoundedRun V))
    = .error (.stateOutOfRange s a.numStates)
  := by
  rw [boundedRun, Until.restrict_eq_error h]
  rfl

/-- A run without a bound refuses a formula that leaves the model. -/
theorem Arena.unboundedRun_eq_error [Precision V W] {a : Arena V} (h : u.Leaves a.numStates s)
    (settings : Settings W) (o : Objective) :
  (a.unboundedRun settings u o : Account V W (Solution V)).outcome
    = .error (.stateOutOfRange s a.numStates)
  := by
  rw [unboundedRun, Until.restrict_eq_error h]
  rfl

section Timed

variable [Wide W] [Precision V W]

/-- The model is locally uniform, and for discretisation the time can be split into steps, in which
the process can be seen. -/
structure Ctmdp.Usable (m : Ctmdp V) (settings : Settings W) (t : W) : Prop where
  locallyUniform : (m.checkLocallyUniform : Except (CheckError V W) Unit) = .ok ()
  steps : settings.timedMethod = .discretisation →
    ∃ k, (m.steps settings t : Except (CheckError V W) Nat) = .ok k
      ∧ (k ≠ 0 → ∃ mdp, (m.discretise (Precision.narrow (t / Arithmetic.ofNat k))
        : Except (CheckError V W) (Mdp V)) = .ok mdp)

/-- Both methods refuse a formula that leaves the model. -/
theorem Ctmdp.timedReach_eq_error {m : Ctmdp V} (h : u.Leaves m.mdp.numStates s)
    {settings : Settings W} {t : W} (husable : m.Usable settings t) (verbose : Bool)
    (o : Objective) :
  (m.timedReach settings verbose u t o : Account V W (Solution V)).outcome
    = .error (.stateOutOfRange s m.mdp.numStates)
  := by
  rw [timedReach, husable.locallyUniform]
  cases hmethod : settings.timedMethod with
  | discretisation =>
      obtain ⟨k, hsteps, hmdp⟩ := husable.steps hmethod
      dsimp only
      rw [discretisedReach, hsteps]
      dsimp only
      split
      · rw [Account.outcome_map, Arena.outcome_boundedAccount,
          Arena.boundedRun_eq_error (a := m.mdp.arena) h]
        rfl
      · next hk =>
          obtain ⟨mdp, hmdp⟩ := hmdp hk
          obtain ⟨b, -, hstates, -, rfl⟩ := Mdp.exists_draft_of_mapDistributions hmdp
          have hsame : b.process.arena.numStates = m.mdp.numStates := hstates
          rw [← hsame] at h ⊢
          rw [hmdp, Account.outcome_map, Account.outcome_after, Arena.outcome_boundedAccount,
            Arena.boundedRun_eq_error h]
          rfl
  | uniformisation =>
      dsimp only
      rw [uniformisedReach, Until.restrict_eq_error h]
      rfl

end Timed

end Queries

namespace Checker

variable [Arithmetic V] [Wide W] [Precision V W] (checker : Checker W) {u : Until} (o : Objective)

/-- A checker refuses every query with a formula that leaves the model, with the same state, but
for those whose bound allows no step or no time.  Of the formulas of these, it answers the ones
with a target within the model. -/
theorem refuses (m : Model V) (hu : ¬ u.Within m.numStates) :
  ∃ s, u.Leaves m.numStates s
    ∧ (∀ k init, (checker.boundedReach m.arena u k o init
        : Account V W (BoundedRun V)).outcome = .error (.stateOutOfRange s m.numStates))
    ∧ (∀ k, (checker.reachWithin m.arena u k o
        : Account V W (Solution V)).outcome = .error (.stateOutOfRange s m.numStates))
    ∧ (checker.unboundedUntil m.arena u o
        : Account V W (Solution V)).outcome = .error (.stateOutOfRange s m.numStates)
    ∧ (∀ bound k, (bound.steps : Except (CheckError V W) Nat) = .ok k →
        AnsweredIf (k = 0 ∧ u.target.Within m.numStates)
          (checker.boundedUntil m.arena u bound o : Account V W (Solution V)).outcome
          (.stateOutOfRange s m.numStates))
    ∧ ∀ c, m = .ctmdp c →
        (∀ t, c.Usable checker.settings t → (checker.timedReach c u t o
          : Account V W (Solution V)).outcome = .error (.stateOutOfRange s m.numStates))
        ∧ ∀ bound, (bound.validate : Except (CheckError V W) Unit) = .ok () →
          (¬ (bound.bound == 0) = true → c.Usable checker.settings bound.bound) →
          AnsweredIf ((bound.bound == 0) = true ∧ u.target.Within m.numStates)
            (checker.timedUntil c u bound o : Account V W (Solution V)).outcome
            (.stateOutOfRange s m.numStates)
  := by
  obtain ⟨s, hs⟩ := Until.exists_leaves hu
  have hzero := answeredIf_indicatorSolution (V := V) checker.settings hs
  have htimed : ∀ c, m = .ctmdp c → ∀ t, c.Usable checker.settings t →
      (checker.timedReach c u t o : Account V W (Solution V)).outcome
        = .error (.stateOutOfRange s m.numStates) := by
    rintro c rfl t husable
    apply Ctmdp.timedReach_eq_error hs husable
  rw [← m.numStates_arena] at hs hzero htimed ⊢
  have hrun : ∀ k init, (checker.boundedReach m.arena u k o init
      : Account V W (BoundedRun V)).outcome
        = .error (.stateOutOfRange s m.arena.numStates) := by
    intro k init
    rw [boundedReach, Arena.outcome_boundedAccount, Arena.boundedRun_eq_error hs]
  have hwithin : ∀ k, (checker.reachWithin m.arena u k o
      : Account V W (Solution V)).outcome = .error (.stateOutOfRange s m.arena.numStates) := by
    intro k
    rw [reachWithin, Account.outcome_map, hrun]
    rfl
  refine ⟨s, hs, hrun, hwithin, Arena.unboundedRun_eq_error hs _ _, ?_, ?_⟩
  · intro bound k hbound
    rw [boundedUntil, hbound]
    apply AnsweredIf.and
    · rintro rfl
      apply hzero
    · intro hk
      dsimp only
      rw [if_neg hk, hwithin]
  · rintro c rfl
    use htimed c rfl
    intro bound hbound husable
    rw [timedUntil, hbound]
    apply AnsweredIf.and
    · intro htime
      dsimp only
      rw [if_pos htime]
      apply hzero
    · intro htime
      dsimp only
      rw [if_neg htime, htimed c rfl _ (husable htime)]

end Checker

/-! ### A sample formula -/

/-- If all exit rates of an exact model equal `q`, then it can be discretised for any time that is
split into a number of steps that fits a machine word. -/
theorem Ctmdp.Built.usable {m : Ctmdp ℝ} (hm : m.Built) (hsum : m.mdp.Stochastic) {q t : ℝ}
    (hq : 0 < q) (hrates : ∀ rate ∈ m.exitRates, rate = q) {settings : Settings ℝ} (ht : 0 ≤ t)
    (herror : 0 < settings.discretisationError) (hsteps : m.stepCount settings t ≤ indexLimit) :
  m.Usable settings t
  := by
  constructor
  · apply hm.checkLocallyUniform_eq_ok hq hrates
  · intro _
    obtain ⟨k, -, hok, -, -⟩ := exists_steps herror hsteps
    have hunit : Real.exp (-q * (t / k)) ∈ Set.Icc 0 1 :=
      exp_neg_mul_mem_Icc hq.le (div_nonneg ht k.cast_nonneg)
    obtain ⟨mdp, hmdp, -⟩ := exists_discretise (W := ℝ) hm hsum hrates hunit
    exact ⟨k, hok, fun _ => ⟨mdp, hmdp⟩⟩

/-- A formula with a set to remain in that leaves the sample model in continuous time. -/
def Until.stray : Until := ⟨some (.ofList 2 [5]), .ofList 2 [1]⟩

/-- The formula is not within the sample model. -/
theorem Until.not_within_stray :
  ¬ stray.Within (Model.ctmdp Ctmdp.sample).numStates
  := by
  intro h
  have hlt : 5 < 2 := h.remain _ rfl 5 (by simp)
  omega

/-- All queries on the sample model refuse the formula for its state `5`, but for those that allow
no step or no time. -/
theorem Checker.refuses_stray :
  (sample.unboundedUntil Ctmdp.sample.arena .stray .max
      : Account ℝ ℝ (Solution ℝ)).outcome = .error (.stateOutOfRange 5 2)
    ∧ (sample.boundedUntil Ctmdp.sample.arena .stray ⟨1, false⟩ .max
      : Account ℝ ℝ (Solution ℝ)).outcome = .error (.stateOutOfRange 5 2)
    ∧ (sample.timedUntil Ctmdp.sample .stray ⟨1, false⟩ .max
      : Account ℝ ℝ (Solution ℝ)).outcome = .error (.stateOutOfRange 5 2)
    ∧ (∃ solution, (sample.boundedUntil Ctmdp.sample.arena .stray ⟨0, false⟩ .max
      : Account ℝ ℝ (Solution ℝ)).outcome = .ok solution)
    ∧ (∃ solution, (sample.boundedUntil Ctmdp.sample.arena .stray ⟨1, true⟩ .max
      : Account ℝ ℝ (Solution ℝ)).outcome = .ok solution)
    ∧ ∃ solution, (sample.timedUntil Ctmdp.sample .stray ⟨0, false⟩ .max
      : Account ℝ ℝ (Solution ℝ)).outcome = .ok solution
  := by
  have htarget : Until.stray.target.Within (Model.ctmdp Ctmdp.sample).numStates :=
    Until.within_arrival.target
  obtain ⟨s, hs, hrun, hwithin, hunbounded, hsteps, htimed⟩ :=
    sample.refuses .max (.ctmdp Ctmdp.sample) Until.not_within_stray
  obtain rfl : s = 5 := by
    cases hs with
    | target h => exact absurd htarget h.not_within
    | remain _ hset h =>
        obtain ⟨⟩ := hset
        simpa using h.1.2
  obtain ⟨-, hbound⟩ := htimed Ctmdp.sample rfl
  have hzero : ((0 : ℝ) == 0) = true := decide_eq_true rfl
  have hone : ¬ ((1 : ℝ) == 0) = true := fun h => one_ne_zero (of_decide_eq_true h)
  have hvalid : ∀ t : ℝ, 0 ≤ t → ((⟨t, false⟩ : TimeBound ℝ).validate
      : Except (CheckError ℝ ℝ) Unit) = .ok () := by
    intro t ht
    apply if_neg
    rintro (h | h | ⟨-, h⟩)
    · cases h
    · exact absurd h (not_lt_of_ge ht)
    · cases h
  have herror : 0 < sample.settings.discretisationError := by
    change (0 : ℝ) < (1 : Nat) / 10 ^ 3
    positivity
  have husable := Ctmdp.built_sample.usable Ctmdp.stochastic_sample one_pos Ctmdp.exitRates_sample
    zero_le_one herror Ctmdp.stepCount_sample
  refine ⟨hunbounded, ?_, ?_, ?_, ?_, ?_⟩
  · apply (hsteps ⟨1, false⟩ 1 rfl).error
    rintro ⟨⟨⟩, -⟩
  · apply (hbound ⟨1, false⟩ (hvalid 1 zero_le_one) fun _ => husable).error
    rintro ⟨h, -⟩
    exact hone h
  · apply (hsteps ⟨0, false⟩ 0 rfl).exists_answer ⟨rfl, htarget⟩
  · apply (hsteps ⟨1, true⟩ 0 rfl).exists_answer ⟨rfl, htarget⟩
  · apply (hbound ⟨0, false⟩ (hvalid 0 le_rfl) fun h => absurd hzero h).exists_answer
      ⟨hzero, htarget⟩

end Reachability
