import Mathlib
import Reachability.Checker
import Reachability.Proofs.Sweep
import Reachability.Proofs.Zero

/-!
# What bounded runs compute

The vector of a bounded run holds the values of its number of steps, provided that the states
which it leaves out have the value zero in any case (`Arena.values_runRounds`).  For exact values
that is so (`Arena.values_runRounds_real`), and the checker answers bounded queries with these
values (`Checker.exists_answers`, `Checker.exists_boundedUntil`).
-/

namespace Reachability

section Arithmetic

variable {V W : Type} [Arithmetic V] {a : Arena V} {u : Until} {o : Objective}

/-- The progress of rounds over a set agrees with steps of the values, if the set has only
states that remain and are not in the target, and the steps leave the values of other states
as they are. -/
theorem Arena.valuation_trackedRounds (ha : a.mdp.Proper) (parallel : Bool) {set : StateSet}
    (hset : ∀ s, set.contains s = true → u.target.contains s = false ∧ u.remains s = true)
    {v : Nat → V}
    (hfixed : ∀ s < a.numStates, set.contains s = false → ∀ k, (a.advance u o)^[k] v s = v s)
    {start : Tracked V} (hsize : start.progress.current.size = a.numStates)
    (hstart : ∀ s < a.numStates, valuation start.progress.current s = v s) (k : Nat) :
  (Nat.repeat (a.trackedRound parallel o set) k start).progress.current.size = a.numStates
    ∧ ∀ s < a.numStates,
      valuation (Nat.repeat (a.trackedRound parallel o set) k start).progress.current s
        = (a.advance u o)^[k] v s
  := by
  induction k with
  | zero => exact ⟨hsize, hstart⟩
  | succ k ih =>
      obtain ⟨ihsize, ihvalues⟩ := ih
      rw [Nat.repeat]
      constructor
      · rw [trackedRound, size_round, ihsize]
      · intro s hs
        rw [trackedRound, a.valuation_round o parallel set _ s hs ihsize]
        cases hin : set.contains s with
        | true =>
            obtain ⟨htarget, hremains⟩ := hset s hin
            rw [if_pos rfl, update_congr ha ihvalues, Function.iterate_succ_apply',
              advance_remains _ _ _ htarget hremains]
        | false =>
            rw [if_neg Bool.false_ne_true, ihvalues s hs, hfixed s hs hin k,
              hfixed s hs hin (k + 1)]

/-- A state that remains and is not decided is unknown unless it is left out. -/
theorem exists_mem_of_known {numStates s : Nat} {decided : StateSet} {no : Option StateSet}
    (hs : s < numStates) (hdecided : decided.contains s = false) (hremains : u.remains s = true)
    (hknown : (u.unknown numStates decided no).contains s = false) :
  ∃ set ∈ no, set.contains s = true
  := by
  by_contra hnone
  apply Bool.eq_false_iff.mp hknown
  apply Until.contains_unknown.mpr ⟨hs, hremains, hdecided, _⟩
  intro set hset
  apply Bool.eq_false_iff.mpr
  intro hin
  apply hnone ⟨set, hset, hin⟩

/-- The entries of the starting vector. -/
theorem valuation_startVector {numStates : Nat} (target unknown : StateSet)
    (init : Option (Array V)) {s : Nat} (hs : s < numStates) :
  valuation (startVector numStates target unknown init) s
    = if target.contains s then 1
      else if unknown.contains s then init.elim 0 fun v => valuation v s else 0
  := by
  rw [valuation, startVector]
  cases init <;> simp [hs]

/-- The starting vector holds the values before the first step, if those states that are left
out have the value zero. -/
theorem valuation_startVector_unknown {numStates : Nat} {no : Option StateSet}
    {init : Option (Array V)}
    (hno : ∀ set ∈ no, ∀ s < numStates, set.contains s = true →
      u.target.contains s = false ∧ u.start init s = 0)
    {s : Nat} (hs : s < numStates) :
  valuation (startVector numStates u.target (u.unknown numStates u.target no) init) s
    = u.start init s
  := by
  rw [valuation_startVector _ _ _ hs]
  cases htarget : u.target.contains s with
  | true => rw [if_pos rfl, Until.start_target htarget]
  | false =>
      rw [if_neg Bool.false_ne_true]
      cases hunknown : (u.unknown numStates u.target no).contains s with
      | true =>
          have hremains := (Until.contains_unknown.mp hunknown).2.1
          rw [if_pos rfl, Until.start_remains htarget hremains]
      | false =>
          rw [if_neg Bool.false_ne_true]
          cases hremains : u.remains s with
          | false => rw [Until.start_outside htarget hremains]
          | true =>
              obtain ⟨set, hset, hin⟩ := exists_mem_of_known hs htarget hremains hunknown
              apply (hno set hset s hs hin).2.symm

/-- The states that are left out have value zero, whatever the number of steps. -/
def Arena.LeftOut (a : Arena V) (u : Until) (o : Objective) (init : Option (Array V))
    (no : Option StateSet) : Prop :=
  ∀ set ∈ no, ∀ s < a.numStates, set.contains s = true →
    u.target.contains s = false ∧ ∀ k, (a.advance u o)^[k] (u.start init) s = 0

/-- No step changes the value of a state that is known. -/
theorem Arena.LeftOut.iterate_advance {init : Option (Array V)} {no : Option StateSet}
    (hno : a.LeftOut u o init no) {s : Nat} (hs : s < a.numStates)
    (hknown : (u.unknown a.numStates u.target no).contains s = false) (k : Nat) :
  (a.advance u o)^[k] (u.start init) s = u.start init s
  := by
  cases k with
  | zero => rfl
  | succ k =>
      cases htarget : u.target.contains s with
      | true =>
          rw [Function.iterate_succ_apply', advance_target _ _ _ htarget,
            Until.start_target htarget]
      | false =>
          cases hremains : u.remains s with
          | false =>
              rw [Function.iterate_succ_apply', advance_outside _ _ _ htarget hremains,
                Until.start_outside htarget hremains]
          | true =>
              obtain ⟨set, hleft, hin⟩ := exists_mem_of_known hs htarget hremains hknown
              have hzero := (hno set hleft s hs hin).2
              rw [hzero (k + 1)]
              apply (hzero 0).symm

/-- The values of a run are those of its steps, if the states that it leaves out have value zero
after any number of steps. -/
theorem Arena.values_runRounds (ha : a.mdp.Proper) (settings : Settings W)
    {init : Option (Array V)}
    (hno : init = none → a.LeftOut u o init (a.settledStates settings u o)) (k : Nat) :
  (a.runRounds settings u o k init).solution.values.size = a.numStates
    ∧ ∀ s < a.numStates, valuation (a.runRounds settings u o k init).solution.values s
        = (a.advance u o)^[k] (u.start init) s
  := by
  have hno' : a.LeftOut u o init
      (if init.isNone then a.settledStates settings u o else none) := by
    cases init with
    | none => apply hno rfl
    | some v =>
        intro set hset
        cases hset
  unfold runRounds
  generalize (if init.isNone then a.settledStates settings u o else none) = no at hno' ⊢
  have hset : ∀ s, (u.unknown a.numStates u.target no).contains s = true →
      u.target.contains s = false ∧ u.remains s = true := by
    intro s hs
    obtain ⟨-, hremains, htarget, -⟩ := Until.contains_unknown.mp hs
    exact ⟨htarget, hremains⟩
  apply valuation_trackedRounds ha settings.parallel hset fun s hs hknown =>
    hno'.iterate_advance hs hknown
  · apply size_startVector
  · intro s hs
    apply valuation_startVector_unknown _ hs
    intro set hleft t ht hin
    obtain ⟨htarget, hzero⟩ := hno' set hleft t ht hin
    exact ⟨htarget, hzero 0⟩

omit [Arithmetic V] in
/-- The bounds that allow `k` steps are `<= k` and `< k + 1`. -/
theorem StepBound.steps_eq_ok_iff {bound : StepBound} {k : Nat} :
  (bound.steps : Except (CheckError V W) Nat) = .ok k
    ↔ bound = ⟨k, false⟩ ∨ bound = ⟨k + 1, true⟩
  := by
  obtain ⟨bound, strict⟩ := bound
  rw [steps, validate]
  cases strict with
  | false =>
      split
      · next h =>
          constructor
          · rintro ⟨⟩
          · rintro (⟨⟨⟩⟩ | ⟨⟨⟩⟩)
            simp at h
            omega
      · next h =>
          simp only [not_or, not_and, Bool.false_eq_true, not_false_eq_true, implies_true,
            and_true] at h
          constructor
          · rintro ⟨⟩
            simp only [Bool.false_eq_true, if_false, mk.injEq, and_true, and_false, or_false]
            omega
          · rintro (⟨⟨⟩⟩ | ⟨⟨⟩⟩)
            rfl
  | true =>
      split
      · next h =>
          constructor
          · rintro ⟨⟩
          · rintro (⟨⟨⟩⟩ | ⟨⟨⟩⟩)
            simp only [and_true] at h
            omega
      · next h =>
          simp only [and_true, not_or] at h
          constructor
          · rintro ⟨⟩
            simp only [if_true, mk.injEq, and_true, and_false, false_or, Bool.true_eq_false]
            omega
          · rintro (⟨⟨⟩⟩ | ⟨⟨⟩⟩)
            simp [bind, Except.bind, pure, Except.pure]

/-- A starting vector with a value for every state is accepted. -/
theorem checkInit_eq_ok {V W : Type} {numStates : Nat} {init : Option (Array V)}
    (hinit : ∀ v ∈ init, v.size = numStates) :
  (checkInit numStates init : Except (CheckError V W) Unit) = .ok ()
  := by
  cases init with
  | none => rfl
  | some v => exact if_pos (hinit v rfl)

/-- A formula within the model can be answered for any number of rounds, from any starting vector
of the right length. -/
theorem Arena.boundedRun_eq_ok (settings : Settings W) (hu : u.Within a.numStates) (k : Nat)
    (init : Option (Array V)) (hinit : ∀ v ∈ init, v.size = a.numStates) :
  (a.boundedRun settings u o k init : Except (CheckError V W) (BoundedRun V))
    = .ok (a.runRounds settings (u.resized a.numStates) o k init)
  := by
  rw [boundedRun, Until.restrict_eq_ok_iff.mpr ⟨hu, rfl⟩]
  dsimp only [bind, Except.bind]
  rw [checkInit_eq_ok hinit]
  rfl

/-- The outcome in the account of a run is that of the run. -/
@[simp]
theorem Arena.outcome_boundedAccount (settings : Settings W) (verbose : Bool) (u : Until)
    (o : Objective) (k : Nat) (init : Option (Array V)) :
  (a.boundedAccount settings verbose u o k init).outcome = a.boundedRun settings u o k init
  := by
  rw [boundedAccount]
  split
  · next h => exact h.symm
  · next h => exact h.symm

/-- A checker makes any number of rounds for a formula within the model, from any starting vector
of the right length. -/
theorem Checker.boundedReach_eq_ok (checker : Checker W) (hu : u.Within a.numStates) (k : Nat)
    (o : Objective) (init : Option (Array V)) (hinit : ∀ v ∈ init, v.size = a.numStates) :
  (checker.boundedReach a u k o init : Account V W (BoundedRun V)).outcome
    = .ok (a.runRounds checker.settings (u.resized a.numStates) o k init)
  := by
  rw [boundedReach, Arena.outcome_boundedAccount, a.boundedRun_eq_ok checker.settings hu k _ hinit]

/-- A checker answers within a number of steps with a run of as many rounds. -/
theorem Checker.reachWithin_eq_ok (checker : Checker W) (hu : u.Within a.numStates) (k : Nat)
    (o : Objective) :
  (checker.reachWithin a u k o : Account V W (Solution V)).outcome
    = .ok (a.runRounds checker.settings (u.resized a.numStates) o k none).solution
  := by
  rw [reachWithin, Account.outcome_map, checker.boundedReach_eq_ok hu k o none (by simp)]
  rfl

/-- The indicator of a set has the value one on the set and zero elsewhere. -/
theorem valuation_indicator (set : StateSet) {numStates s : Nat} (hs : s < numStates) :
  valuation (set.indicator numStates : Array V) s = if set.contains s then 1 else 0
  := by
  rw [valuation, StateSet.indicator]
  simp [hs]

end Arithmetic

/-! ### Runs on exact values -/

variable {W : Type} {a : Arena ℝ} {u : Until} {o : Objective}

/-- The values of a run without a starting vector are those of its number of steps, whether or not
the states with probability zero are left out. -/
theorem Arena.values_runRounds_real (ha : a.mdp.Proper) (settings : Settings W) (k : Nat) :
  (a.runRounds settings u o k none).solution.values.size = a.numStates
    ∧ ∀ s < a.numStates, valuation (a.runRounds settings u o k none).solution.values s
        = a.stepValue u o k s
  := by
  apply values_runRounds ha settings
  intro _ set hset s hs hin
  have hzero : set = a.zeroStates u.remain u.target o := by
    rw [settledStates] at hset
    split at hset
    · cases hset
      rfl
    · cases hset
  rw [hzero, contains_zeroStates ha] at hin
  constructor
  · apply Bool.eq_false_iff.mpr
    intro htarget
    apply one_ne_zero (α := ℝ)
    rw [← stepValue_target 0 htarget, hin.2 0]
  · apply hin.2

namespace Checker

variable (checker : Checker W)

/-- The answers of a checker within any number of steps, each of which has a value for every
state. -/
def Answers {V : Type} [Arithmetic V] (a : Arena V) (u : Until) (o : Objective)
    (answer : Nat → Solution V) : Prop :=
  ∀ k, (checker.reachWithin a u k o : Account V W (Solution V)).outcome = .ok (answer k)
    ∧ (answer k).values.size = a.numStates

/-- A checker answers for a formula within the model, with the values of the number of steps. -/
theorem exists_answers (ha : a.mdp.Proper) (hu : u.Within a.numStates) :
  ∃ answer, checker.Answers a u o answer
    ∧ ∀ k, ∀ s < a.numStates, valuation (answer k).values s = a.stepValue u o k s
  := by
  have hvalues := fun k =>
    a.values_runRounds_real (u := u.resized a.numStates) (o := o) ha checker.settings k
  use fun k => (a.runRounds checker.settings (u.resized a.numStates) o k none).solution
  constructor
  · intro k
    exact ⟨checker.reachWithin_eq_ok hu k o, (hvalues k).1⟩
  · intro k s hs
    have hsame : a.stepValue (u.resized a.numStates) o = a.stepValue u o :=
      a.stepValue_congr o (u.contains_target_resized _) (u.remains_resized _)
    rw [(hvalues k).2 s hs, hsame]

/-- A checker answers a query with a bound on steps, with the values of the number of steps that
the bound allows. -/
theorem exists_boundedUntil (ha : a.mdp.Proper) (hu : u.Within a.numStates) {bound : StepBound}
    {k : Nat} (hbound : bound = ⟨k, false⟩ ∨ bound = ⟨k + 1, true⟩) :
  ∃ answer, (checker.boundedUntil a u bound o : Account ℝ W (Solution ℝ)).outcome = .ok answer
    ∧ answer.values.size = a.numStates
    ∧ ∀ s < a.numStates, valuation answer.values s = a.stepValue u o k s
  := by
  have hsteps := StepBound.steps_eq_ok_iff (V := ℝ) (W := W).mpr hbound
  rw [boundedUntil, hsteps]
  obtain rfl | hk := Nat.eq_zero_or_pos k
  · simp only [if_true, Account.outcome_silent, indicatorSolution,
      StateSet.restrict_eq_ok_iff.mpr ⟨hu.target, rfl⟩]
    refine ⟨_, rfl, StateSet.size_indicator _ _, ?_⟩
    intro s hs
    rw [valuation_indicator _ hs, Arena.stepValue_zero]
    change (if (u.resized a.numStates).target.contains s then (1 : ℝ) else 0) = _
    rw [Until.contains_target_resized]
  · obtain ⟨answer, hanswers, hvalues⟩ := checker.exists_answers (o := o) ha hu
    simp only [if_neg (Nat.ne_of_gt hk)]
    refine ⟨answer k, (hanswers k).1, (hanswers k).2, hvalues k⟩

end Checker

/-! ### A sample query -/

/-- In the sample game, state `3` is to be reached from the states `0` and `1`. -/
def Until.sample : Until := ⟨some (.ofList 4 [0, 1]), .ofList 4 [3]⟩

/-- The sample formula is within the sample game. -/
theorem Until.within_sample :
  sample.Within Model.sample.numStates
  := by
  constructor
  · apply StateSet.within_ofList
    decide
  · rintro set ⟨⟩
    apply StateSet.within_ofList
    decide

/-- The first player maximises and the second one minimises. -/
def Objective.opposed : Objective := ⟨.max, .min⟩

/-- A checker on exact values with the settings where nothing is set. -/
noncomputable def Checker.sample : Checker ℝ := ⟨.default, .silent⟩

/-! ### Zero states -/

/-- The zero states of a model are those whose value is zero in the answers of a checker within
any number of steps, and those whose value is zero in the answer within as many steps as the
model has states. -/
theorem Checker.contains_zeroStates_iff_answers (checker : Checker W) {m : Model ℝ}
    (hm : m.Built) (hu : u.Within m.numStates) :
  ∃ answer, checker.Answers m.arena u o answer
    ∧ ∀ s < m.numStates,
      ((m.arena.zeroStates u.remain u.target o).contains s = true
        ↔ ∀ k, valuation (answer k).values s = 0)
      ∧ ((m.arena.zeroStates u.remain u.target o).contains s = true
        ↔ valuation (answer m.numStates).values s = 0)
  := by
  have ha := hm.proper_arena
  rw [← m.numStates_arena] at hu ⊢
  obtain ⟨answer, hanswers, hvalues⟩ := checker.exists_answers (o := o) ha hu
  refine ⟨answer, hanswers, ?_⟩
  intro s hs
  constructor
  · rw [Arena.contains_zeroStates ha, and_iff_right hs]
    apply forall_congr'
    intro k
    rw [hvalues k s hs]
  · rw [Arena.contains_zeroStates_iff_numStates ha, and_iff_right hs, hvalues _ s hs]

/-- For the sample query, the zero states are those with value zero in all answers. -/
theorem Checker.contains_zeroStates_iff_answers_sample :
  ∃ answer, sample.Answers Model.sample.arena .sample .opposed answer
    ∧ ∀ s < Model.sample.numStates,
      ((Model.sample.arena.zeroStates Until.sample.remain Until.sample.target .opposed).contains s
          = true
        ↔ ∀ k, valuation (answer k).values s = 0)
      ∧ ((Model.sample.arena.zeroStates Until.sample.remain Until.sample.target .opposed).contains s
          = true
        ↔ valuation (answer Model.sample.numStates).values s = 0)
  := sample.contains_zeroStates_iff_answers Model.built_sample Until.within_sample

end Reachability
