import Mathlib
import Reachability.Proofs.Binary
import Reachability.Proofs.Replacement
import Reachability.Proofs.SameRuns

/-!
# Precomputation does not change bounded answers

With precomputation, a bounded run leaves out the states with probability zero and keeps them at
zero.  Without it, the run sweeps over them as over any others, and under the laws of signs finds
zero again and again: the values of a run are not negative and vanish on the zero states
(`Arena.Vanishing`), and a state that is one of them has no choice that leads away, or only such
choices, as its owner minimises or maximises.  Hence both runs have the same vectors
(`Arena.runVector_eq_plainVector`), and bounded queries the same answers
(`Checker.numbers_precomputing`).
-/

namespace Reachability

variable {V W : Type} [Arithmetic V]

namespace Arena

/-! ### Values that vanish on the zero states -/

/-- The values at the states of the model are not negative, and zero at those with probability
zero. -/
structure Vanishing (a : Arena V) (u : Until) (o : Objective) (v : Nat → V) : Prop where
  nonneg : ∀ s < a.numStates, Nonneg (v s)
  zero : ∀ s, (a.zeroStates u.remain u.target o).contains s = true → v s = 0

section Vanishing

variable {a : Arena V} {u : Until} {o : Objective} [SignLaws V] (ha : a.mdp.Proper)
  (hmass : a.mdp.CarriesMass) {v : Nat → V} {s : Nat}

include ha hmass

/-- The expected values of choices are not negative. -/
theorem Vanishing.nonneg_expectation (h : a.Vanishing u o v) :
  ∀ c < a.mdp.numChoices s, Nonneg (expectation (a.mdp.successors s c) v)
  := by
  intro c hc
  apply Reachability.nonneg_expectation (hmass s c hc)
  intro e he
  apply h.nonneg e.1 (ha.lt_numStates s c e he)

/-- The update of a state that remains and has probability zero is zero. -/
theorem Vanishing.update_eq_zero (h : a.Vanishing u o v)
    (hzero : (a.zeroStates u.remain u.target o).contains s = true) (hremains : u.remains s = true) :
  (a.update none o v s).1 = 0
  := by
  obtain ⟨hs, -⟩ := (a.contains_zeroStates_iff_positiveStates u o).mp hzero
  obtain ⟨htarget, hnone⟩ := a.of_contains_zeroStates u o hzero
  rw [update_fst]
  obtain hn | hn := Nat.eq_zero_or_pos (a.mdp.numChoices s)
  · rw [hn, Direction.optimum_zero]
  · apply Direction.optimum_eq_zero (h.nonneg_expectation ha hmass)
    intro hquantify
    apply hnone ⟨hs, htarget, hremains, hn⟩
    apply hquantify.mono
    intro c hc hne
    by_contra hhits
    apply hne
    apply expectation_eq_zero (hmass s c hc)
    intro e he
    apply h.zero e.1
    apply (a.contains_zeroStates_iff_positiveStates u o).mpr ⟨ha.lt_numStates s c e he, _⟩
    intro hpositive
    exact hhits ((hits_iff (ha.mass_pos s c)).mpr ⟨e, he, hpositive⟩)

/-- A sweep over states that remain keeps the values vanishing on the zero states. -/
theorem Vanishing.sweep (parallel : Bool) {set : StateSet}
    (hset : ∀ s, set.contains s = true → u.remains s = true) {v : Array V}
    (hsize : v.size = a.numStates) (h : a.Vanishing u o (valuation v)) :
  a.Vanishing u o (valuation (a.sweep parallel o set v))
  := by
  constructor
  · intro s hs
    rw [valuation_sweep _ _ _ _ hsize hs]
    split
    · rw [update_fst]
      apply Direction.nonneg_optimum (h.nonneg_expectation ha hmass)
    · apply h.nonneg s hs
  · intro s hzero
    have hs := ((a.contains_zeroStates_iff_positiveStates u o).mp hzero).1
    rw [valuation_sweep _ _ _ _ hsize hs]
    split
    · next hin => apply h.update_eq_zero ha hmass hzero (hset s hin)
    · apply h.zero s hzero

/-- From values that vanish on the zero states, a sweep that leaves these states out is one that
does not. -/
theorem Vanishing.sweep_eq (parallel : Bool) {v : Array V} (hsize : v.size = a.numStates)
    (h : a.Vanishing u o (valuation v)) :
  a.sweep parallel o
      (u.unknown a.numStates u.target (some (a.zeroStates u.remain u.target o))) v
    = a.sweep parallel o (u.unknown a.numStates u.target none) v
  := by
  apply eq_of_valuation_eq
  · rw [size_sweep, size_sweep]
  · intro s hs
    rw [size_sweep, hsize] at hs
    rw [valuation_sweep _ _ _ _ hsize hs, valuation_sweep _ _ _ _ hsize hs]
    cases hzero : (a.zeroStates u.remain u.target o).contains s with
    | true =>
        have hout : (u.unknown a.numStates u.target
            (some (a.zeroStates u.remain u.target o))).contains s = false := by
          apply Bool.eq_false_iff.mpr
          intro hin
          have hfalse := (Until.contains_unknown.mp hin).2.2.2 _ rfl
          rw [hzero] at hfalse
          cases hfalse
        rw [hout, if_neg Bool.false_ne_true]
        split
        · next hin =>
            rw [h.update_eq_zero ha hmass hzero (Until.contains_unknown.mp hin).2.1,
              h.zero s hzero]
        · rfl
    | false =>
        have hsame : (u.unknown a.numStates u.target
              (some (a.zeroStates u.remain u.target o))).contains s
            = (u.unknown a.numStates u.target none).contains s := by
          rw [Bool.eq_iff_iff, Until.contains_unknown, Until.contains_unknown]
          simp [hzero]
        rw [hsame]

omit ha hmass in
/-- The values that a run without a starting vector starts from vanish on the zero states. -/
theorem vanishing_indicator :
  a.Vanishing u o (valuation (u.target.indicator a.numStates : Array V))
  := by
  constructor
  · intro s hs
    rw [valuation_indicator _ hs]
    split
    · apply SignLaws.nonneg_one
    · apply nonneg_zero
  · intro s hzero
    obtain ⟨hs, -⟩ := (a.contains_zeroStates_iff_positiveStates u o).mp hzero
    rw [valuation_indicator _ hs, (a.of_contains_zeroStates u o hzero).1]
    rfl

/-- The values of a run that sweeps over the zero states vanish on them. -/
theorem vanishing_iterate_sweep (parallel : Bool) (k : Nat) :
  a.Vanishing u o (valuation ((a.sweep parallel o (u.unknown a.numStates u.target none))^[k]
    (u.target.indicator a.numStates)))
  := by
  induction k with
  | zero => apply vanishing_indicator
  | succ k ih =>
      rw [Function.iterate_succ_apply']
      apply ih.sweep ha hmass parallel
      · intro s hs
        apply (Until.contains_unknown.mp hs).2.1
      · rw [size_iterate_sweep, StateSet.size_indicator]

/-- A run that leaves the zero states out has the vectors of one that does not. -/
theorem iterate_sweep_eq (parallel : Bool) (k : Nat) :
  (a.sweep parallel o
      (u.unknown a.numStates u.target (some (a.zeroStates u.remain u.target o))))^[k]
        (u.target.indicator a.numStates)
    = (a.sweep parallel o (u.unknown a.numStates u.target none))^[k]
        (u.target.indicator a.numStates)
  := by
  induction k with
  | zero => rw [Function.iterate_zero_apply, Function.iterate_zero_apply]
  | succ k ih =>
      rw [Function.iterate_succ_apply', Function.iterate_succ_apply', ih]
      apply (vanishing_iterate_sweep ha hmass parallel k).sweep_eq ha hmass
      rw [size_iterate_sweep, StateSet.size_indicator]

end Vanishing

/-! ### Runs -/

section Runs

variable (a : Arena V) (settings : Settings W) (u : Until) (o : Objective)
  (init : Option (Array V))

/-- The vector after `k` rounds in which the states with probability zero are swept over as any
others. -/
def plainVector (parallel : Bool) (k : Nat) : Array V :=
  (a.sweep parallel o (u.unknown a.numStates u.target none))^[k]
    (startVector a.numStates u.target (u.unknown a.numStates u.target none) init)

variable {a settings u o init}

/-- A run that leaves no states out has the plain vectors. -/
theorem runVector_of_swept (h : settings.precomputation = true → init ≠ none) (k : Nat) :
  a.runVector settings u o init k = a.plainVector u o init settings.parallel k
  := by
  rw [runVector, plainVector, a.sweptStates_of_swept h]

/-- Under the laws of signs, a run has the plain vectors even if it leaves out the states with
probability zero. -/
theorem runVector_eq_plainVector [SignLaws V] (ha : a.mdp.Proper) (hmass : a.mdp.CarriesMass)
    (k : Nat) :
  a.runVector settings u o init k = a.plainVector u o init settings.parallel k
  := by
  by_cases h : settings.precomputation = true → init ≠ none
  · apply runVector_of_swept h
  · obtain ⟨hprecomputation, rfl⟩ : settings.precomputation = true ∧ init = none := by
      simpa using h
    have hswept : a.sweptStates settings u o none
        = u.unknown a.numStates u.target (some (a.zeroStates u.remain u.target o)) := by
      rw [sweptStates, settledStates, hprecomputation]
      rfl
    rw [runVector, plainVector, hswept, startVector_none, startVector_none]
    apply iterate_sweep_eq ha hmass

end Runs

end Arena

/-! ### Answers -/

/-- The settings with precomputation on or off, as the flag says. -/
def Settings.precomputing (settings : Settings W) (flag : Bool) : Settings W :=
  { settings with precomputation := flag }

/-- Under the laws of signs, an arena is run alike with precomputation and without. -/
theorem Arena.runsAlike_precomputing [SignLaws V] {a : Arena V} (ha : a.mdp.Proper)
    (hmass : a.mdp.CarriesMass) (o : Objective) (settings : Settings W) (flag flag' : Bool) :
  a.RunsAlike o (settings.precomputing flag) (settings.precomputing flag')
  := by
  intro u init k
  rw [runVector_eq_plainVector ha hmass, runVector_eq_plainVector ha hmass]
  rfl

/-- Under the laws of signs, a model in continuous time is run alike with precomputation and
without. -/
theorem Ctmdp.runsAlike_precomputing [SignLaws V] [Arithmetic W] {m : Ctmdp V} (hm : m.mdp.Proper)
    (hmass : m.mdp.CarriesMass) (o : Objective) (settings : Settings W) (flag flag' : Bool) :
  m.RunsAlike o (settings.precomputing flag) (settings.precomputing flag')
  where
  timedMethod := rfl
  discretisationError := rfl
  underflow := rfl
  overflow := rfl
  poissonAccuracy := rfl
  process := Arena.runsAlike_precomputing hm hmass o settings flag flag'
  discretised := by
    intro tau mdp hmdp
    obtain ⟨b, hvalid, -, -, rfl⟩ := Mdp.exists_draft_of_mapDistributions hmdp
    apply Arena.runsAlike_precomputing
    · apply Mdp.Draft.proper_process hvalid
    · apply Mdp.Draft.carriesMass_process hvalid

namespace Checker

/-- The checker with precomputation on or off, as the flag says. -/
def precomputing (checker : Checker W) (flag : Bool) : Checker W :=
  ⟨checker.settings.precomputing flag, checker.sink⟩

variable [SignLaws V] (checker : Checker W) (u : Until) (o : Objective) [Wide W] [Precision V W]

/-- Under the laws of signs, bounded queries on a model that can be made have the same numbers, or
fail for the same cause, with precomputation and without: runs of any length from any starting
vector, and answers within any bound on steps or on time. -/
theorem numbers_precomputing {m : Model V} (hm : m.Built) :
  (∀ k init, ((checker.precomputing true).boundedReach m.arena u k o init
        : Account V W (BoundedRun V)).outcome.map BoundedRun.numbers
      = ((checker.precomputing false).boundedReach m.arena u k o init).outcome.map
        BoundedRun.numbers)
    ∧ (∀ bound, ((checker.precomputing true).boundedUntil m.arena u bound o
        : Account V W (Solution V)).outcome.map Solution.numbers
      = ((checker.precomputing false).boundedUntil m.arena u bound o).outcome.map
        Solution.numbers)
    ∧ ∀ c, m = .ctmdp c → ∀ bound, ((checker.precomputing true).timedUntil c u bound o
        : Account V W (Solution V)).outcome.map Solution.numbers
      = ((checker.precomputing false).timedUntil c u bound o).outcome.map Solution.numbers
  := by
  have ha := hm.proper_arena
  have hmass := hm.carriesMass_arena
  have halike := Arena.runsAlike_precomputing ha hmass o checker.settings true false
  refine ⟨?_, ?_, ?_⟩
  · intro k init
    apply halike.boundedReach
  · intro bound
    apply halike.boundedUntil
  · rintro c rfl bound
    apply (Ctmdp.runsAlike_precomputing ha hmass o checker.settings true false).timedUntil

end Checker

/-! ### A sample model in rounded arithmetic -/

/-- A draft of two states on numbers of 64 bits, in which state `0` is left with rate one and comes
back most of the time. -/
def Ctmdp.Draft.rounded : Ctmdp.Draft Float where
  mdp :=
    { choices := #[#[⟨⟨[(0, 0.9), (1, 0.1)], by decide⟩, none⟩], #[]]
      initialStates := [] }
  rates := #[#[1.0], #[]]

/-- The sample model in rounded arithmetic. -/
def Ctmdp.rounded : Ctmdp Float := ⟨Draft.rounded.mdp.process, #[1.0]⟩

/-- The sample model in rounded arithmetic can be made. -/
theorem Model.built_rounded :
  (Model.ctmdp Ctmdp.rounded).Built
  := by
  have hvalid : (Ctmdp.Draft.rounded.mdp.validate : Except (CheckError Float Nat) Unit) = .ok () := by
    apply Mdp.Draft.validate_eq_ok_iff.mpr
    intro s c choice h
    obtain rfl : choice = ⟨⟨⟨[(0, 0.9), (1, 0.1)], by decide⟩⟩, none⟩ := by
      simpa [Ctmdp.Draft.rounded] using Mdp.Draft.mem_of_choice?_eq_some h
    apply Distribution.validate_eq_ok_iff.mpr
    decide +kernel
  have hmdp := Mdp.Draft.build_eq_ok_iff.mpr ⟨hvalid, rfl⟩
  apply Model.Built.ctmdp (W := Nat) (b := Ctmdp.Draft.rounded)
  rw [Ctmdp.Draft.build, hmdp]
  rfl

/-- Bounded queries for state `0` of the sample model have the same numbers with precomputation,
which finds that state `1` does not lead there, and without. -/
theorem Checker.numbers_precomputing_rounded :
  let checker : Checker Float := ⟨Settings.default, .silent⟩
  let u : Until := ⟨none, .ofList 2 [0]⟩
  (∀ k init, ((checker.precomputing true).boundedReach Ctmdp.rounded.arena u k .max init
        : Account Float Float (BoundedRun Float)).outcome.map BoundedRun.numbers
      = ((checker.precomputing false).boundedReach Ctmdp.rounded.arena u k .max init).outcome.map
        BoundedRun.numbers)
    ∧ (∀ bound, ((checker.precomputing true).boundedUntil Ctmdp.rounded.arena u bound .max
        : Account Float Float (Solution Float)).outcome.map Solution.numbers
      = ((checker.precomputing false).boundedUntil Ctmdp.rounded.arena u bound .max).outcome.map
        Solution.numbers)
    ∧ ∀ bound, ((checker.precomputing true).timedUntil Ctmdp.rounded u bound .max
        : Account Float Float (Solution Float)).outcome.map Solution.numbers
      = ((checker.precomputing false).timedUntil Ctmdp.rounded u bound .max).outcome.map
        Solution.numbers
  := by
  intro checker u
  obtain ⟨hrun, hsteps, htime⟩ := checker.numbers_precomputing u .max Model.built_rounded
  exact ⟨hrun, hsteps, htime Ctmdp.rounded rfl⟩

end Reachability
