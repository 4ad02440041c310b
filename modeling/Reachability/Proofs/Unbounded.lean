import Mathlib
import Reachability.Proofs.Limit
import Reachability.Proofs.LoopFree

/-!
# What unbounded runs compute

A round of an unbounded run never leads above the values of any number of steps, and after `i`
rounds no value is below that of `i` steps (`Arena.Bracketed`).  This holds of a Jacobi round, and
of a Gauss-Seidel round from state to state, where a state that was updated in the round is
already one step further than one that was not.
-/

namespace Reachability

/-- What holds of the start of an iteration and is kept by its rounds holds at its end. -/
theorem Iterate.run_induction {V : Type} [Arithmetic V] {threshold : V}
    {step : Iterate V → Iterate V} {p : Iterate V → Prop} (hstep : ∀ i, p i → p (step i))
    (rounds : Nat) (i : Iterate V) (h : p i) :
  p (i.run threshold step rounds)
  := by
  induction rounds generalizing i with
  | zero => apply h
  | succ rounds ih =>
      rw [run]
      split
      · apply h
      · apply ih _ (hstep i h)

/-- An iteration depends on its rounds only as far as something holds that they keep. -/
theorem Iterate.run_congr {V : Type} [Arithmetic V] {threshold : V}
    {step step' : Iterate V → Iterate V} {p : Iterate V → Prop} (hstep : ∀ i, p i → p (step i))
    (heq : ∀ i, p i → step i = step' i) (rounds : Nat) (i : Iterate V) (h : p i) :
  i.run threshold step rounds = i.run threshold step' rounds
  := by
  induction rounds generalizing i with
  | zero => rfl
  | succ rounds ih => rw [run, run, ← heq i h, ih _ (hstep i h)]

namespace Arena

/-- A round of either kind changes no length. -/
theorem size_iterate {V W : Type} [Arithmetic V] {a : Arena V} {o : Objective}
    (settings : Settings W) (maybe : StateSet) (i : Iterate V) :
  (a.iterate settings o maybe i).values.size = i.values.size
  := by
  rw [iterate]
  cases settings.iteration with
  | jacobi => apply size_round
  | gaussSeidel => apply size_gaussSeidel

/-- A vector is bracketed if each of its values lies between that of a number of steps, which may
differ from state to state, and that of any number of steps, and is the latter at each state
that is not iterated. -/
structure Bracketed (a : Arena ℝ) (u : Until) (o : Objective) (maybe : StateSet)
    (steps : Nat → Nat) (v : Nat → ℝ) : Prop where
  known : ∀ s < a.numStates, maybe.contains s = false → v s = a.limitValue u o s
  lower : ∀ s < a.numStates, a.stepValue u o (steps s) s ≤ v s
  upper : ∀ s < a.numStates, v s ≤ a.limitValue u o s

variable {a : Arena ℝ} {u : Until} {o : Objective} {maybe : StateSet} {steps : Nat → Nat}
  {v : Nat → ℝ}

/-- Only the values at the states of the model matter. -/
theorem Bracketed.congr {w : Nat → ℝ} (h : a.Bracketed u o maybe steps v)
    (hv : ∀ s < a.numStates, w s = v s) :
  a.Bracketed u o maybe steps w
  := by
  constructor
  · intro s hs hknown
    rw [hv s hs, h.known s hs hknown]
  · intro s hs
    rw [hv s hs]
    apply h.lower s hs
  · intro s hs
    rw [hv s hs]
    apply h.upper s hs

/-- Only the numbers of steps at the states that are iterated matter, and they may be smaller. -/
theorem Bracketed.of_le (ha : a.mdp.Proper) (hsum : a.mdp.Stochastic) {steps' : Nat → Nat}
    (h : a.Bracketed u o maybe steps v)
    (hsteps : ∀ s < a.numStates, maybe.contains s = true → steps' s ≤ steps s) :
  a.Bracketed u o maybe steps' v
  := by
  refine ⟨h.known, ?_, h.upper⟩
  intro s hs
  cases hmaybe : maybe.contains s with
  | true => apply le_trans (stepValue_mono ha s (hsteps s hs hmaybe)) (h.lower s hs)
  | false =>
      rw [h.known s hs hmaybe]
      apply stepValue_le_limitValue ha hsum

/-- A value may be replaced, at a state that is iterated, by one that lies between those of another
number of steps and of any number. -/
theorem Bracketed.set (h : a.Bracketed u o maybe steps v) {s k : Nat} {x : ℝ}
    (hin : maybe.contains s = true) (hlower : a.stepValue u o k s ≤ x)
    (hupper : x ≤ a.limitValue u o s) :
  a.Bracketed u o maybe (Function.update steps s k) (Function.update v s x)
  := by
  constructor
  · intro t ht hknown
    have hts : t ≠ s := by
      rintro rfl
      rw [hin] at hknown
      cases hknown
    rw [Function.update_of_ne hts, h.known t ht hknown]
  · intro t ht
    obtain rfl | hts := eq_or_ne t s
    · rw [Function.update_self, Function.update_self]
      apply hlower
    · rw [Function.update_of_ne hts, Function.update_of_ne hts]
      apply h.lower t ht
  · intro t ht
    obtain rfl | hts := eq_or_ne t s
    · rw [Function.update_self]
      apply hupper
    · rw [Function.update_of_ne hts]
      apply h.upper t ht

section Rounds

variable (ha : a.mdp.Proper) (hsum : a.mdp.Stochastic) {i : Nat}

include ha hsum

/-! ### The update of one state -/

section Update

variable {s : Nat} (hs : s < a.numStates) (htarget : u.target.contains s = false)
  (hremains : u.remains s = true)

include hs htarget hremains

omit hsum hs in
/-- If no value is below that of `i` steps, then an updated value is not below that of one step
more. -/
theorem stepValue_le_update (h : ∀ t < a.numStates, a.stepValue u o i t ≤ v t) :
  a.stepValue u o (i + 1) s ≤ (a.update none o v s).1
  := by
  rw [stepValue_succ, advance_remains _ _ _ htarget hremains]
  apply update_mono ha h

/-- If no value is above that of any number of steps, then no updated value is. -/
theorem update_le_limitValue (h : ∀ t < a.numStates, v t ≤ a.limitValue u o t) :
  (a.update none o v s).1 ≤ a.limitValue u o s
  := by
  rw [update_fst]
  apply optimum_le_limitValue hs htarget hremains ha hsum
  intro c _ hlt
  apply lt_of_lt_of_le hlt
  apply expectation_mono (ha.mass_pos s c)
  intro e he
  apply h e.1 (ha.lt_numStates s c e he)

omit hremains in
/-- If no value is below that of `i` steps, then a value that is updated with the loops solved for
is not below that of one step more. -/
theorem stepValue_le_loopFreeOptimum (h : ∀ t < a.numStates, a.stepValue u o i t ≤ v t) :
  a.stepValue u o (i + 1) s ≤ a.loopFreeOptimum none v (a.direction o s) s
  := by
  apply stepValue_le_optimum hs htarget
  · intro c _
    apply loopFreeValue_nonneg ha
    intro t ht
    apply le_trans (stepValue_nonneg ha i t) (h t ht)
  · intro j hj c hc
    apply le_loopFreeValue ha hsum hc
    intro t ht
    apply le_trans (stepValue_mono ha t (Nat.le_of_lt_succ hj)) (h t ht)

/-- If no value is above that of any number of steps, then no value that is updated with the loops
solved for is. -/
theorem loopFreeOptimum_le_limitValue (h : ∀ t < a.numStates, v t ≤ a.limitValue u o t) :
  a.loopFreeOptimum none v (a.direction o s) s ≤ a.limitValue u o s
  := by
  apply optimum_le_limitValue hs htarget hremains ha hsum
  intro c hc
  apply lt_expectation_of_lt_loopFreeValue ha hsum hc h (limitValue_nonneg ha hsum s)

end Update

variable (hmaybe : ∀ s, maybe.contains s = true → u.target.contains s = false ∧ u.remains s = true)

include hmaybe

/-! ### Jacobi rounds -/

/-- If the values of a vector are bracketed by those of `i` steps, then its updates are so by those
of one step more. -/
theorem Bracketed.update (h : a.Bracketed u o maybe (fun _ => i) v) :
  a.Bracketed u o maybe (fun _ => i + 1)
    fun s => if maybe.contains s = true then (a.update none o v s).1 else v s
  := by
  constructor
  · intro s hs hknown
    rw [if_neg (Bool.eq_false_iff.mp hknown), h.known s hs hknown]
  · intro s hs
    split
    · next hin =>
        obtain ⟨htarget, hremains⟩ := hmaybe s hin
        apply stepValue_le_update ha htarget hremains h.lower
    · next hout =>
        rw [h.known s hs (Bool.eq_false_iff.mpr hout)]
        apply stepValue_le_limitValue ha hsum
  · intro s hs
    split
    · next hin =>
        obtain ⟨htarget, hremains⟩ := hmaybe s hin
        apply update_le_limitValue ha hsum hs htarget hremains h.upper
    · apply h.upper s hs

/-! ### Gauss-Seidel rounds -/

/-- If every state is at least `i` steps far, then the states that are updated one after the other
with their loops solved for are one step further than that. -/
theorem Bracketed.foldl_relaxState (measure : ChangeMeasure) (states : List Nat)
    (hstates : ∀ s ∈ states, s < a.numStates ∧ maybe.contains s = true) (acc : ℝ × Array ℝ)
    (hsize : acc.2.size = a.numStates) (h : a.Bracketed u o maybe steps (valuation acc.2))
    (hsteps : ∀ t, i ≤ steps t) :
  (states.foldl (a.relaxState none o measure) acc).2.size = a.numStates
    ∧ a.Bracketed u o maybe (fun t => if t ∈ states then i + 1 else steps t)
      (valuation (states.foldl (a.relaxState none o measure) acc).2)
  := by
  induction states generalizing acc steps with
  | nil =>
      simp only [List.not_mem_nil, if_false]
      exact ⟨hsize, h⟩
  | cons s states ih =>
      obtain ⟨⟨hs, hin⟩, hstates⟩ := List.forall_mem_cons.mp hstates
      obtain ⟨htarget, hremains⟩ := hmaybe s hin
      have hfar : (fun t => if t ∈ s :: states then i + 1 else steps t)
          = fun t => if t ∈ states then i + 1 else Function.update steps s (i + 1) t := by
        funext t
        rw [Function.update_apply]
        grind
      rw [List.foldl_cons, hfar]
      apply ih hstates
      · rw [relaxState, Array.size_setIfInBounds, hsize]
      · rw [valuation_relaxState (hsize ▸ hs)]
        apply h.set hin
        · apply stepValue_le_loopFreeOptimum ha hsum hs htarget
          intro t ht
          apply le_trans (stepValue_mono ha t (hsteps t)) (h.lower t ht)
        · apply loopFreeOptimum_le_limitValue ha hsum hs htarget hremains h.upper
      · intro t
        rw [Function.update_apply]
        split
        · apply Nat.le_succ
        · apply hsteps t

/-! ### Rounds of either kind -/

/-- A vector of the right length that is bracketed by `i` steps is so by one step more after a
round. -/
theorem Bracketed.iterate {W : Type} (settings : Settings W) {i : Iterate ℝ}
    (hsize : i.values.size = a.numStates)
    (h : a.Bracketed u o maybe (fun _ => i.rounds) (valuation i.values)) :
  (a.iterate settings o maybe i).values.size = a.numStates
    ∧ a.Bracketed u o maybe (fun _ => (a.iterate settings o maybe i).rounds)
      (valuation (a.iterate settings o maybe i).values)
  := by
  rw [Arena.iterate]
  cases settings.iteration with
  | jacobi =>
      constructor
      · apply (a.size_round o settings.parallel maybe _).trans hsize
      · apply (h.update ha hsum hmaybe).congr
        intro s hs
        apply a.valuation_round o settings.parallel maybe _ s hs hsize
  | gaussSeidel =>
      obtain ⟨hsize', h'⟩ := h.foldl_relaxState ha hsum hmaybe settings.measure _
        (fun s hs => Selection.mem_filter_only.mp hs) (0, i.values) hsize fun _ => le_refl i.rounds
      use hsize'
      apply h'.of_le ha hsum
      intro s hs hin
      rw [if_pos (Selection.mem_filter_only.mpr ⟨hs, hin⟩)]

end Rounds

/-! ### The start of an iteration -/

section Start

variable {W : Type} (settings : Settings W) (ha : a.mdp.Proper) (hsum : a.mdp.Stochastic) {s : Nat}

include ha hsum

omit ha hsum in
/-- The target states are among those that are known to have probability one. -/
theorem contains_yes_of_target (hs : s < a.numStates) (htarget : u.target.contains s = true) :
  (a.decided settings u o).yes.contains s = true
  := by
  rw [decided]
  split
  · apply a.contains_sureStates_of_target u o hs htarget
  · apply htarget

/-- The states that are known to have probability one have the value one for any number of
steps. -/
theorem limitValue_yes (hs : (a.decided settings u o).yes.contains s = true) :
  a.limitValue u o s = 1
  := by
  rw [decided] at hs
  split at hs
  · apply limitValue_sure ha hsum hs
  · apply limitValue_target hs

omit ha hsum in
/-- The states that are iterated remain and are not in the target. -/
theorem of_contains_maybe (hs : (a.decided settings u o).maybe.contains s = true) :
  u.target.contains s = false ∧ u.remains s = true
  := by
  obtain ⟨hlt, hremains, hyes, -⟩ := Until.contains_unknown.mp hs
  refine ⟨?_, hremains⟩
  apply Bool.eq_false_iff.mpr
  intro htarget
  apply Bool.eq_false_iff.mp hyes
  apply contains_yes_of_target settings hlt htarget

/-- The states that are not iterated have the value one or zero for any number of steps, as they
are known to have probability one or not. -/
theorem limitValue_known (hs : s < a.numStates)
    (hknown : (a.decided settings u o).maybe.contains s = false) :
  a.limitValue u o s = if (a.decided settings u o).yes.contains s then 1 else 0
  := by
  split
  · next hyes => apply limitValue_yes settings ha hsum hyes
  · next hyes =>
      rw [Bool.not_eq_true] at hyes
      apply limitValue_eq_zero
      cases hremains : u.remains s with
      | false =>
          intro k
          apply stepValue_outside k _ hremains
          apply Bool.eq_false_iff.mpr
          intro htarget
          apply Bool.eq_false_iff.mp hyes
          apply contains_yes_of_target settings hs htarget
      | true =>
          obtain ⟨set, hset, hin⟩ := exists_mem_of_known hs hyes hremains hknown
          change set ∈ a.settledStates settings u o at hset
          rw [settledStates] at hset
          split at hset
          · cases hset
            apply ((contains_zeroStates ha s).mp hin).2
          · cases hset

/-- The vector that an iteration starts from is bracketed by no step. -/
theorem bracketed_indicator :
  a.Bracketed u o (a.decided settings u o).maybe (fun _ => 0)
    (valuation ((a.decided settings u o).yes.indicator a.numStates : Array ℝ))
  := by
  constructor
  · intro s hs hknown
    rw [valuation_indicator _ hs, limitValue_known settings ha hsum hs hknown]
  · intro s hs
    rw [valuation_indicator _ hs, stepValue_zero]
    split
    · next htarget => rw [if_pos (contains_yes_of_target settings hs htarget)]
    · split
      · apply zero_le_one
      · apply le_refl
  · intro s hs
    rw [valuation_indicator _ hs]
    split
    · next hyes => rw [limitValue_yes settings ha hsum hyes]
    · apply limitValue_nonneg ha hsum

/-- An iteration that converges ends with a vector that is bracketed by the number of its
rounds. -/
theorem bracketed_of_converge [Precision ℝ W] {solution : Solution ℝ}
    (h : a.converge settings o (a.decided settings u o) = .ok solution) :
  solution.values.size = a.numStates
    ∧ a.Bracketed u o (a.decided settings u o).maybe (fun _ => solution.iterations)
      (valuation solution.values)
  := by
  rw [converge] at h
  split at h
  · cases h
    apply Iterate.run_induction (p := fun i => i.values.size = a.numStates
      ∧ a.Bracketed u o (a.decided settings u o).maybe (fun _ => i.rounds) (valuation i.values))
    · rintro i ⟨hsize, hbracketed⟩
      apply hbracketed.iterate ha hsum (fun s hs => of_contains_maybe settings hs)
        settings hsize
    · exact ⟨StateSet.size_indicator _ _, bracketed_indicator settings ha hsum⟩
  · cases h

end Start

end Arena

/-! ### A run that converges -/

/-- The largest absolute change is below a bound if no two entries are that far apart. -/
theorem ChangeMeasure.maxChange_lt {sel : Selection} {old new : Array ℝ} {x : ℝ} (hx : 0 < x)
    (h : ∀ y ∈ old, ∀ z ∈ new, |z - y| < x) :
  absolute.maxChange sel old new < x
  := by
  apply Arithmetic.maximum_lt_iff.mpr ⟨hx, _⟩
  intro change hchange
  obtain ⟨⟨⟨y, z⟩, s⟩, hmem, rfl⟩ := List.mem_map.mp hchange
  have hget := List.mk_mem_zipIdx_iff_getElem?.mp (List.mem_of_mem_filter hmem)
  have hzip := List.mem_of_getElem? hget
  rw [Array.toList_zip] at hzip
  obtain ⟨hy, hz⟩ := List.of_mem_zip hzip
  apply h y (Array.mem_toList_iff.mp hy) z (Array.mem_toList_iff.mp hz)

namespace Arena

variable {a : Arena ℝ} {u : Until} {o : Objective}

/-- The entries of a bracketed vector lie between zero and one. -/
theorem Bracketed.mem_Icc (ha : a.mdp.Proper) (hsum : a.mdp.Stochastic) {maybe : StateSet}
    {steps : Nat → Nat} {v : Array ℝ} (hsize : v.size = a.numStates)
    (h : a.Bracketed u o maybe steps (valuation v)) :
  ∀ y ∈ v, y ∈ Set.Icc 0 1
  := by
  intro y hy
  obtain ⟨s, hs, rfl⟩ := Array.mem_iff_getElem.mp hy
  have hvalue : valuation v s = v[s] := by
    rw [valuation, Array.getElem?_eq_getElem hs, Option.getD_some]
  rw [hsize] at hs
  rw [← hvalue]
  constructor
  · apply le_trans (stepValue_nonneg ha (steps s) s) (h.lower s hs)
  · apply le_trans (h.upper s hs) (limitValue_le_one ha hsum s)

/-- With a threshold above one, an iteration by Jacobi rounds has converged after the first. -/
theorem exists_converge {W : Type} [Precision ℝ W] (ha : a.mdp.Proper) (hsum : a.mdp.Stochastic)
    (settings : Settings W) (hiteration : settings.iteration = .jacobi)
    (hmeasure : settings.measure = .absolute) (hrounds : settings.maxIterations = 1)
    (hthreshold : 1 < (Precision.narrow settings.threshold : ℝ)) :
  ∃ solution, a.converge settings o (a.decided settings u o) = .ok solution
  := by
  have hstart := bracketed_indicator (u := u) (o := o) settings ha hsum
  have hmaybe := fun s hs => of_contains_maybe (a := a) (u := u) (o := o) (s := s) settings hs
  have hsize : ((a.decided settings u o).yes.indicator a.numStates : Array ℝ).size = a.numStates :=
    StateSet.size_indicator _ _
  rw [converge, hrounds]
  generalize ((a.decided settings u o).yes.indicator a.numStates : Array ℝ) = start at *
  obtain ⟨hsize', hround⟩ :=
    hstart.iterate ha hsum hmaybe settings (i := ⟨start, start, 0, none⟩) hsize
  have hconverged : (a.iterate settings o (a.decided settings u o).maybe
      ⟨start, start, 0, none⟩).converged (Precision.narrow settings.threshold) = true := by
    rw [iterate, hiteration] at hsize' hround ⊢
    rw [hmeasure]
    apply decide_eq_true
    apply ChangeMeasure.maxChange_lt (lt_trans zero_lt_one hthreshold)
    intro y hy z hz
    obtain ⟨hy, hy'⟩ := hstart.mem_Icc ha hsum hsize y hy
    obtain ⟨hz, hz'⟩ := hround.mem_Icc ha hsum hsize' z hz
    apply lt_of_le_of_lt _ hthreshold
    rw [abs_sub_le_iff]
    constructor <;> linarith
  exact ⟨_, if_pos hconverged⟩

end Arena

/-! ### Answers of any method -/

/-- For a formula within the model, a query without a bound comes out as the iteration for the
resized formula does. -/
theorem Checker.outcome_unboundedUntil {V W : Type} [Arithmetic V] [Wide W] [Precision V W]
    (checker : Checker W) {a : Arena V} {u : Until} {o : Objective} (hu : u.Within a.numStates) :
  (checker.unboundedUntil a u o).outcome
    = a.converge checker.settings o (a.decided checker.settings (u.resized a.numStates) o)
  := by
  rw [unboundedUntil, Arena.unboundedRun, Until.restrict_eq_ok_iff.mpr ⟨hu, rfl⟩]

/-- A query without a bound is answered if its formula is within the model and the iteration for
the resized formula converges. -/
theorem Checker.unboundedUntil_eq_ok_iff {V W : Type} [Arithmetic V] [Wide W] [Precision V W]
    (checker : Checker W) {a : Arena V} {u : Until} {o : Objective} {solution : Solution V} :
  (checker.unboundedUntil a u o).outcome = .ok solution
    ↔ u.Within a.numStates
      ∧ a.converge checker.settings o (a.decided checker.settings (u.resized a.numStates) o)
        = .ok solution
  := by
  rw [unboundedUntil, Arena.unboundedRun]
  cases hrestrict : (u.restrict a.numStates : Except (CheckError V W) Until) with
  | error e =>
      constructor
      · rintro ⟨⟩
      · rintro ⟨hu, -⟩
        rw [Until.restrict_eq_ok_iff.mpr ⟨hu, rfl⟩] at hrestrict
        cases hrestrict
  | ok u' =>
      obtain ⟨hu, rfl⟩ := Until.restrict_eq_ok_iff.mp hrestrict
      exact ⟨fun h => ⟨hu, h⟩, fun h => h.2⟩

/-- A checker that is satisfied with any change below two and makes one round. -/
noncomputable def Checker.hasty : Checker ℝ :=
  ⟨{ Settings.default with threshold := 1 + 1, maxIterations := 1 }, .silent⟩

/-- The hasty checker answers the sample query. -/
theorem Checker.exists_unboundedUntil_hasty :
  ∃ solution, (hasty.unboundedUntil Model.sample.arena .sample .opposed
      : Account ℝ ℝ (Solution ℝ)).outcome = .ok solution
  := by
  obtain ⟨solution, h⟩ := Arena.exists_converge Model.built_sample.proper_arena
    Model.stochastic_sample hasty.settings rfl rfl rfl (lt_add_one 1)
  exact ⟨solution, hasty.unboundedUntil_eq_ok_iff.mpr ⟨Until.within_sample, h⟩⟩

/-- If the masses of a model sum to one, then an answer without a bound that was found in `i`
rounds, by whatever method, has values that are at least those of the answer within `i` steps
and at most the least upper bound of those within any number of steps. -/
theorem Checker.unboundedUntil_between {W : Type} [Wide W] [Precision ℝ W] (checker : Checker W)
    {W' : Type} (bounded : Checker W') {u : Until} {o : Objective} {m : Model ℝ} (hm : m.Built)
    (hsum : m.process.Stochastic) {solution : Solution ℝ}
    (h : (checker.unboundedUntil m.arena u o).outcome = .ok solution) :
  ∃ answer, bounded.Answers m.arena u o answer
    ∧ solution.values.size = m.numStates
    ∧ ∀ s < m.numStates, ∃ x, IsLUB (Set.range fun k => valuation (answer k).values s) x
      ∧ valuation (answer solution.iterations).values s ≤ valuation solution.values s
      ∧ valuation solution.values s ≤ x
  := by
  have ha := hm.proper_arena
  rw [← m.mdp_arena] at hsum
  rw [← m.numStates_arena]
  obtain ⟨hu, h⟩ := checker.unboundedUntil_eq_ok_iff.mp h
  obtain ⟨answer, hanswers, hvalues⟩ := bounded.exists_answers (o := o) ha hu
  obtain ⟨hsize, hbracketed⟩ := Arena.bracketed_of_converge checker.settings ha hsum h
  have hsame : m.arena.stepValue (u.resized m.arena.numStates) o = m.arena.stepValue u o :=
    m.arena.stepValue_congr o (u.contains_target_resized _) (u.remains_resized _)
  refine ⟨answer, hanswers, hsize, ?_⟩
  intro s hs
  have hlub := Arena.isLUB_limitValue (u := u.resized m.arena.numStates) (o := o) ha hsum s
  have hlower := hbracketed.lower s hs
  rw [hsame] at hlub hlower
  simp only [hvalues _ s hs]
  exact ⟨_, hlub, hlower, hbracketed.upper s hs⟩

/-- The answer of the hasty checker to the sample query lies between those of the sample checker
within as many steps and within any number of steps. -/
theorem Checker.unboundedUntil_between_sample :
  ∃ solution, (hasty.unboundedUntil Model.sample.arena .sample .opposed
      : Account ℝ ℝ (Solution ℝ)).outcome = .ok solution
    ∧ ∃ answer, sample.Answers Model.sample.arena .sample .opposed answer
      ∧ solution.values.size = Model.sample.numStates
      ∧ ∀ s < Model.sample.numStates,
        ∃ x, IsLUB (Set.range fun k => valuation (answer k).values s) x
          ∧ valuation (answer solution.iterations).values s ≤ valuation solution.values s
          ∧ valuation solution.values s ≤ x
  := by
  obtain ⟨solution, h⟩ := exists_unboundedUntil_hasty
  exact ⟨solution, h, hasty.unboundedUntil_between sample Model.built_sample
    Model.stochastic_sample h⟩

end Reachability
