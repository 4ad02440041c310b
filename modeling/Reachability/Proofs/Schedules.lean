import Mathlib
import Reachability.Proofs.Passes
import Reachability.Proofs.Precomputation
import Reachability.Proofs.SameRuns
import Reachability.Proofs.Unbounded

/-!
# Sweeps in any order

A Jacobi sweep reads one vector and writes every selected place once, so that nothing depends on the
order in which it goes through the states (`Arena.writeStates_perm`), nor on whether all entries are
computed at once (`Arena.jacobiAtOnce_eq`), and the values do not depend on whether the choices are
written, too (`Arena.SweptAlike`).

A run may write each round into the vector of the round before, as far as the sweeps write it, since
both vectors agree elsewhere (`Arena.repeat_swappingRound`).

Hence a checker computes the same numbers whether it computes entries at once or one after the
other, and whether it keeps the choices or not (`Checker.schedules_agree`).
-/

namespace Reachability

variable {V W : Type} [Arithmetic V]

namespace Arena

/-! ### Orders of a sweep -/

section Sweep

variable (a : Arena V) (rewards : Option (Rewards V)) (o : Objective) (sel : Selection)

/-- The Jacobi sweep into a vector and possibly a strategy that goes through the given states in
their order; all selected ones must have their places. -/
def jacobiInOrder? (states : List Nat) (v result : Array V) (strategy : Option Strategy) :
    Option (Array V × Option Strategy) :=
  if (states.filter sel.has).all fun s => s < result.size && (strategy.all fun t => s < t.size)
      && a.covers v.size s
  then
    let (values, choices) :=
      a.writeStates rewards o sel (valuation v) states (result, strategy.getD #[])
    some (values, strategy.map fun _ => choices)
  else none

/-- Sweeps through the same states in any order leave the same vector and the same strategy. -/
theorem writeStates_perm (v : Nat → V) {states states' : List Nat} (h : states.Perm states')
    (out : Array V × Strategy) :
  a.writeStates rewards o sel v states out = a.writeStates rewards o sel v states' out
  := by
  have hmem : ∀ s, s ∈ states.filter sel.has ↔ s ∈ states'.filter sel.has :=
    fun s => (h.filter sel.has).mem_iff
  apply Prod.ext
  · apply Array.ext_getElem?
    intro s
    simp only [getElem?_writeStates_fst, hmem]
  · apply Array.ext_getElem?
    intro s
    simp only [getElem?_writeStates_snd, hmem]

/-- A sweep through the states in any order is the one in ascending order. -/
theorem jacobiInOrder?_eq {states : List Nat} (h : states.Perm (List.range a.numStates))
    (v result : Array V) (strategy : Option Strategy) :
  a.jacobiInOrder? rewards o sel states v result strategy
    = a.jacobi? rewards o sel v result strategy
  := by
  rw [jacobiInOrder?, jacobi?, (h.filter sel.has).all_eq, a.writeStates_perm rewards o sel _ h]
  rfl

/-- Writing into places of an array one after the other is computing all its entries at once, if the
places are those that satisfy a condition. -/
theorem mapIdx_eq_foldl_setIfInBounds {α : Type} (f : Nat → α) {places : List Nat} {out : Array α}
    {p : Nat → Bool} (h : ∀ s < out.size, (s ∈ places ↔ p s = true)) :
  (out.mapIdx fun s old => if p s then f s else old)
    = places.foldl (fun out s => out.setIfInBounds s (f s)) out
  := by
  apply Array.ext_getElem?
  intro s
  rw [getElem?_foldl_setIfInBounds, Array.getElem?_mapIdx]
  cases hs : out[s]? with
  | none => simp
  | some x =>
      obtain ⟨hlt, -⟩ := Array.getElem?_eq_some_iff.mp hs
      simp only [h s hlt, Option.map_some]
      split <;> rfl

/-- A sweep of all entries at once is the one in ascending order, where there are no more places
than states. -/
theorem jacobiAtOnce_eq (v : Array V) {out : Array V × Strategy}
    (hvalues : out.1.size ≤ a.numStates) (hchoices : out.2.size ≤ a.numStates) :
  a.jacobiAtOnce rewards o sel v out = a.jacobi rewards o sel v out
  := by
  have hplaces : ∀ {length}, length ≤ a.numStates → ∀ s < length,
      (s ∈ (List.range a.numStates).filter sel.has ↔ sel.has s = true) := by
    intro length hlength s hs
    rw [Selection.mem_filter_range, and_iff_right (Nat.lt_of_lt_of_le hs hlength)]
  rw [jacobi, writeStates_eq, jacobiAtOnce,
    mapIdx_eq_foldl_setIfInBounds (fun s => (a.update rewards o (valuation v) s).1)
      (hplaces hvalues),
    mapIdx_eq_foldl_setIfInBounds (fun s => (a.update rewards o (valuation v) s).2)
      (hplaces hchoices)]

variable {v result : Array V} {strategy : Option Strategy}

/-- A sweep over the places of vectors with one for each state is the one in ascending order. -/
theorem jacobiAtOnce?_eq (hresult : result.size = a.numStates)
    (hstrategy : ∀ t ∈ strategy, t.size = a.numStates) :
  a.jacobiAtOnce? rewards o sel v result strategy = a.jacobi? rewards o sel v result strategy
  := by
  have hwhole : ∀ {α : Type} {x : Array α}, x.size = a.numStates →
      x.extract 0 a.numStates = x ∧ x.extract a.numStates a.numStates = #[] := by
    intro α x hx
    rw [← hx]
    exact ⟨Array.extract_size, by simp⟩
  cases strategy with
  | none =>
      simp only [jacobiAtOnce?, jacobi?, hresult, hwhole hresult, Option.all_none, Bool.and_true,
        Option.getD_none, Array.extract_empty, Array.append_empty]
      rw [jacobiAtOnce_eq]
      · rfl
      · exact hresult.le
      · exact Nat.zero_le _
  | some t =>
      have ht := hstrategy t rfl
      simp only [jacobiAtOnce?, jacobi?, hresult, ht, hwhole hresult, hwhole ht, Nat.min_self,
        Option.all_some, Bool.and_self, Option.getD_some, Option.map_some, Array.append_empty]
      rw [jacobiAtOnce_eq]
      · exact hresult.le
      · exact ht.le

variable {a rewards o sel} in
/-- The outcome of a sweep, if it has one. -/
theorem of_jacobi?_eq_some {out : Array V × Option Strategy}
    (h : a.jacobi? rewards o sel v result strategy = some out) :
  out = ((a.jacobi rewards o sel v (result, strategy.getD #[])).1,
    strategy.map fun _ => (a.jacobi rewards o sel v (result, strategy.getD #[])).2)
  := by
  rw [jacobi?] at h
  split at h
  · exact (Option.some_inj.mp h).symm
  · cases h

/-- How the outcomes of a Jacobi sweep into a vector and possibly a strategy agree: it may go
through the states in any order or compute all entries at once, it leaves the same vector without
the strategy, and it keeps what it does not select. -/
structure SweptAlike (v result : Array V) (strategy : Option Strategy) : Prop where
  inOrder : ∀ states : List Nat, states.Perm (List.range a.numStates) →
    a.jacobiInOrder? rewards o sel states v result strategy
      = a.jacobi? rewards o sel v result strategy
  atOnce : a.jacobiAtOnce? rewards o sel v result strategy
    = a.jacobi? rewards o sel v result strategy
  withoutStrategy : (a.jacobi? rewards o sel v result strategy).map Prod.fst
    = (a.jacobi? rewards o sel v result none).map Prod.fst
  exists_outcome : sel.SpannedBy a v.size →
    ∃ out, a.jacobi? rewards o sel v result strategy = some out
  unselected : ∀ out, a.jacobi? rewards o sel v result strategy = some out →
    out.1.size = result.size ∧ ∀ s, sel.has s = false →
      out.1[s]? = result[s]? ∧ (out.2.bind fun t => t[s]?) = strategy.bind fun t => t[s]?

/-- The outcomes of a sweep into vectors with one place for each state agree. -/
theorem sweptAlike (hresult : result.size = a.numStates)
    (hstrategy : ∀ t ∈ strategy, t.size = a.numStates) :
  a.SweptAlike rewards o sel v result strategy
  := by
  constructor
  · intro states h
    apply a.jacobiInOrder?_eq rewards o sel h
  · apply a.jacobiAtOnce?_eq rewards o sel hresult hstrategy
  · cases strategy with
    | none => rfl
    | some t =>
        simp only [jacobi?, hresult, hstrategy t rfl, Option.all_some, Option.all_none,
          Bool.and_self, Bool.and_true]
        split
        · simp only [Option.map_some, jacobi, writeStates_eq]
        · rfl
  · intro hv
    rw [jacobi?_eq_some hv]
    · exact ⟨_, rfl⟩
    · intro s hs _
      rw [hresult]
      use hs
      intro t ht
      rw [hstrategy t ht]
      apply hs
  · intro out hout
    rw [of_jacobi?_eq_some hout]
    use a.size_jacobi_fst rewards o sel v _
    intro s hs
    have hnot : s ∉ (List.range a.numStates).filter sel.has := by
      intro hmem
      rw [(Selection.mem_filter_range.mp hmem).2] at hs
      cases hs
    constructor
    · rw [jacobi, getElem?_writeStates_fst, if_neg hnot]
    · cases strategy with
      | none => rfl
      | some t =>
          rw [Option.map_some, Option.bind_some, Option.bind_some, Option.getD_some, jacobi,
            getElem?_writeStates_snd, if_neg hnot]

end Sweep

/-! ### Rounds that swap two vectors -/

section Swap

variable (a : Arena V) (parallel : Bool) (o : Objective) (set : StateSet)

/-- The progress after one more round that writes into the vector of the round before. -/
def swappingRound (p : Progress V) : Progress V :=
  let out := (p.previous, p.strategy)
  let (values, choices) :=
    if parallel then a.jacobiAtOnce none o (.only set) p.current out
    else a.jacobi none o (.only set) p.current out
  ⟨values, p.current, choices⟩

/-- The vectors of the last two rounds over a set, which agree outside of it. -/
structure AgreeOutside (p : Progress V) : Prop where
  size_current : p.current.size = a.numStates
  size_previous : p.previous.size = a.numStates
  valuation_eq : ∀ s < a.numStates, set.contains s = false →
    valuation p.previous s = valuation p.current s

variable {a set} {p : Progress V}

/-- A round that writes into the vector of the round before leaves what a round leaves. -/
theorem AgreeOutside.swappingRound_eq (h : a.AgreeOutside set p) :
  a.swappingRound parallel o set p = a.round parallel o set p
  := by
  have hvalues :
      (a.swappingRound parallel o set p).current = (a.round parallel o set p).current := by
    have hsize : (a.swappingRound parallel o set p).current.size = a.numStates := by
      rw [← h.size_previous]
      cases parallel with
      | false => simp [swappingRound]
      | true => simp [swappingRound, jacobiAtOnce]
    apply eq_of_valuation_eq
    · rw [hsize, size_round, h.size_current]
    · intro s hs
      rw [hsize] at hs
      have hswapped : valuation (a.swappingRound parallel o set p).current s
          = if set.contains s = true then (a.update none o (valuation p.current) s).1
            else valuation p.previous s := by
        rw [← Selection.has_only]
        cases parallel with
        | false => apply a.valuation_jacobi none o _ _ _ s hs h.size_previous
        | true => apply a.valuation_jacobiAtOnce none o _ _ _ s (h.size_previous ▸ hs)
      rw [hswapped, a.valuation_round o parallel set p s hs h.size_current]
      split
      · rfl
      · next hout => apply h.valuation_eq s hs (Bool.eq_false_iff.mpr hout)
  have hchoices : (a.swappingRound parallel o set p).strategy
      = (a.round parallel o set p).strategy := by
    cases parallel with
    | false =>
        simp only [swappingRound, round, Bool.false_eq_true, if_false, jacobi]
        rw [writeStates_eq, writeStates_eq]
    | true => rfl
  exact Progress.mk.injEq .. |>.mpr ⟨hvalues, rfl, hchoices⟩

/-- After a round over the set, the vectors agree outside of it. -/
theorem AgreeOutside.round (h : a.AgreeOutside set p) :
  a.AgreeOutside set (a.round parallel o set p)
  where
  size_current := (a.size_round o parallel set p).trans h.size_current
  size_previous := h.size_current
  valuation_eq s hs hout := by
    rw [a.valuation_round o parallel set p s hs h.size_current, hout, if_neg Bool.false_ne_true]
    rfl

/-- Rounds that write into two vectors in turn leave what rounds leave that write into new ones,
from any start. -/
theorem repeat_swappingRound {start : Array V} (hsize : start.size = a.numStates)
    (strategy : Strategy) (k : Nat) :
  Nat.repeat (a.swappingRound parallel o set) k ⟨start, start, strategy⟩
    = Nat.repeat (a.round parallel o set) k ⟨start, start, strategy⟩
  := by
  have hrounds : ∀ k, a.AgreeOutside set
      (Nat.repeat (a.round parallel o set) k ⟨start, start, strategy⟩) := by
    intro k
    induction k with
    | zero => exact ⟨hsize, hsize, fun _ _ _ => rfl⟩
    | succ k ih => apply ih.round
  induction k with
  | zero => rfl
  | succ k ih => rw [Nat.repeat, Nat.repeat, ih, (hrounds k).swappingRound_eq]

end Swap

end Arena

/-! ### Checkers -/

section Runs

variable {a : Arena V} {o : Objective} {settings : Settings W}

/-- The settings with entries computed at once and choices kept, as the flags say. -/
def Settings.scheduled (settings : Settings W) (parallel exportStrategy : Bool) : Settings W :=
  { settings with parallel := parallel, exportStrategy := exportStrategy }

variable (parallel exportStrategy : Bool)

namespace Arena

/-- A sweep leaves the same vector whether its entries are computed at once or not. -/
theorem sweep_parallel (parallel' : Bool) (set : StateSet) {v : Array V}
    (hsize : v.size = a.numStates) :
  a.sweep parallel o set v = a.sweep parallel' o set v
  := by
  apply eq_of_valuation_eq
  · rw [size_sweep, size_sweep]
  · intro s hs
    rw [size_sweep, hsize] at hs
    rw [valuation_sweep _ _ _ _ hsize hs, valuation_sweep _ _ _ _ hsize hs]

/-- An arena is run alike however its sweeps are scheduled. -/
theorem runsAlike_scheduled :
  a.RunsAlike o (settings.scheduled parallel exportStrategy) settings
  := by
  intro u init k
  have hswept : a.sweptStates (settings.scheduled parallel exportStrategy) u o init
      = a.sweptStates settings u o init := rfl
  rw [runVector, runVector, hswept]
  induction k with
  | zero => rfl
  | succ k ih =>
      rw [Function.iterate_succ_apply', Function.iterate_succ_apply', ih]
      apply sweep_parallel
      rw [size_iterate_sweep, size_startVector]

/-- A round of either kind on a vector of the states is the same however its sweep is scheduled. -/
theorem iterate_scheduled (maybe : StateSet) {i : Iterate V} (hsize : i.values.size = a.numStates) :
  a.iterate (settings.scheduled parallel exportStrategy) o maybe i = a.iterate settings o maybe i
  := by
  have hround : (a.round parallel o maybe ⟨i.values, i.previous, #[]⟩).current
      = (a.round settings.parallel o maybe ⟨i.values, i.previous, #[]⟩).current := by
    rw [current_round, current_round]
    apply a.sweep_parallel parallel settings.parallel maybe hsize
  simp only [iterate, Settings.scheduled]
  cases settings.iteration with
  | jacobi =>
      dsimp only
      rw [hround]
      rfl
  | gaussSeidel => rfl

/-- The numbers of an iteration, or its failure, are the same however its sweeps are scheduled. -/
theorem map_converge_scheduled [Precision V W] (d : Decided) :
  (a.converge (settings.scheduled parallel exportStrategy) o d).map Solution.numbers
    = (a.converge settings o d).map Solution.numbers
  := by
  have hrun : ∀ rounds, Iterate.run (Precision.narrow settings.threshold)
        (a.iterate (settings.scheduled parallel exportStrategy) o d.maybe) rounds
        ⟨d.yes.indicator a.numStates, d.yes.indicator a.numStates, 0, none⟩
      = Iterate.run (Precision.narrow settings.threshold) (a.iterate settings o d.maybe) rounds
        ⟨d.yes.indicator a.numStates, d.yes.indicator a.numStates, 0, none⟩ := by
    intro rounds
    apply Iterate.run_congr (p := fun i => i.values.size = a.numStates)
    · intro i hi
      rw [size_iterate, hi]
    · intro i hi
      apply iterate_scheduled parallel exportStrategy d.maybe hi
    · apply StateSet.size_indicator
  have hsame : (settings.scheduled parallel exportStrategy).threshold = settings.threshold
      ∧ (settings.scheduled parallel exportStrategy).maxIterations = settings.maxIterations
      ∧ (settings.scheduled parallel exportStrategy).iteration = settings.iteration :=
    ⟨rfl, rfl, rfl⟩
  rw [converge, converge, hsame.1, hsame.2.1, hsame.2.2, hrun]
  split <;> rfl

end Arena

/-- A model in continuous time is run alike however the sweeps are scheduled. -/
theorem Ctmdp.runsAlike_scheduled [Arithmetic W] (m : Ctmdp V) (o : Objective)
    (settings : Settings W) :
  m.RunsAlike o (settings.scheduled parallel exportStrategy) settings
  where
  timedMethod := rfl
  discretisationError := rfl
  underflow := rfl
  overflow := rfl
  poissonAccuracy := rfl
  process := Arena.runsAlike_scheduled parallel exportStrategy
  discretised _ _ _ := Arena.runsAlike_scheduled parallel exportStrategy

end Runs

namespace Checker

/-- The checker with entries computed at once and choices kept, as the flags say. -/
def scheduled (checker : Checker W) (parallel exportStrategy : Bool) : Checker W :=
  ⟨checker.settings.scheduled parallel exportStrategy, checker.sink⟩

/-- Two checkers answer alike if the same numbers come of all their calls, or the same failures. -/
structure AnswersAlike (V : Type) [Arithmetic V] [Wide W] [Precision V W]
    (checker checker' : Checker W) : Prop where
  boundedReach : ∀ (a : Arena V) u k o init,
    (checker.boundedReach a u k o init).outcome.map BoundedRun.numbers
      = (checker'.boundedReach a u k o init).outcome.map BoundedRun.numbers
  reachWithin : ∀ (a : Arena V) u k o,
    (checker.reachWithin a u k o).outcome.map Solution.numbers
      = (checker'.reachWithin a u k o).outcome.map Solution.numbers
  boundedUntil : ∀ (a : Arena V) u bound o,
    (checker.boundedUntil a u bound o).outcome.map Solution.numbers
      = (checker'.boundedUntil a u bound o).outcome.map Solution.numbers
  unboundedUntil : ∀ (a : Arena V) u o,
    (checker.unboundedUntil a u o).outcome.map Solution.numbers
      = (checker'.unboundedUntil a u o).outcome.map Solution.numbers
  timedReach : ∀ (m : Ctmdp V) u t o,
    (checker.timedReach m u t o).outcome.map Solution.numbers
      = (checker'.timedReach m u t o).outcome.map Solution.numbers
  timedUntil : ∀ (m : Ctmdp V) u bound o,
    (checker.timedUntil m u bound o).outcome.map Solution.numbers
      = (checker'.timedUntil m u bound o).outcome.map Solution.numbers
  check : ∀ (m : Model V) labels query,
    (checker.check m labels query).outcome.map Solution.numbers
      = (checker'.check m labels query).outcome.map Solution.numbers

section Answers

variable [Wide W] [Precision V W] (checker : Checker W) (parallel exportStrategy : Bool)

omit [Wide W] in
/-- The numbers of an answer without a bound, or its failure, are the same however the sweeps are
scheduled. -/
theorem unboundedUntil_scheduled (a : Arena V) (u : Until) (o : Objective) :
  ((checker.scheduled parallel exportStrategy).unboundedUntil a u o).outcome.map Solution.numbers
    = (checker.unboundedUntil a u o).outcome.map Solution.numbers
  := by
  rw [unboundedUntil, unboundedUntil, Arena.unboundedRun, Arena.unboundedRun]
  cases (u.restrict a.numStates : Except (CheckError V W) Until) with
  | error e => rfl
  | ok u => apply Arena.map_converge_scheduled

/-- A checker answers alike however its sweeps are scheduled, and whether it keeps the choices or
not. -/
theorem answersAlike_scheduled :
  AnswersAlike V (checker.scheduled parallel exportStrategy) checker
  := by
  have harena : ∀ (a : Arena V) o,
      a.RunsAlike o (checker.scheduled parallel exportStrategy).settings checker.settings :=
    fun a o => Arena.runsAlike_scheduled parallel exportStrategy
  have htimed : ∀ (m : Ctmdp V) o,
      m.RunsAlike o (checker.scheduled parallel exportStrategy).settings checker.settings :=
    fun m o => m.runsAlike_scheduled parallel exportStrategy o checker.settings
  have hanswer : ∀ (m : Model V) u query,
      ((checker.scheduled parallel exportStrategy).answer m u query).outcome.map Solution.numbers
        = (checker.answer m u query).outcome.map Solution.numbers := by
    intro m u query
    obtain ⟨remain, target, interval, o⟩ := query
    cases m with
    | mdp m =>
        cases interval with
        | steps bound => exact (harena m.arena o).boundedUntil u bound
        | time bound => rfl
    | game g =>
        cases interval with
        | steps bound => exact (harena g.arena o).boundedUntil u bound
        | time bound => rfl
    | ctmdp m =>
        cases interval with
        | steps bound => rfl
        | time bound => exact (htimed m o).timedUntil u bound
  constructor
  · intro a u k o init
    apply (harena a o).boundedReach
  · intro a u k o
    apply (harena a o).reachWithin
  · intro a u bound o
    apply (harena a o).boundedUntil
  · intro a u o
    apply checker.unboundedUntil_scheduled
  · intro m u t o
    apply (htimed m o).timedReach
  · intro m u bound o
    apply (htimed m o).timedUntil
  · intro m labels query
    rw [check, check]
    split
    · rfl
    · split
      · rfl
      · apply hanswer

/-- The outcomes of a sweep into vectors with one place for each state agree, whatever these hold
before: in any order of the states, with all entries at once, and without a strategy.  So do rounds
that write into two vectors in turn and rounds that write into new ones.  Hence no call of a checker
has other numbers, or another failure, if its sweeps are scheduled in another way or the choices are
kept. -/
theorem schedules_agree :
  (∀ (a : Arena V) rewards o sel v result strategy, result.size = a.numStates →
      (∀ t ∈ strategy, t.size = a.numStates) → a.SweptAlike rewards o sel v result strategy)
    ∧ (∀ (a : Arena V) parallel o set start strategy k, start.size = a.numStates →
      Nat.repeat (a.swappingRound parallel o set) k ⟨start, start, strategy⟩
        = Nat.repeat (a.round parallel o set) k ⟨start, start, strategy⟩)
    ∧ AnswersAlike V (checker.scheduled parallel exportStrategy) checker
  := by
  refine ⟨?_, ?_, checker.answersAlike_scheduled parallel exportStrategy⟩
  · intro a rewards o sel v result strategy hresult hstrategy
    apply a.sweptAlike rewards o sel hresult hstrategy
  · intro a parallel o set start strategy k hsize
    apply Arena.repeat_swappingRound parallel o hsize

end Answers

/-- For the sample model in rounded arithmetic, a sweep of the second state into vectors that hold
something already, rounds over that state, and the calls of the checker with the settings by default
do not depend on how sweeps are scheduled. -/
theorem schedules_agree_rounded :
  let a := Ctmdp.rounded.arena
  let checker : Checker Float := ⟨Settings.default, .silent⟩
  a.SweptAlike none .max (.only (.ofList 2 [1])) #[1.0, 0.5] #[0.25, 0.75] (some #[some 3, none])
    ∧ (∀ k, Nat.repeat (a.swappingRound true .max (.ofList 2 [1])) k
          ⟨#[1.0, 0.5], #[1.0, 0.5], #[]⟩
        = Nat.repeat (a.round true .max (.ofList 2 [1])) k ⟨#[1.0, 0.5], #[1.0, 0.5], #[]⟩)
    ∧ AnswersAlike Float (checker.scheduled true true) checker
  := by
  intro a checker
  obtain ⟨hsweep, hswap, hanswers⟩ := schedules_agree (V := Float) checker true true
  refine ⟨?_, ?_, hanswers⟩
  · apply hsweep
    · rfl
    · rintro t ⟨⟩
      rfl
  · intro k
    apply hswap
    rfl

end Checker

end Reachability
