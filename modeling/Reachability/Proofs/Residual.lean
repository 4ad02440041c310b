import Mathlib
import Reachability.Proofs.Unbounded

/-!
# How far an answer is from a fixed point

The test that ends an iteration sees only the changes of the last round, and of these only the
ones at the states that are iterated.  If they are below a bound, then one more update moves no
state by more than the bound: this holds after a Jacobi round (`Arena.residual_round`) and after a
Gauss-Seidel round, in which each state was updated from a vector of its own
(`Arena.residual_gaussSeidel`).  At the states that are known from the start an update moves
nothing at all (`Arena.update_known`).

Hence the values of any answer without a bound are moved by less than the threshold
(`Checker.residual_lt_threshold`).
-/

namespace Reachability

/-! ### Values that are near to each other -/

/-- Expected values are as near to each other as the values are, times the mass of the row. -/
theorem abs_expectation_sub_le {row : List (Nat × ℝ)} {v w : Nat → ℝ} {x : ℝ}
    (hrow : ∀ e ∈ row, 0 < e.2) (h : ∀ e ∈ row, |w e.1 - v e.1| ≤ x) :
  |expectation row w - expectation row v| ≤ (row.map Prod.snd).sum * x
  := by
  have hupper := expectation_mono (v := fun s => w s - x) (w := v) hrow
    fun e he => sub_le_comm.mp (abs_sub_le_iff.mp (h e he)).1
  have hlower := expectation_mono (v := fun s => v s - x) (w := w) hrow
    fun e he => sub_le_comm.mp (abs_sub_le_iff.mp (h e he)).2
  rw [expectation_sub_const] at hupper hlower
  rw [abs_sub_le_iff]
  constructor
  · linarith
  · linarith

/-- Two optima are within `x` of each other if a value that attains the first one is not below it
by more than `x` for the second, and a value that exceeds it by more than `x` for the second
exceeds it for the first. -/
theorem Direction.abs_optimum_sub_le {d : Direction} {n : Nat} {f g : Nat → ℝ} {x : ℝ}
    (hx : 0 ≤ x) (hlower : ∀ c < n, d.optimum n f ≤ f c → d.optimum n f - x ≤ g c)
    (hupper : ∀ c < n, d.optimum n f + x < g c → d.optimum n f < f c) :
  |d.optimum n g - d.optimum n f| ≤ x
  := by
  obtain rfl | hn := Nat.eq_zero_or_pos n
  · rw [optimum_zero, optimum_zero, sub_zero, abs_zero]
    apply hx
  · rw [abs_sub_le_iff]
    constructor
    · apply sub_le_iff_le_add'.mpr
      apply le_of_not_gt
      intro hlt
      apply lt_irrefl (d.optimum n f)
      apply (lt_optimum_iff hn).mpr
      apply ((lt_optimum_iff hn).mp hlt).mono hupper
    · apply sub_le_comm.mp
      apply (le_optimum_iff hn).mpr
      apply ((le_optimum_iff hn).mp (le_refl (d.optimum n f))).mono hlower

namespace Arena

variable {a : Arena ℝ} {u : Until} {o : Objective} {maybe : StateSet}

section Nearby

variable (ha : a.mdp.Proper) (hsum : a.mdp.Stochastic) {v w : Nat → ℝ} {x : ℝ} (hx : 0 ≤ x)
  (h : ∀ t < a.numStates, |w t - v t| ≤ x)

include ha hsum h

/-- The gains of a choice elsewhere are as near to each other as the values are, times the mass
that leads away. -/
theorem abs_escapeValue_sub_le {s c : Nat} (hc : c < a.mdp.numChoices s) :
  |a.escapeValue none w s c - a.escapeValue none v s c| ≤ a.escapeMass s c * x
  := by
  rw [escapeValue_eq, escapeValue_eq, escapeMass_eq hsum hc]
  apply abs_expectation_sub_le (mass_pos_leaving ha)
  intro e he
  apply h e.1 (ha.lt_numStates s c e (mem_of_mem_leaving e he))

include hx

/-- Updates are as near to each other as the values that they are computed from. -/
theorem abs_update_sub_le (s : Nat) :
  |(a.update none o w s).1 - (a.update none o v s).1| ≤ x
  := by
  have hnear : ∀ c < a.mdp.numChoices s,
      |expectation (a.mdp.successors s c) w - expectation (a.mdp.successors s c) v| ≤ x := by
    intro c hc
    rw [← one_mul x, ← hsum s c hc]
    apply abs_expectation_sub_le (ha.mass_pos s c)
    intro e he
    apply h e.1 (ha.lt_numStates s c e he)
  rw [update_fst, update_fst]
  apply Direction.abs_optimum_sub_le hx
  · intro c hc hle
    have hnear := (abs_sub_le_iff.mp (hnear c hc)).2
    linarith
  · intro c hc hlt
    have hnear := (abs_sub_le_iff.mp (hnear c hc)).1
    linarith

/-- If the value of a state was computed with the loops solved for, from values that are near to
those of all states, then one more update moves it no farther than they are apart. -/
theorem abs_update_sub_loopFreeOptimum_le {s : Nat}
    (hs : w s = a.loopFreeOptimum none v (a.direction o s) s) :
  |(a.update none o w s).1 - w s| ≤ x
  := by
  have hoptimum : w s
      = (a.direction o s).optimum (a.mdp.numChoices s) (a.loopFreeValue none v s) := hs
  rw [update_fst, hoptimum]
  apply Direction.abs_optimum_sub_le hx
  all_goals
    intro c hc
    rw [← hoptimum, loopFreeValue]
    have hone := mul_le_of_le_one_left hx (escapeMass_le_one ha hsum hc)
    obtain ⟨hupper, hlower⟩ := abs_sub_le_iff.mp (abs_escapeValue_sub_le ha hsum h hc)
  · intro hle
    split at hle
    · next hmass =>
        rw [le_div_iff₀ hmass] at hle
        rw [expectation_eq_escape hsum hc]
        linarith
    · next hmass =>
        rw [(escapeValue_eq_zero ha hsum hc hmass w).2]
        linarith
  · intro hlt
    split
    · next hmass =>
        rw [expectation_eq_escape hsum hc] at hlt
        rw [lt_div_iff₀ hmass]
        linarith
    · next hmass =>
        rw [(escapeValue_eq_zero ha hsum hc hmass w).2] at hlt
        linarith

end Nearby

end Arena

/-- The change of a selected state between two vectors that have entries for it is below a bound
of the largest change. -/
theorem ChangeMeasure.change_lt {measure : ChangeMeasure} {sel : Selection} {old new : Array ℝ}
    {x : ℝ} (h : measure.maxChange sel old new < x) {s : Nat} (hold : s < old.size)
    (hnew : s < new.size) (hs : sel.has s = true) :
  measure.change (valuation old s) (valuation new s) < x
  := by
  apply (Arithmetic.maximum_lt_iff.mp h).2
  apply List.mem_map.mpr ⟨((valuation old s, valuation new s), s), _, rfl⟩
  refine List.mem_filter.mpr ⟨?_, hs⟩
  apply List.mk_mem_zipIdx_iff_getElem?.mpr
  rw [Array.getElem?_toList, Array.getElem?_zip_eq_some]
  exact ⟨getElem?_eq_valuation hold, getElem?_eq_valuation hnew⟩

namespace Arena

section Round

variable {a : Arena ℝ} {u : Until} {o : Objective} {maybe : StateSet} {x : ℝ}

/-- If a Jacobi round over a set changed no value of it by `x` or more, then one more update moves
no state of the set by more than `x`. -/
theorem residual_round (ha : a.mdp.Proper) (hsum : a.mdp.Stochastic)
    (parallel : Bool) {p : Progress ℝ} (hsize : p.current.size = a.numStates)
    (hchange : ChangeMeasure.absolute.maxChange (.only maybe) p.current
      (a.round parallel o maybe p).current < x)
    {s : Nat} (hs : s < a.numStates) (hin : maybe.contains s = true) :
  |(a.update none o (valuation (a.round parallel o maybe p).current) s).1
      - valuation (a.round parallel o maybe p).current s| ≤ x
  := by
  have hx : 0 ≤ x := (Arithmetic.maximum_lt_iff.mp hchange).1.le
  have hvalue := fun t ht => a.valuation_round o parallel maybe p t ht hsize
  have hnear : ∀ t < a.numStates, |valuation (a.round parallel o maybe p).current t
      - valuation p.current t| ≤ x := by
    intro t ht
    cases hmem : maybe.contains t with
    | true =>
        apply le_of_lt
        apply ChangeMeasure.change_lt hchange (hsize ▸ ht)
        · rw [size_round, hsize]
          apply ht
        · rw [Selection.has_only, hmem]
    | false =>
        rw [hvalue t ht, hmem, if_neg Bool.false_ne_true, sub_self, abs_zero]
        apply hx
  have h := abs_update_sub_le (o := o) ha hsum hx hnear s
  rw [hvalue s hs, if_pos hin] at *
  apply h

section GaussSeidel

variable (measure : ChangeMeasure) (states : List Nat)

/-- The largest change of a sweep is below a bound only if the one before the sweep is. -/
theorem fst_lt_of_foldl_relaxState {acc : ℝ × Array ℝ}
    (h : (states.foldl (a.relaxState none o measure) acc).1 < x) :
  acc.1 < x
  := by
  induction states generalizing acc with
  | nil => apply h
  | cons s states ih => apply (Arithmetic.larger_lt_iff.mp (ih h)).1

end GaussSeidel

/-- If a Gauss-Seidel sweep found no change of `x` or more, then it moved no value by more than
`x`, and the values that it computed come from vectors that are as near to the last one. -/
theorem nearby_foldl_relaxState {states : List Nat} (hnodup : states.Nodup) {acc : ℝ × Array ℝ}
    (hstates : ∀ s ∈ states, s < acc.2.size)
    (hchange : (states.foldl (a.relaxState none o .absolute) acc).1 < x) (hx : 0 ≤ x) :
  (∀ t, |valuation (states.foldl (a.relaxState none o .absolute) acc).2 t - valuation acc.2 t| ≤ x)
    ∧ ∀ s ∈ states, ∃ v,
      (∀ t, |valuation (states.foldl (a.relaxState none o .absolute) acc).2 t - v t| ≤ x)
      ∧ valuation (states.foldl (a.relaxState none o .absolute) acc).2 s
        = a.loopFreeOptimum none v (a.direction o s) s
  := by
  induction states generalizing acc with
  | nil =>
      constructor
      · intro t
        rw [List.foldl_nil, sub_self, abs_zero]
        apply hx
      · intro s hs
        cases hs
  | cons s states ih =>
      obtain ⟨hfirst, hnodup⟩ := List.nodup_cons.mp hnodup
      obtain ⟨hs, hstates⟩ := List.forall_mem_cons.mp hstates
      rw [List.foldl_cons] at hchange ⊢
      have hvalue : valuation (a.relaxState none o .absolute acc s).2 = _ := valuation_relaxState hs
      have hmoved := (Arithmetic.larger_lt_iff.mp
        (fst_lt_of_foldl_relaxState .absolute states hchange)).2
      have hstates' : ∀ t ∈ states, t < (a.relaxState none o .absolute acc s).2.size := by
        intro t ht
        rw [relaxState, Array.size_setIfInBounds]
        apply hstates t ht
      obtain ⟨ihnear, ihfrom⟩ := ih hnodup hstates' hchange
      have hlast : valuation (states.foldl (a.relaxState none o .absolute)
            (a.relaxState none o .absolute acc s)).2 s
          = valuation (a.relaxState none o .absolute acc s).2 s :=
        valuation_foldl_relaxState .absolute states _ hfirst
      rw [hvalue, Function.update_self] at hlast
      have hnear : ∀ t, |valuation (states.foldl (a.relaxState none o .absolute)
          (a.relaxState none o .absolute acc s)).2 t - valuation acc.2 t| ≤ x := by
        intro t
        obtain rfl | hts := eq_or_ne t s
        · rw [hlast]
          apply hmoved.le
        · have h := ihnear t
          rw [hvalue, Function.update_of_ne hts] at h
          apply h
      use hnear
      apply List.forall_mem_cons.mpr ⟨_, ihfrom⟩
      use valuation acc.2, hnear, hlast

/-- If a Gauss-Seidel sweep of a set found no change of `x` or more, then one more update moves no
state of the set by more than `x`. -/
theorem residual_gaussSeidel (ha : a.mdp.Proper) (hsum : a.mdp.Stochastic)
    {v : Array ℝ} (hsize : v.size = a.numStates)
    (hchange : (a.gaussSeidel none o (.only maybe) .absolute v).1 < x)
    {s : Nat} (hs : s < a.numStates) (hin : maybe.contains s = true) :
  |(a.update none o (valuation (a.gaussSeidel none o (.only maybe) .absolute v).2) s).1
      - valuation (a.gaussSeidel none o (.only maybe) .absolute v).2 s| ≤ x
  := by
  have hx : 0 ≤ x := (fst_lt_of_foldl_relaxState .absolute _ hchange).le
  obtain ⟨-, hfrom⟩ := nearby_foldl_relaxState (List.nodup_range.filter _)
    (fun t ht => hsize ▸ (Selection.mem_filter_only.mp ht).1) hchange hx
  obtain ⟨w, hnear, hvalue⟩ := hfrom s (Selection.mem_filter_only.mpr ⟨hs, hin⟩)
  apply abs_update_sub_loopFreeOptimum_le ha hsum hx (fun t _ => hnear t) hvalue

/-- If a round of either kind has made an absolute change below a bound, then the bound is
positive, and one more update moves no state that is iterated by as much. -/
theorem residual_iterate (ha : a.mdp.Proper) (hsum : a.mdp.Stochastic) {W : Type}
    (settings : Settings W) (hmeasure : settings.measure = .absolute) {i : Iterate ℝ}
    (hsize : i.values.size = a.numStates)
    (hconverged : (a.iterate settings o maybe i).converged x = true) :
  0 < x ∧ ∀ s < a.numStates, maybe.contains s = true →
    |(a.update none o (valuation (a.iterate settings o maybe i).values) s).1
      - valuation (a.iterate settings o maybe i).values s| < x
  := by
  rw [iterate, hmeasure] at hconverged ⊢
  cases hiteration : settings.iteration with
  | jacobi =>
      rw [hiteration] at hconverged
      obtain ⟨y, hchange, hy⟩ := exists_between (of_decide_eq_true hconverged)
      use lt_trans (Arithmetic.maximum_lt_iff.mp hchange).1 hy
      intro s hs hin
      apply lt_of_le_of_lt _ hy
      apply residual_round ha hsum settings.parallel hsize hchange hs hin
  | gaussSeidel =>
      rw [hiteration] at hconverged
      obtain ⟨y, hchange, hy⟩ := exists_between (of_decide_eq_true hconverged)
      use lt_trans (fst_lt_of_foldl_relaxState .absolute _ hchange) hy
      intro s hs hin
      apply lt_of_le_of_lt _ hy
      apply residual_gaussSeidel ha hsum hsize hchange hs hin

end Round

/-! ### The states that are known -/

section Known

variable {a : Arena ℝ} {u : Until} {o : Objective} (ha : a.mdp.Proper) (hsum : a.mdp.Stochastic)
  {s : Nat} {v : Nat → ℝ}

include ha hsum

/-- If the values of all sure states are one, then the update of a sure state that is not in the
target is at least one. -/
theorem one_le_update (hv : ∀ t, (a.sureStates u.remain u.target o).contains t = true → v t = 1)
    (hs : (a.sureStates u.remain u.target o).contains s = true)
    (htarget : u.target.contains s = false) :
  1 ≤ (a.update none o v s).1
  := by
  rw [contains_sureStates_iff_attracted, htarget] at hs
  obtain ⟨⟨⟩, -⟩ | ⟨hopen, hquantify⟩ := hs
  rw [update_fst]
  apply (Direction.le_optimum_iff hopen.choices).mpr
  apply hquantify.mono
  rintro c hc ⟨hstays, -⟩
  have hone : ∀ e ∈ a.mdp.successors s c, v e.1 = 1 :=
    fun e he => hv e.1 ((staysIn_iff (ha.mass_pos s c)).mp hstays e he)
  rw [expectation_congr (w := fun _ => 1) hone, expectation_real]
  simp only [mul_one]
  apply (hsum s c hc).ge

/-- If the values of a vector are bracketed, then at the states that are known from the start an
update changes nothing. -/
theorem update_known {W : Type} (settings : Settings W) {steps : Nat → Nat}
    (h : a.Bracketed u o (a.decided settings u o).maybe steps v) (hs : s < a.numStates)
    (htarget : u.target.contains s = false) (hremains : u.remains s = true)
    (hknown : (a.decided settings u o).maybe.contains s = false) :
  (a.update none o v s).1 = v s
  := by
  apply le_antisymm
  · rw [h.known s hs hknown]
    apply update_le_limitValue ha hsum hs htarget hremains h.upper
  · rw [h.known s hs hknown, limitValue_known settings ha hsum hs hknown]
    split
    · next hyes =>
        rw [decided] at hyes
        split at hyes
        · next hprecomputation =>
            apply one_le_update ha hsum _ hyes htarget
            intro t ht
            rw [h.known t (a.lt_numStates_of_contains_sureStates u o t ht)]
            · apply limitValue_sure ha hsum ht
            · apply Bool.eq_false_iff.mpr
              intro hmaybe
              have hno := (Until.contains_unknown.mp hmaybe).2.2.1
              rw [if_pos hprecomputation, ht] at hno
              cases hno
        · rw [htarget] at hyes
          cases hyes
    · rw [update_fst]
      apply Direction.optimum_nonneg
      intro c _
      apply expectation_nonneg (ha.mass_pos s c)
      intro e he
      have hlt := ha.lt_numStates s c e he
      apply le_trans (stepValue_nonneg ha _ e.1) (h.lower e.1 hlt)

end Known

end Arena

/-! ### Answers -/

/-- A run that has converged, and had made no change to start with, ends with a round, before
which what the rounds keep of the start held, too. -/
theorem Iterate.exists_of_converged {V : Type} [Arithmetic V] {threshold : V}
    {step : Iterate V → Iterate V} {p : Iterate V → Prop} (hstep : ∀ i, p i → p (step i))
    {rounds : Nat} {i : Iterate V} (hstart : p i) (hnone : i.change = none)
    (h : (i.run threshold step rounds).converged threshold = true) :
  ∃ j, p j ∧ i.run threshold step rounds = step j
  := by
  have hlast : p (i.run threshold step rounds) ∧ ((i.run threshold step rounds).change = none
      ∨ ∃ j, p j ∧ i.run threshold step rounds = step j) := by
    apply run_induction (p := fun i => p i ∧ (i.change = none ∨ ∃ j, p j ∧ i = step j))
    · intro j hj
      exact ⟨hstep j hj.1, Or.inr ⟨j, hj.1, rfl⟩⟩
    · exact ⟨hstart, Or.inl hnone⟩
  obtain ⟨-, hnone | hlast⟩ := hlast
  · rw [converged, hnone] at h
    cases h
  · apply hlast

namespace Arena

variable {a : Arena ℝ} {u : Until} {o : Objective}

variable {W : Type} [Precision ℝ W]

/-- The values of an iteration that converges are those of its last round. -/
theorem exists_iterate_of_converge (settings : Settings W) {d : Decided} {solution : Solution ℝ}
    (h : a.converge settings o d = .ok solution) :
  ∃ i, i.values.size = a.numStates
    ∧ (a.iterate settings o d.maybe i).converged (Precision.narrow settings.threshold) = true
    ∧ solution.values = (a.iterate settings o d.maybe i).values
  := by
  rw [converge] at h
  split at h
  · next hconverged =>
      cases h
      obtain ⟨i, hsize, hlast⟩ := Iterate.exists_of_converged
        (p := fun i => i.values.size = a.numStates)
        (fun i hi => (a.size_iterate settings d.maybe i).trans hi)
        (StateSet.size_indicator d.yes a.numStates) rfl hconverged
      rw [hlast] at hconverged ⊢
      use i, hsize, hconverged
  · cases h

/-- One more update of the values of an iteration that converges by the absolute change moves no
state that remains and is not in the target by as much as the threshold. -/
theorem residual_of_converge (ha : a.mdp.Proper) (hsum : a.mdp.Stochastic)
    (settings : Settings W) (hmeasure : settings.measure = .absolute) {solution : Solution ℝ}
    (h : a.converge settings o (a.decided settings u o) = .ok solution) {s : Nat}
    (hs : s < a.numStates) (htarget : u.target.contains s = false) (hremains : u.remains s = true) :
  |(a.update none o (valuation solution.values) s).1 - valuation solution.values s|
    < Precision.narrow settings.threshold
  := by
  obtain ⟨-, hbracketed⟩ := bracketed_of_converge settings ha hsum h
  obtain ⟨i, hsize, hconverged, hvalues⟩ := exists_iterate_of_converge settings h
  obtain ⟨hpos, hresidual⟩ := residual_iterate ha hsum settings hmeasure hsize hconverged
  cases hmaybe : (a.decided settings u o).maybe.contains s with
  | true =>
      rw [hvalues]
      apply hresidual s hs hmaybe
  | false =>
      rw [update_known ha hsum settings hbracketed hs htarget hremains hmaybe, sub_self, abs_zero]
      apply hpos

end Arena

/-- One more Jacobi update of an answer without a bound, which was found with the absolute
change, moves the value of no state that remains and is not in the target by as much as the
threshold. -/
theorem Checker.residual_lt_threshold {W : Type} [Wide W] [Precision ℝ W] (checker : Checker W)
    {u : Until} {o : Objective} {m : Model ℝ} (hm : m.Built) (hsum : m.process.Stochastic)
    (hmeasure : checker.settings.measure = .absolute) {solution : Solution ℝ}
    (h : (checker.unboundedUntil m.arena u o).outcome = .ok solution) :
  solution.values.size = m.numStates
    ∧ ∀ s < m.numStates, u.target.contains s = false → u.remains s = true →
      |valuation (m.arena.jacobi none o .all solution.values (solution.values, #[])).1 s
        - valuation solution.values s| < Precision.narrow checker.settings.threshold
  := by
  have ha := hm.proper_arena
  rw [← m.mdp_arena] at hsum
  rw [← m.numStates_arena]
  obtain ⟨-, h⟩ := checker.unboundedUntil_eq_ok_iff.mp h
  have hsize := (Arena.bracketed_of_converge checker.settings ha hsum h).1
  use hsize
  intro s hs htarget hremains
  rw [m.arena.valuation_jacobi none o _ _ _ s hs hsize]
  apply Arena.residual_of_converge ha hsum checker.settings hmeasure h hs
  · rw [Until.contains_target_resized, htarget]
  · rw [Until.remains_resized, hremains]

/-- One more Jacobi update of the answer of the hasty checker to the sample query moves no value of
a state that remains and is not in the target by two or more. -/
theorem Checker.residual_lt_threshold_sample :
  ∃ solution, (hasty.unboundedUntil Model.sample.arena .sample .opposed
      : Account ℝ ℝ (Solution ℝ)).outcome = .ok solution
    ∧ solution.values.size = Model.sample.numStates
    ∧ ∀ s < Model.sample.numStates, Until.sample.target.contains s = false →
      Until.sample.remains s = true →
      |valuation (Model.sample.arena.jacobi none .opposed .all solution.values
          (solution.values, #[])).1 s
        - valuation solution.values s| < Precision.narrow hasty.settings.threshold
  := by
  obtain ⟨solution, h⟩ := exists_unboundedUntil_hasty
  exact ⟨solution, h, hasty.residual_lt_threshold Model.built_sample Model.stochastic_sample rfl h⟩

end Reachability
