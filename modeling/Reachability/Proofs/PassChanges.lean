import Mathlib
import Reachability.Proofs.Comparison
import Reachability.Proofs.Passes
import Reachability.Proofs.Precomputation

/-!
# What a pass reports

A Gauss-Seidel pass compares each value that it writes with the value that it overwrites.  As it
writes every entry at most once, the largest of these changes is that between the vectors before and
after the pass (`Arena.foldl_relaxState_fst`).  The entries past the states, which a pass leaves
alone, do not change and add zeros to the comparison of both vectors; these zeros do not matter,
since the maximum is a number that is not below zero (`Arithmetic.maximum_append_zeros`).

Hence an iteration stops by the same test whether its rounds are sweeps or passes
(`Model.pass_reports_maxChange`).
-/

namespace Reachability

variable {V W : Type} [Arithmetic V]

/-! ### The largest of values and zero -/

namespace Arithmetic

section Maximum

/-- A further value is compared with the largest one so far. -/
theorem maximum_concat (values : List V) (x : V) :
  maximum (values ++ [x]) = larger (maximum values) x
  := by
  rw [maximum, List.foldl_append]
  rfl

variable [RanksNumbers V]

/-- The largest of values and zero is a number, and it is not below zero. -/
theorem maximum_spec (values : List V) :
  isNaN (maximum values) = false ∧ ¬ maximum values < 0
  := by
  induction values using List.reverseRecOn with
  | nil => exact ⟨RanksNumbers.isNaN_zero, fun h => RanksNumbers.lt_asymm _ _ h h⟩
  | append_singleton values x ih =>
      obtain ⟨hnumber, hnonneg⟩ := ih
      rw [maximum_concat, larger, hnumber, if_neg Bool.false_ne_true]
      split
      · next hlt =>
          use RanksNumbers.isNaN_of_lt _ _ hlt
          intro hx
          obtain hneg | hpos := RanksNumbers.lt_or_lt _ _ _ RanksNumbers.isNaN_zero hlt
          · exact hnonneg hneg
          · exact RanksNumbers.lt_asymm _ _ hx hpos
      · exact ⟨hnumber, hnonneg⟩

/-- Zeros do not add to the largest of values and zero. -/
theorem maximum_append_zeros (values : List V) {zeros : List V} (hzeros : ∀ x ∈ zeros, x = 0) :
  maximum (values ++ zeros) = maximum values
  := by
  induction zeros using List.reverseRecOn with
  | nil => rw [List.append_nil]
  | append_singleton zeros x ih =>
      obtain ⟨hbefore, hx⟩ := List.forall_mem_append.mp hzeros
      obtain ⟨hnumber, hnonneg⟩ := maximum_spec (values ++ zeros)
      rw [← List.append_assoc, maximum_concat, hx x List.mem_cons_self, larger, hnumber,
        if_neg Bool.false_ne_true, if_neg hnonneg, ih hbefore]

end Maximum

end Arithmetic

/-! ### Changes between two vectors -/

/-- The changes between two vectors of one length, by states. -/
theorem ChangeMeasure.changes_eq_map (measure : ChangeMeasure) (sel : Selection)
    {old new : Array V} (h : new.size = old.size) :
  measure.changes sel old new
    = ((List.range old.size).filter sel.has).map fun s =>
      measure.change (valuation old s) (valuation new s)
  := by
  have hpairs : (old.zip new).toList.zipIdx
      = (List.range old.size).map fun s => ((valuation old s, valuation new s), s) := by
    apply List.ext_getElem
    · simp [h]
    · intro s hs hs'
      rw [List.length_map, List.length_range] at hs'
      simp [valuation, hs', h]
  rw [changes, hpairs, List.filter_map, List.map_map]
  rfl

namespace Arena

variable {a : Arena V} {rewards : Option (Rewards V)} {o : Objective} {sel : Selection}
  {measure : ChangeMeasure}

/-- A pass over different states reports the largest change between the vectors before and after
it, and what was reported before. -/
theorem foldl_relaxState_fst {states : List Nat} (hnodup : states.Nodup) {acc : V × Array V}
    (hstates : ∀ s ∈ states, s < acc.2.size) :
  (states.foldl (a.relaxState rewards o measure) acc).1
    = (states.map fun s => measure.change (valuation acc.2 s)
        (valuation (states.foldl (a.relaxState rewards o measure) acc).2 s)).foldl
      Arithmetic.larger acc.1
  := by
  induction states generalizing acc with
  | nil => rfl
  | cons s states ih =>
      obtain ⟨hfirst, hnodup⟩ := List.nodup_cons.mp hnodup
      obtain ⟨hs, hstates⟩ := List.forall_mem_cons.mp hstates
      let next := a.relaxState rewards o measure acc s
      have hsize : next.2.size = acc.2.size := Array.size_setIfInBounds
      -- the update of `s` is not overwritten, and what comes later has not been touched yet
      have hwritten : valuation (states.foldl (a.relaxState rewards o measure) next).2 s
          = a.loopFreeOptimum rewards (valuation acc.2) (a.direction o s) s := by
        rw [valuation_foldl_relaxState measure states _ hfirst, valuation_relaxState hs,
          Function.update_self]
      have hlater : ∀ t ∈ states, valuation next.2 t = valuation acc.2 t := by
        intro t ht
        rw [valuation_relaxState hs, Function.update_of_ne]
        rintro rfl
        exact hfirst ht
      have hchanges : (states.map fun t => measure.change (valuation next.2 t)
            (valuation (states.foldl (a.relaxState rewards o measure) next).2 t))
          = states.map fun t => measure.change (valuation acc.2 t)
            (valuation (states.foldl (a.relaxState rewards o measure) next).2 t) := by
        apply List.map_congr_left
        intro t ht
        rw [hlater t ht]
      rw [List.foldl_cons, List.map_cons, List.foldl_cons, ih hnodup (hsize ▸ hstates), hchanges,
        hwritten]
      rfl

/-- A pass changes no entry but those of selected states. -/
theorem getElem?_gaussSeidel (v : Array V) {s : Nat}
    (hs : ¬ (s < a.numStates ∧ sel.has s = true)) :
  (a.gaussSeidel rewards o sel measure v).2[s]? = v[s]?
  := by
  have hsize : (a.gaussSeidel rewards o sel measure v).2.size = v.size := size_gaussSeidel ..
  by_cases hlt : s < v.size
  · rw [getElem?_eq_valuation hlt, getElem?_eq_valuation (hsize ▸ hlt), gaussSeidel,
      valuation_foldl_relaxState]
    intro hmem
    exact hs (Selection.mem_filter_range.mp hmem)
  · rw [Array.getElem?_eq_none (by omega), Array.getElem?_eq_none (by omega)]

/-- A pass over a vector with finite entries past the states reports the largest change between the
vectors before and after it. -/
theorem gaussSeidel_fst [Cancels V] [RanksNumbers V] {v : Array V} (hv : a.numStates ≤ v.size)
    (hfinite : ∀ s, a.numStates ≤ s → s < v.size → sel.has s = true →
      Arithmetic.isFinite (valuation v s) = true) :
  (a.gaussSeidel rewards o sel measure v).1
    = measure.maxChange sel v (a.gaussSeidel rewards o sel measure v).2
  := by
  obtain ⟨k, hk⟩ := Nat.exists_eq_add_of_le hv
  rw [ChangeMeasure.maxChange, measure.changes_eq_map sel (size_gaussSeidel ..), hk,
    List.range_add, List.filter_append, List.map_append, Arithmetic.maximum_append_zeros]
  · apply foldl_relaxState_fst (List.nodup_range.filter _)
    intro s hs
    apply Nat.lt_of_lt_of_le (Selection.mem_filter_range.mp hs).1 hv
  · intro x hx
    obtain ⟨s, hs, rfl⟩ := List.mem_map.mp hx
    obtain ⟨hmem, hsel⟩ := List.mem_filter.mp hs
    obtain ⟨i, hi, rfl⟩ := List.mem_map.mp hmem
    have hkept : valuation (a.gaussSeidel rewards o sel measure v).2 (a.numStates + i)
        = valuation v (a.numStates + i) := by
      rw [valuation, valuation, getElem?_gaussSeidel v fun h => by omega]
    rw [hkept]
    apply measure.change_self
    apply hfinite _ (Nat.le_add_right _ _) _ hsel
    rw [List.mem_range] at hi
    omega

/-- A round of either kind on a vector of the states ends an iteration if the largest change between
the vectors before and after it is below the threshold. -/
theorem converged_iterate [Cancels V] [RanksNumbers V] (settings : Settings W) (maybe : StateSet)
    {i : Iterate V} (hsize : i.values.size = a.numStates) (threshold : V) :
  (a.iterate settings o maybe i).converged threshold
    = decide (settings.measure.maxChange (.only maybe) i.values
      (a.iterate settings o maybe i).values < threshold)
  := by
  rw [iterate]
  cases settings.iteration with
  | jacobi => rfl
  | gaussSeidel =>
      have hchange : (a.gaussSeidel none o (.only maybe) settings.measure i.values).1
          = settings.measure.maxChange (.only maybe) i.values
            (a.gaussSeidel none o (.only maybe) settings.measure i.values).2 := by
        apply gaussSeidel_fst hsize.ge
        intro s hs hlt
        omega
      exact congrArg (fun change => decide (change < threshold)) hchange

end Arena

/-- A pass over a vector with entries for all states, of which those past the states are finite,
changes no entry but those of selected states, and reports the largest change between the vectors
before and after it.  So the test that ends an iteration means the same for rounds of either kind:
that the largest change between the vectors before and after the round is below the threshold. -/
theorem Model.pass_reports_maxChange [Cancels V] [RanksNumbers V] {m : Model V} (hm : m.Built)
    (rewards : Option (Rewards V)) (o : Objective) (sel : Selection) (measure : ChangeMeasure)
    {v : Array V} (hv : m.numStates ≤ v.size)
    (hfinite : ∀ s, m.numStates ≤ s → s < v.size → sel.has s = true →
      Arithmetic.isFinite (valuation v s) = true) :
  (∃ change w, m.arena.gaussSeidel? rewards o sel measure v = some (change, w)
      ∧ w.size = v.size
      ∧ (∀ s, ¬ (s < m.numStates ∧ sel.has s = true) → w[s]? = v[s]?)
      ∧ change = measure.maxChange sel v w)
    ∧ ∀ (settings : Settings W) (maybe : StateSet) (i : Iterate V) (threshold : V),
      i.values.size = m.numStates →
      (m.arena.iterate settings o maybe i).converged threshold
        = decide (settings.measure.maxChange (.only maybe) i.values
          (m.arena.iterate settings o maybe i).values < threshold)
  := by
  rw [← m.numStates_arena] at *
  constructor
  · refine ⟨_, _, Arena.gaussSeidel?_eq_some (hm.proper_arena.spannedBy sel hv), ?_, ?_, ?_⟩
    · apply Arena.size_gaussSeidel
    · intro s hs
      apply Arena.getElem?_gaussSeidel v hs
    · apply Arena.gaussSeidel_fst hv hfinite
  · intro settings maybe i threshold hsize
    apply Arena.converged_iterate settings maybe hsize

/-- A pass over the sample model in rounded arithmetic, on a vector with an entry more than there
are states, reports the largest change that it makes, and a round of either kind on a vector of the
states is tested by the largest change. -/
theorem Model.pass_reports_maxChange_rounded :
  let m : Model Float := .ctmdp Ctmdp.rounded
  let v : Array Float := #[0.0, 1.0, 0.25]
  let i : Iterate Float := ⟨#[0.0, 1.0], #[0.0, 1.0], 0, none⟩
  (∃ change w, m.arena.gaussSeidel? none .max .all .relative v = some (change, w)
      ∧ w.size = v.size
      ∧ (∀ s, ¬ (s < m.numStates ∧ Selection.all.has s = true) → w[s]? = v[s]?)
      ∧ change = ChangeMeasure.relative.maxChange .all v w)
    ∧ ∀ (settings : Settings Float) (maybe : StateSet) (threshold : Float),
      (m.arena.iterate settings .max maybe i).converged threshold
        = decide (settings.measure.maxChange (.only maybe) i.values
          (m.arena.iterate settings .max maybe i).values < threshold)
  := by
  intro m v i
  have hfinite : ∀ s, m.numStates ≤ s → s < v.size → Selection.all.has s = true →
      Arithmetic.isFinite (valuation v s) = true := by
    intro s hs hlt _
    obtain rfl : s = 2 := Nat.le_antisymm (Nat.le_of_lt_succ hlt) hs
    decide +kernel
  have hv : m.numStates ≤ v.size := by decide
  obtain ⟨hpass, htest⟩ := Model.pass_reports_maxChange (W := Float) (m := m) Model.built_rounded
    none .max .all .relative hv hfinite
  use hpass
  intro settings maybe threshold
  apply htest settings maybe i threshold rfl

end Reachability
