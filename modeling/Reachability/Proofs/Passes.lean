import Mathlib
import Reachability.Proofs.Cancellation
import Reachability.Proofs.Construction
import Reachability.Proofs.Sweep

/-!
# Gauss-Seidel passes

A pass goes through the selected states in ascending order and replaces the value of each by its
optimum, with the loops of choices solved for, so that later states see the new values of earlier
ones.  It leaves a vector as it is if and only if that vector has all these optima already
(`Arena.gaussSeidel_eq_self_iff`).

If the states can be updated in this order, each from values that are final by then
(`Arena.Ordered`), then one pass is enough: a second one changes nothing
(`Arena.exists_settling_pass`).  No law of arithmetic is needed for this, as both passes compute the
same values from the same values, except that the change of a value that stays is measured as zero.
-/

namespace Reachability

variable {V : Type} [Arithmetic V]

/-! ### Vectors that are long enough -/

/-- A selection is spanned by the vectors of a length that have entries for the selected states and
for all their successors. -/
def Selection.SpannedBy (sel : Selection) (a : Arena V) (length : Nat) : Prop :=
  ∀ s < a.numStates, sel.has s = true →
    s < length ∧ ∀ c < a.mdp.numChoices s, ∀ e ∈ a.mdp.successors s c, e.1 < length

instance (sel : Selection) (a : Arena V) (length : Nat) : Decidable (sel.SpannedBy a length) :=
  inferInstanceAs (Decidable (∀ s < a.numStates, sel.has s = true →
    s < length ∧ ∀ c < a.mdp.numChoices s, ∀ e ∈ a.mdp.successors s c, e.1 < length))

/-- Vectors with entries for all states span any selection. -/
theorem Mdp.Proper.spannedBy {a : Arena V} (ha : a.mdp.Proper) (sel : Selection) {length : Nat}
    (h : a.numStates ≤ length) :
  sel.SpannedBy a length
  := by
  intro s hs _
  constructor
  · apply Nat.lt_of_lt_of_le hs h
  · intro c _ e he
    apply Nat.lt_of_lt_of_le (ha.lt_numStates s c e he) h

/-- Writing a value into the place of a state changes nothing if and only if it is the value of that
state. -/
theorem setIfInBounds_eq_self_iff {v : Array V} {s : Nat} (hs : s < v.size) {x : V} :
  v.setIfInBounds s x = v ↔ x = valuation v s
  := by
  constructor
  · intro h
    rw [← h, valuation_setIfInBounds, if_pos ⟨rfl, hs⟩]
  · rintro rfl
    apply Array.ext_getElem?
    intro t
    rw [Array.getElem?_setIfInBounds]
    split
    · next h => rw [← h, getElem?_eq_valuation hs]
    · rfl

namespace Arena

variable {a : Arena V} {rewards : Option (Rewards V)} {o : Objective} {sel : Selection}
  {measure : ChangeMeasure}

omit [Arithmetic V] in
/-- A vector covers a state if it has entries for the successors of all its choices. -/
theorem covers_iff {length s : Nat} :
  a.covers length s = true
    ↔ ∀ c < a.mdp.numChoices s, ∀ e ∈ a.mdp.successors s c, e.1 < length
  := by
  simp [covers, allSuccessors]

/-- A pass over a vector that spans the selection has a result. -/
theorem gaussSeidel?_eq_some {v : Array V} (hv : sel.SpannedBy a v.size) :
  a.gaussSeidel? rewards o sel measure v = some (a.gaussSeidel rewards o sel measure v)
  := by
  apply if_pos
  rw [List.all_eq_true]
  intro s hs
  obtain ⟨hs, hsel⟩ := Selection.mem_filter_range.mp hs
  obtain ⟨hlt, hcovers⟩ := hv s hs hsel
  rw [Bool.and_eq_true, decide_eq_true_eq]
  exact ⟨hlt, covers_iff.mpr hcovers⟩

/-- A sweep from a vector that spans the selection has a result, if there are places for it. -/
theorem jacobi?_eq_some {v result : Array V} {strategy : Option Strategy}
    (hv : sel.SpannedBy a v.size)
    (hplaces : ∀ s < a.numStates, sel.has s = true →
      s < result.size ∧ ∀ t ∈ strategy, s < t.size) :
  a.jacobi? rewards o sel v result strategy
    = some ((a.jacobi rewards o sel v (result, strategy.getD #[])).1,
      strategy.map fun _ => (a.jacobi rewards o sel v (result, strategy.getD #[])).2)
  := by
  apply if_pos
  rw [List.all_eq_true]
  intro s hs
  obtain ⟨hs, hsel⟩ := Selection.mem_filter_range.mp hs
  obtain ⟨hresult, hstrategy⟩ := hplaces s hs hsel
  have hcovers := covers_iff.mpr (hv s hs hsel).2
  cases strategy with
  | none => simp [hresult, hcovers]
  | some t => simp [hresult, hcovers, hstrategy t rfl]

/-! ### Values that a pass leaves as they are -/

/-- A vector is settled at a state if the value of that state is its optimum, with the loops of its
choices solved for. -/
def SettledAt (a : Arena V) (rewards : Option (Rewards V)) (o : Objective) (v : Nat → V) (s : Nat) :
    Prop :=
  a.loopFreeOptimum rewards v (a.direction o s) s = v s

/-- The update of a state leaves a vector as it is if and only if that is settled there. -/
theorem relaxState_eq_self_iff {change : V} {v : Array V} {s : Nat} (hs : s < v.size) :
  (a.relaxState rewards o measure (change, v) s).2 = v ↔ a.SettledAt rewards o (valuation v) s
  := setIfInBounds_eq_self_iff hs

/-- A pass over different states leaves a vector as it is if and only if that is settled at all of
them. -/
theorem foldl_relaxState_eq_self_iff {states : List Nat} (hnodup : states.Nodup) {v : Array V}
    (hstates : ∀ s ∈ states, s < v.size) (change : V) :
  (states.foldl (a.relaxState rewards o measure) (change, v)).2 = v
    ↔ ∀ s ∈ states, a.SettledAt rewards o (valuation v) s
  := by
  induction states generalizing change with
  | nil => simp
  | cons s states ih =>
      obtain ⟨hfirst, hnodup⟩ := List.nodup_cons.mp hnodup
      obtain ⟨hs, hstates⟩ := List.forall_mem_cons.mp hstates
      rw [List.foldl_cons, List.forall_mem_cons]
      -- the rest of the pass does not go through `s`, so the value that `s` gets is there at the end
      have hvalue : valuation (states.foldl (a.relaxState rewards o measure)
            (a.relaxState rewards o measure (change, v) s)).2 s
          = a.loopFreeOptimum rewards (valuation v) (a.direction o s) s := by
        rw [valuation_foldl_relaxState measure states _ hfirst, valuation_relaxState hs,
          Function.update_self]
      have hstep : a.SettledAt rewards o (valuation v) s →
          a.relaxState rewards o measure (change, v) s
            = ((a.relaxState rewards o measure (change, v) s).1, v) :=
        fun hsettled => Prod.ext rfl ((relaxState_eq_self_iff hs).mpr hsettled)
      constructor
      · intro h
        rw [h] at hvalue
        use hvalue.symm
        rw [hstep hvalue.symm] at h
        apply (ih hnodup hstates _).mp h
      · rintro ⟨hsettled, hrest⟩
        rw [hstep hsettled]
        apply (ih hnodup hstates _).mpr hrest

/-- A pass leaves a vector as it is if and only if that is settled at all selected states. -/
theorem gaussSeidel_eq_self_iff {v : Array V} (hv : sel.SpannedBy a v.size) :
  (a.gaussSeidel rewards o sel measure v).2 = v
    ↔ ∀ s < a.numStates, sel.has s = true → a.SettledAt rewards o (valuation v) s
  := by
  rw [gaussSeidel, foldl_relaxState_eq_self_iff (List.nodup_range.filter _)]
  · simp only [Selection.mem_filter_range, and_imp]
  · intro s hs
    obtain ⟨hs, hsel⟩ := Selection.mem_filter_range.mp hs
    apply (hv s hs hsel).1

/-- A pass over states at which a vector is settled, with finite values, measures no change. -/
theorem foldl_relaxState_fst_eq_zero [Cancels V] {states : List Nat} {v : Array V}
    (hstates : ∀ s ∈ states, s < v.size ∧ a.SettledAt rewards o (valuation v) s
      ∧ Arithmetic.isFinite (valuation v s) = true) :
  states.foldl (a.relaxState rewards o measure) (0, v) = (0, v)
  := by
  induction states with
  | nil => rfl
  | cons s states ih =>
      obtain ⟨⟨hs, hsettled, hfinite⟩, hstates⟩ := List.forall_mem_cons.mp hstates
      have hzero : (a.relaxState rewards o measure (0, v) s).1 = 0 := by
        have hkept : a.loopFreeOptimum rewards (valuation v) (a.direction o s) s = valuation v s :=
          hsettled
        rw [relaxState, hkept, measure.change_self hfinite]
        simp only [Arithmetic.larger, ite_self]
      have hstep : a.relaxState rewards o measure (0, v) s = (0, v) :=
        Prod.ext hzero ((relaxState_eq_self_iff hs).mpr hsettled)
      rw [List.foldl_cons, hstep, ih hstates]

/-! ### Passes in the order of dependence -/

/-- The gain of a choice elsewhere depends on the values of other states only. -/
theorem escapeValue_congr {v w : Nat → V} {s c : Nat}
    (h : ∀ e ∈ a.mdp.successors s c, e.1 ≠ s → v e.1 = w e.1) :
  a.escapeValue rewards v s c = a.escapeValue rewards w s c
  := by
  apply List.foldl_ext
  rintro total ⟨t, p⟩ he
  dsimp only
  split
  · rfl
  · next hne => rw [h (t, p) he hne]

/-- The optimum of a state with the loops of its choices solved for depends on the values of its
successors other than itself only. -/
theorem loopFreeOptimum_congr {v w : Nat → V} {d : Direction} {s : Nat}
    (h : ∀ c < a.mdp.numChoices s, ∀ e ∈ a.mdp.successors s c, e.1 ≠ s → v e.1 = w e.1) :
  a.loopFreeOptimum rewards v d s = a.loopFreeOptimum rewards w d s
  := by
  have hvalues : (List.range (a.mdp.numChoices s)).map (a.loopFreeValue rewards v s)
      = (List.range (a.mdp.numChoices s)).map (a.loopFreeValue rewards w s) := by
    apply List.map_congr_left
    intro c hc
    rw [loopFreeValue, loopFreeValue, escapeValue_congr (h c (List.mem_range.mp hc))]
  rw [loopFreeOptimum, loopFreeOptimum, hvalues]

/-- The states of an arena are in the order of their dependence if every successor of a selected
state is that state itself, or not selected, or before it. -/
def Ordered (a : Arena V) (sel : Selection) : Prop :=
  ∀ s < a.numStates, sel.has s = true → ∀ c < a.mdp.numChoices s, ∀ e ∈ a.mdp.successors s c,
    e.1 = s ∨ sel.has e.1 = false ∨ e.1 < s

instance (a : Arena V) (sel : Selection) : Decidable (a.Ordered sel) :=
  inferInstanceAs (Decidable (∀ s < a.numStates, sel.has s = true → ∀ c < a.mdp.numChoices s,
    ∀ e ∈ a.mdp.successors s c, e.1 = s ∨ sel.has e.1 = false ∨ e.1 < s))

/-- A pass in ascending order over states that depend only on earlier ones, and on ones that it does
not go through, leaves a vector that is settled at all of them. -/
theorem settledAt_foldl_relaxState {states : List Nat} (hsorted : states.Pairwise (· < ·))
    (horder : ∀ s ∈ states, ∀ c < a.mdp.numChoices s, ∀ e ∈ a.mdp.successors s c,
      e.1 = s ∨ e.1 ∉ states ∨ e.1 < s)
    {acc : V × Array V} (hstates : ∀ s ∈ states, s < acc.2.size) :
  ∀ s ∈ states,
    a.SettledAt rewards o (valuation (states.foldl (a.relaxState rewards o measure) acc).2) s
  := by
  induction states generalizing acc with
  | nil =>
      intro s hs
      cases hs
  | cons s states ih =>
      obtain ⟨hlater, hsorted⟩ := List.pairwise_cons.mp hsorted
      obtain ⟨hfirst, hrest⟩ := List.forall_mem_cons.mp horder
      obtain ⟨hs, hstates⟩ := List.forall_mem_cons.mp hstates
      -- what the first update reads and writes is not touched by the rest of the pass
      have hkept : ∀ t ∉ states, valuation ((s :: states).foldl (a.relaxState rewards o measure) acc).2 t
          = Function.update (valuation acc.2) s
            (a.loopFreeOptimum rewards (valuation acc.2) (a.direction o s) s) t := by
        intro t ht
        rw [List.foldl_cons, valuation_foldl_relaxState measure states _ ht, valuation_relaxState hs]
      rw [List.forall_mem_cons]
      constructor
      · have hread : a.loopFreeOptimum rewards
              (valuation ((s :: states).foldl (a.relaxState rewards o measure) acc).2)
              (a.direction o s) s
            = a.loopFreeOptimum rewards (valuation acc.2) (a.direction o s) s := by
          apply loopFreeOptimum_congr
          intro c hc e he hne
          have hnot : e.1 ∉ states := by
            intro hmem
            obtain heq | hout | hlt := hfirst c hc e he
            · exact hne heq
            · exact hout (List.mem_cons_of_mem s hmem)
            · exact Nat.lt_asymm hlt (hlater e.1 hmem)
          rw [hkept e.1 hnot, Function.update_of_ne hne]
        rw [SettledAt, hread, hkept s fun hmem => Nat.lt_irrefl s (hlater s hmem),
          Function.update_self]
      · rw [List.foldl_cons]
        apply ih hsorted
        · intro t ht c hc e he
          apply (hrest t ht c hc e he).imp_right (Or.imp_left _)
          intro hout hmem
          apply hout (List.mem_cons_of_mem s hmem)
        · intro t ht
          rw [relaxState, Array.size_setIfInBounds]
          apply hstates t ht

/-- If the states are in the order of their dependence, then a pass leaves a vector that is settled
at all selected states. -/
theorem settledAt_gaussSeidel (horder : a.Ordered sel) {v : Array V}
    (hv : sel.SpannedBy a v.size) {s : Nat} (hs : s < a.numStates) (hsel : sel.has s = true) :
  a.SettledAt rewards o (valuation (a.gaussSeidel rewards o sel measure v).2) s
  := by
  apply settledAt_foldl_relaxState
  · apply List.pairwise_lt_range.filter
  · intro s hs c hc e he
    obtain ⟨hs, hsel⟩ := Selection.mem_filter_range.mp hs
    apply (horder s hs hsel c hc e he).imp_right (Or.imp_left _)
    intro hout hmem
    rw [(Selection.mem_filter_range.mp hmem).2] at hout
    cases hout
  · intro s hs
    obtain ⟨hs, hsel⟩ := Selection.mem_filter_range.mp hs
    apply (hv s hs hsel).1
  · apply Selection.mem_filter_range.mpr ⟨hs, hsel⟩

/-- If the states are in the order of their dependence, then a second pass leaves the vector as the
first one does, and it measures no change if the first one gives finite values. -/
theorem exists_settling_pass [Cancels V] (horder : a.Ordered sel) (rewards : Option (Rewards V))
    (o : Objective) (measure : ChangeMeasure) {v : Array V} (hv : sel.SpannedBy a v.size) :
  ∃ change w change', a.gaussSeidel? rewards o sel measure v = some (change, w)
    ∧ a.gaussSeidel? rewards o sel measure w = some (change', w)
    ∧ ((∀ s < a.numStates, sel.has s = true → Arithmetic.isFinite (valuation w s) = true) →
        change' = 0)
  := by
  let w := (a.gaussSeidel rewards o sel measure v).2
  have hsettled : ∀ s < a.numStates, sel.has s = true → a.SettledAt rewards o (valuation w) s :=
    fun s hs hsel => settledAt_gaussSeidel horder hv hs hsel
  have hw : sel.SpannedBy a w.size := by
    rw [show w.size = v.size from size_foldl_relaxState ..]
    apply hv
  have hsame : a.gaussSeidel rewards o sel measure w
      = ((a.gaussSeidel rewards o sel measure w).1, w) :=
    Prod.ext rfl ((gaussSeidel_eq_self_iff hw).mpr hsettled)
  refine ⟨_, w, (a.gaussSeidel rewards o sel measure w).1, gaussSeidel?_eq_some hv, ?_, ?_⟩
  · rw [gaussSeidel?_eq_some hw]
    apply congrArg some hsame
  · intro hfinite
    rw [gaussSeidel, foldl_relaxState_fst_eq_zero]
    intro s hs
    obtain ⟨hs, hsel⟩ := Selection.mem_filter_range.mp hs
    exact ⟨(hw s hs hsel).1, hsettled s hs hsel, hfinite s hs hsel⟩

end Arena

/-! ### A sample chain in rounded arithmetic -/

/-- A process of three states on numbers of 64 bits, each of which leads to the one before, with a
loop at the first and the last. -/
def Mdp.chain : Mdp Float where
  numStates := 3
  matrix := .ofStates 3 [[[(0, 1.0)]], [[(0, 1.0)]], [[(1, 0.1), (2, 0.9)]]]
  actions := #[none, none, none]
  initialStates := []

/-- One pass over the sample chain is enough. -/
theorem Arena.exists_settling_pass_chain :
  let a := Mdp.chain.arena
  let sel : Selection := ⟨some (.ofList 3 [0]), true⟩
  ∃ change w change', a.gaussSeidel? none .max sel .relative #[1.0, 0.0, 0.0] = some (change, w)
    ∧ a.gaussSeidel? none .max sel .relative w = some (change', w)
    ∧ change' = 0
  := by
  intro a sel
  let v : Array Float := #[1.0, 0.0, 0.0]
  have horder : a.Ordered sel := by decide +kernel
  have hspanned : sel.SpannedBy a v.size := by decide +kernel
  have hfinite : ∀ s < a.numStates, sel.has s = true → Arithmetic.isFinite
      (valuation (a.gaussSeidel none .max sel .relative v).2 s) = true := by decide +kernel
  obtain ⟨change, w, change', hfirst, hsecond, hzero⟩ :=
    exists_settling_pass horder none .max .relative hspanned
  have hw : (a.gaussSeidel none .max sel .relative v).2 = w := by
    rw [gaussSeidel?_eq_some hspanned, Option.some_inj] at hfirst
    rw [hfirst]
  exact ⟨change, w, change', hfirst, hsecond, hzero (hw ▸ hfinite)⟩

end Reachability
