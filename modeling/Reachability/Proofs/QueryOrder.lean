import Mathlib
import Reachability.Proofs.Bounded

/-!
# The order of queries

A query is extended by another one if that one has a larger target, lets a path visit more states,
target or not, and has players who maximise where those of the first one may minimise.

Extending a query takes states out of its zero states and adds states to its sure states
(`Arena.certainStates_extend`).  This follows from the graph alone: a state that was open is open
or in the target afterwards, and what is asked of all of its choices holds of some choice, since an
open state has one.  If the masses sum to one, then extending a query and allowing more steps makes
no value smaller (`Checker.exists_answers_extend`).
-/

namespace Reachability

/-- Minimising is below maximising. -/
instance : LE Direction where
  le d d' := d = d' ∨ d = .min ∧ d' = .max

/-- An objective is at most another one if the direction of each player is. -/
instance : LE Objective where
  le o o' := ∀ p, o.directionOf p ≤ o'.directionOf p

/-- A formula is extended by another one over the states of a model if the target is contained in
that of the other one, and so are the states that a path may visit, in the target or not. -/
structure Until.ExtendedBy (u u' : Until) (numStates : Nat) : Prop where
  target : ∀ s < numStates, u.target.contains s = true → u'.target.contains s = true
  visits : ∀ s < numStates, u.target.contains s = true ∨ u.remains s = true →
    u'.target.contains s = true ∨ u'.remains s = true

/-- A formula is extended by itself. -/
theorem Until.extendedBy_refl (u : Until) (numStates : Nat) :
  u.ExtendedBy u numStates
  := ⟨fun _ _ h => h, fun _ _ h => h⟩

/-- An objective is at most itself. -/
theorem Objective.le_refl (o : Objective) :
  o ≤ o
  := fun _ => Or.inl rfl

namespace Direction

variable {d d' : Direction} (hd : d ≤ d') {n : Nat}

include hd

/-- What a player who minimises is bound to, one who maximises can choose, if there are choices. -/
theorem Quantify.of_le (hn : 0 < n) {p : Nat → Prop} (h : d.Quantify n p) :
  d'.Quantify n p
  := by
  obtain rfl | ⟨rfl, rfl⟩ := hd
  · apply h
  · use 0, hn
    apply h 0 hn

/-- Larger values have a larger optimum for a larger direction. -/
theorem optimum_le_optimum {f g : Nat → ℝ} (h : ∀ c < n, f c ≤ g c) :
  d.optimum n f ≤ d'.optimum n g
  := by
  obtain rfl | hn := Nat.eq_zero_or_pos n
  · apply le_refl
  · apply (le_optimum_iff hn).mpr
    apply Quantify.of_le hd hn
    apply (le_optimum_iff hn).mp (optimum_mono h)

end Direction

/-! ### Zero states and sure states -/

namespace Arena

variable {V : Type} {a : Arena V} {u u' : Until} {o o' : Objective}

/-- A state that is open is in the target of an extended formula, or open for it. -/
theorem IsOpen.extend (hu : u.ExtendedBy u' a.numStates) {s : Nat} (h : a.IsOpen u s) :
  u'.target.contains s = true ∨ a.IsOpen u' s
  := by
  cases htarget : u'.target.contains s with
  | true => exact Or.inl rfl
  | false =>
      have hvisits := hu.visits s h.lt_numStates (Or.inr h.remains)
      rw [htarget] at hvisits
      right
      exact ⟨h.lt_numStates, htarget, hvisits.resolve_left Bool.false_ne_true, h.choices⟩

section Extend

variable (hu : u.ExtendedBy u' a.numStates) (ho : o ≤ o')

include hu ho

/-- A step of the search holds more states for an extended query and a weaker condition. -/
theorem decideStates_subset {condition condition' : List (Nat × V) → Bool}
    (hcondition : ∀ row, condition row = true → condition' row = true) :
  a.decideStates o.quantifiers condition (a.openStates u.remain u.target)
      (u.target.below a.numStates)
    ⊆ a.decideStates o'.quantifiers condition' (a.openStates u'.remain u'.target)
      (u'.target.below a.numStates)
  := by
  intro s hs
  rw [contains_decideStates_open] at hs ⊢
  obtain ⟨htarget, hs⟩ | ⟨hopen, hquantify⟩ := hs
  · left
    use hu.target s hs htarget, hs
  · apply (hopen.extend hu).imp
    · intro htarget
      use htarget, hopen.lt_numStates
    · intro hopen'
      use hopen'
      apply (hquantify.of_le (ho _) hopen.choices).mono
      intro c _
      apply hcondition

variable [Arithmetic V]

/-- More states are attracted for an extended query. -/
theorem attract_subset {x y : StateSet} (hxy : x ⊆ y) :
  a.attract u.remain u.target o x ⊆ a.attract u'.remain u'.target o' y
  := decideStates_subset hu ho fun _ => hits_mono hxy

/-- More states are attracted within a set for an extended query. -/
theorem attractWithin_subset {x x' y y' : StateSet} (hx : x ⊆ x') (hy : y ⊆ y') :
  a.attractWithin u.remain u.target o x y ⊆ a.attractWithin u'.remain u'.target o' x' y'
  := by
  apply decideStates_subset hu ho
  intro row hrow
  rw [reachesWithin, Bool.and_eq_true] at hrow ⊢
  exact ⟨staysIn_mono hx hrow.1, hits_mono hy hrow.2⟩

omit ho [Arithmetic V] in
/-- The target states of the model are target states of an extended formula. -/
theorem below_subset_below :
  u.target.below a.numStates ⊆ u'.target.below a.numStates
  := by
  intro s hs
  rw [StateSet.contains_below, Bool.and_eq_true, decide_eq_true_eq] at hs ⊢
  use hu.target s hs.2 hs.1, hs.2

/-- An extended query has more states with positive probability. -/
theorem positiveStates_subset :
  a.positiveStates u.remain u.target o ⊆ a.positiveStates u'.remain u'.target o'
  := by
  intro s hs
  rw [(a.contains_positiveStates _ _ s).2] at hs ⊢
  obtain ⟨i, hi⟩ := hs
  use i
  apply iterate_subset_iterate (fun _ _ => attract_subset hu ho) (below_subset_below hu) i s hi

/-- An extended query has fewer zero states. -/
theorem zeroStates_subset :
  a.zeroStates u'.remain u'.target o' ⊆ a.zeroStates u.remain u.target o
  := by
  intro s hs
  rw [contains_zeroStates_iff_positiveStates] at hs ⊢
  use hs.1
  intro hpositive
  apply hs.2
  apply positiveStates_subset hu ho s hpositive

/-- For an extended query, more states reach the target within a set. -/
theorem positiveWithin_subset {x x' : StateSet} (hx : x ⊆ x') :
  a.positiveWithin u.remain u.target o x ⊆ a.positiveWithin u'.remain u'.target o' x'
  := by
  intro s hs
  rw [(a.contains_positiveWithin _ _ _ s).2] at hs ⊢
  obtain ⟨i, hi⟩ := hs
  use i
  apply iterate_subset_iterate (fun _ _ => attractWithin_subset hu ho hx)
    (below_subset_below hu) i s hi

/-- All rounds of the outer search for an extended query keep the sure states of the query, since
these reach the target within themselves. -/
theorem sureStates_subset_iterate (i : Nat) :
  a.sureStates u.remain u.target o
    ⊆ (a.positiveWithin u'.remain u'.target o')^[i] (.full a.numStates)
  := by
  obtain ⟨-, -, -, hfixed⟩ := a.exists_sureStates u o
  induction i with
  | zero =>
      intro s hs
      rw [Function.iterate_zero_apply, StateSet.contains_full, decide_eq_true_eq]
      apply a.lt_numStates_of_contains_sureStates u o s hs
  | succ i ih =>
      intro s hs
      rw [Function.iterate_succ_apply']
      rw [← hfixed] at hs
      apply positiveWithin_subset hu ho ih s hs

/-- An extended query has more sure states. -/
theorem sureStates_subset :
  a.sureStates u.remain u.target o ⊆ a.sureStates u'.remain u'.target o'
  := by
  obtain ⟨j, -, hsure, -⟩ := a.exists_sureStates u' o'
  rw [hsure]
  apply sureStates_subset_iterate hu ho

end Extend

variable [Arithmetic V]

variable (a u o)

/-- Reaching the target within a set is reaching it. -/
theorem positiveWithin_subset_positiveStates (x : StateSet) :
  a.positiveWithin u.remain u.target o x ⊆ a.positiveStates u.remain u.target o
  := by
  intro s hs
  rw [(a.contains_positiveWithin u o x s).2] at hs
  rw [(a.contains_positiveStates u o s).2]
  obtain ⟨i, hi⟩ := hs
  use i
  apply iterate_subset_iterate _ (fun _ h => h) i s hi
  intro y z hyz
  apply decideStates_subset (u.extendedBy_refl _) o.le_refl
  intro row hrow
  rw [reachesWithin, Bool.and_eq_true] at hrow
  apply hits_mono hyz hrow.2

/-- The sure states have all target states of the model, only states of the target and states that
remain, and no zero state.  An extended query has fewer zero states and more sure states. -/
theorem certainStates_extend :
  (∀ s < a.numStates, u.target.contains s = true →
      (a.sureStates u.remain u.target o).contains s = true)
    ∧ (∀ s, (a.sureStates u.remain u.target o).contains s = true →
      u.target.contains s = true ∨ u.remains s = true)
    ∧ (∀ s, (a.sureStates u.remain u.target o).contains s = true →
      (a.zeroStates u.remain u.target o).contains s = false)
    ∧ ∀ u' o', u.ExtendedBy u' a.numStates → o ≤ o' →
      a.zeroStates u'.remain u'.target o' ⊆ a.zeroStates u.remain u.target o
        ∧ a.sureStates u.remain u.target o ⊆ a.sureStates u'.remain u'.target o'
  := by
  refine ⟨?_, ?_, ?_, ?_⟩
  · intro s
    apply a.contains_sureStates_of_target u o
  · intro s hs
    obtain ⟨htarget, -⟩ | ⟨hopen, -⟩ := (a.contains_sureStates_iff_attracted u o s).mp hs
    · exact Or.inl htarget
    · exact Or.inr hopen.remains
  · intro s hs
    obtain ⟨-, -, -, hfixed⟩ := a.exists_sureStates u o
    rw [← hfixed] at hs
    apply Bool.eq_false_iff.mpr
    intro hzero
    apply ((a.contains_zeroStates_iff_positiveStates u o).mp hzero).2
    apply a.positiveWithin_subset_positiveStates u o _ s hs
  · intro u' o' hu ho
    exact ⟨zeroStates_subset hu ho, sureStates_subset hu ho⟩

end Arena

/-- In the sample game all states may be visited, and the states `2` and `3` are to be reached. -/
def Until.wider : Until := ⟨none, .ofList 4 [2, 3]⟩

/-- The sample formula is extended by the wider one. -/
theorem Until.extendedBy_wider :
  sample.ExtendedBy wider Model.sample.numStates
  := by
  constructor
  · intro s _ hs
    simp only [sample, StateSet.contains_ofList, List.mem_cons, List.not_mem_nil, or_false,
      decide_eq_true_eq] at hs
    simp [wider, hs]
  · intro s _ _
    exact Or.inr rfl

/-- The wider formula is within the sample game. -/
theorem Until.within_wider :
  wider.Within Model.sample.numStates
  := by
  apply within_of_target
  apply StateSet.within_ofList
  decide

/-- The objective in which the players are opposed is at most that in which both maximise. -/
theorem Objective.opposed_le_max :
  opposed ≤ max
  := by
  rintro (_ | _)
  · exact Or.inl rfl
  · exact Or.inr ⟨rfl, rfl⟩

/-- The laws of certain states for the sample query, and for the wider one if both players
maximise. -/
theorem Arena.certainStates_extend_sample :
  Model.sample.arena.zeroStates Until.wider.remain Until.wider.target .max
      ⊆ Model.sample.arena.zeroStates Until.sample.remain Until.sample.target .opposed
    ∧ Model.sample.arena.sureStates Until.sample.remain Until.sample.target .opposed
      ⊆ Model.sample.arena.sureStates Until.wider.remain Until.wider.target .max
  := by
  obtain ⟨-, -, -, hextend⟩ := Model.sample.arena.certainStates_extend .sample .opposed
  apply hextend _ _ Until.extendedBy_wider Objective.opposed_le_max

/-! ### Values -/

namespace Arena

variable {a : Arena ℝ} {u u' : Until} {o o' : Objective} (ha : a.mdp.Proper)
  (hsum : a.mdp.Stochastic) (hu : u.ExtendedBy u' a.numStates) (ho : o ≤ o')

include ha hsum hu ho

/-- Where no value is larger, none is larger after one more step of an extended query. -/
theorem advance_le_advance {v w : Nat → ℝ} (hle : ∀ t < a.numStates, v t ≤ w t)
    (hone : ∀ t < a.numStates, v t ≤ 1) (hnonneg : ∀ t < a.numStates, 0 ≤ w t) {s : Nat}
    (hs : s < a.numStates) :
  a.advance u o v s ≤ a.advance u' o' w s
  := by
  cases htarget' : u'.target.contains s with
  | true =>
      rw [advance_target _ _ _ htarget']
      apply advance_le_one ha hsum hone
  | false =>
      have htarget : u.target.contains s = false := by
        apply Bool.eq_false_iff.mpr
        intro htarget
        rw [hu.target s hs htarget] at htarget'
        cases htarget'
      cases hremains : u.remains s with
      | true =>
          have hremains' : u'.remains s = true := by
            apply (hu.visits s hs (Or.inr hremains)).resolve_left
            rw [htarget']
            apply Bool.false_ne_true
          rw [advance_remains _ _ _ htarget hremains, advance_remains _ _ _ htarget' hremains',
            update_fst, update_fst]
          apply Direction.optimum_le_optimum (ho _)
          intro c _
          apply expectation_mono (ha.mass_pos s c)
          intro e he
          apply hle e.1 (ha.lt_numStates s c e he)
      | false =>
          rw [advance_outside _ _ _ htarget hremains]
          apply advance_nonneg ha hnonneg

/-- No value of a number of steps is above that of an extended query for the same number. -/
theorem stepValue_le_extend (k : Nat) {s : Nat} (hs : s < a.numStates) :
  a.stepValue u o k s ≤ a.stepValue u' o' k s
  := by
  induction k generalizing s with
  | zero =>
      rw [stepValue_zero]
      split
      · next htarget => rw [stepValue_target 0 (hu.target s hs htarget)]
      · apply stepValue_nonneg ha
  | succ k ih =>
      rw [stepValue_succ, stepValue_succ]
      apply advance_le_advance ha hsum hu ho (fun t ht => ih ht) _ _ hs
      · intro t _
        apply stepValue_le_one ha hsum
      · intro t _
        apply stepValue_nonneg ha

end Arena

namespace Checker

/-- If the masses of a model sum to one, then extending a query and allowing more steps makes the
answer smaller at no state. -/
theorem exists_answers_extend {W W' : Type} (checker : Checker W) (checker' : Checker W')
    {m : Model ℝ} (hm : m.Built) (hsum : m.process.Stochastic) {u u' : Until}
    (hu : u.Within m.numStates) (hu' : u'.Within m.numStates)
    (hextend : u.ExtendedBy u' m.numStates) {o o' : Objective} (ho : o ≤ o') :
  ∃ answer answer', checker.Answers m.arena u o answer ∧ checker'.Answers m.arena u' o' answer'
    ∧ ∀ k k', k ≤ k' → ∀ s < m.numStates,
      valuation (answer k).values s ≤ valuation (answer' k').values s
  := by
  have ha := hm.proper_arena
  rw [← m.mdp_arena] at hsum
  rw [← m.numStates_arena] at hu hu' hextend ⊢
  obtain ⟨answer, hanswers, hvalues⟩ := checker.exists_answers (o := o) ha hu
  obtain ⟨answer', hanswers', hvalues'⟩ := checker'.exists_answers (o := o') ha hu'
  refine ⟨answer, answer', hanswers, hanswers', ?_⟩
  intro k k' hk s hs
  rw [hvalues k s hs, hvalues' k' s hs]
  calc m.arena.stepValue u o k s
      ≤ m.arena.stepValue u' o' k s := Arena.stepValue_le_extend ha hsum hextend ho k hs
    _ ≤ m.arena.stepValue u' o' k' s := Arena.stepValue_mono ha s hk

/-- In the sample game, the wider query has no smaller answers than the sample query if both
players maximise. -/
theorem exists_answers_extend_sample :
  ∃ answer answer', sample.Answers Model.sample.arena .sample .opposed answer
    ∧ sample.Answers Model.sample.arena .wider .max answer'
    ∧ ∀ k k', k ≤ k' → ∀ s < Model.sample.numStates,
      valuation (answer k).values s ≤ valuation (answer' k').values s
  := sample.exists_answers_extend sample Model.built_sample Model.stochastic_sample
    Until.within_sample Until.within_wider Until.extendedBy_wider Objective.opposed_le_max

end Checker

end Reachability
