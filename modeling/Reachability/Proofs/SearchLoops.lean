import Mathlib
import Reachability.Proofs.Attraction
import Reachability.Proofs.Loops

/-!
# The loops of the searches

The searches for the states with probability zero and one are loops without a bound on their passes:
a pass computes a set from the one at hand and ends the loop if they have the same states
(`SearchPass`).  For the states with probability one there is an inner loop in every pass of the
outer one.

The sets at which passes are made are rebuilt from the target each time, and still they are strictly
ordered: those of the first search and of the inner loop ascend, and those of the outer loop descend,
since the steps are monotone.  So each of the loops ends after at most one pass more than there are
states (`Arena.searches_end`), and it ends with the set that is found in a limited number of steps.
-/

namespace Reachability

/-! ### Sets that grow or shrink -/

namespace StateSet

/-- A set is a strict subset of another one if that one has further states. -/
instance : HasSSubset StateSet where
  SSubset x y := x ⊆ y ∧ ¬ y ⊆ x

variable {x y z : StateSet}

/-- A larger set that has other states is strictly larger. -/
theorem ssubset_of_subset (h : x ⊆ y) (hne : x.sameStates y = false) :
  x ⊂ y
  := by
  use h
  intro hyx
  apply Bool.eq_false_iff.mp hne
  apply sameStates_iff.mpr
  intro s
  rw [Bool.eq_iff_iff]
  exact ⟨h s, hyx s⟩

/-- Of three sets that grow, the last one is strictly larger than the first one. -/
theorem ssubset_trans (hxy : x ⊂ y) (hyz : y ⊂ z) :
  x ⊂ z
  := by
  constructor
  · intro s hs
    apply hyz.1 s (hxy.1 s hs)
  · intro hzx
    apply hyz.2
    intro s hs
    apply hxy.1 s (hzx s hs)

/-- Having the same states goes both ways. -/
theorem sameStates_comm :
  x.sameStates y = y.sameStates x
  := by
  rw [sameStates, sameStates, Bool.beq_comm]

/-! ### Room for states -/

/-- There is as much room after a state was removed. -/
theorem capacity_erase (s : Nat) :
  (x.erase s).capacity = x.capacity
  := Array.size_setIfInBounds

/-- There is not less room after a state was inserted. -/
theorem capacity_le_insert (s : Nat) :
  x.capacity ≤ (x.insert s).capacity
  := by
  rw [insert, capacity, capacity, reserve, Array.size_setIfInBounds, Array.size_append]
  apply Nat.le_add_right

/-- There is not less room after the membership of a state was decided. -/
theorem capacity_le_assign (s : Nat) (present : Bool) :
  x.capacity ≤ (x.assign s present).capacity
  := by
  cases present with
  | false => apply (capacity_erase s).ge
  | true => apply capacity_le_insert

/-- A set of listed states has the room that it was given. -/
theorem le_capacity_ofList (count : Nat) (states : List Nat) :
  count ≤ (ofList count states).capacity
  := by
  induction states using List.reverseRecOn with
  | nil =>
      apply le_trans (le_room count)
      apply (Array.size_replicate).ge
  | append_singleton states s ih =>
      rw [ofList, List.foldl_append, List.foldl_cons, List.foldl_nil]
      apply le_trans ih (capacity_le_insert s)

/-- The membership of a state can be decided if there is room for it. -/
theorem assign?_eq_some {s : Nat} (hs : s < x.capacity) (present : Bool) :
  x.assign? s present = some (x.assign s present)
  := by
  cases present with
  | false => apply if_pos hs
  | true => rfl

end StateSet

/-! ### Passes of a search -/

/-- A pass of a search computes a set from the one at hand.  The loop ends if they have the same
states, and otherwise goes on with the computed one. -/
def SearchPass (compute : StateSet → StateSet → Prop) (x : StateSet) : Option StateSet → Prop
  | none => ∃ y, compute x y ∧ x.sameStates y = true
  | some y => compute x y ∧ x.sameStates y = false

section Loop

variable {compute : StateSet → StateSet → Prop} {step : StateSet → StateSet} {start : StateSet}
  {n : Nat}

/-- If one set only is computed, then a pass has one outcome only. -/
theorem SearchPass.unique (hcompute : ∀ x y, compute x y ↔ y = step x) (x : StateSet)
    (o o' : Option StateSet) (h : SearchPass compute x o) (h' : SearchPass compute x o') :
  o = o'
  := by
  have houtcome : ∀ o, SearchPass compute x o →
      o = if x.sameStates (step x) = true then none else some (step x) := by
    rintro (_ | y) h
    · obtain ⟨y, hy, hsame⟩ := h
      rw [(hcompute x y).mp hy] at hsame
      rw [if_pos hsame]
    · obtain ⟨hy, hne⟩ := h
      rw [(hcompute x y).mp hy] at hne ⊢
      rw [if_neg (Bool.eq_false_iff.mp hne)]
  rw [houtcome o h, houtcome o' h']

/-- A search whose sets are in a transitive order up to the first iterate that the step leaves as it
is makes its passes at these sets. -/
theorem exists_loopEnds (hcompute : ∀ x y, compute x y ↔ y = step x)
    (order : StateSet → StateSet → Prop) (htrans : ∀ x y z, order x y → order y z → order x z)
    {j : Nat} (hj : j ≤ n)
    (hne : ∀ i < j, (step^[i] start).sameStates (step^[i + 1] start) = false)
    (hsame : (step^[j] start).sameStates (step^[j + 1] start) = true)
    (horder : ∀ i < j, order (step^[i] start) (step^[i + 1] start)) :
  ∃ visited, LoopEnds (SearchPass compute) start visited (step^[j] start)
    ∧ visited.length ≤ n + 1 ∧ visited.Pairwise order
  := by
  have hiterate : ∀ i, compute (step^[i] start) (step^[i + 1] start) := by
    intro i
    rw [hcompute, Function.iterate_succ_apply']
  use (List.range (j + 1)).map fun i => step^[i] start
  refine ⟨?_, ?_, pairwise_map_range htrans horder⟩
  · apply LoopEnds.of_steps (SearchPass.unique hcompute) (f := fun i => step^[i] start)
    · intro i hi
      exact ⟨hiterate i, hne i hi⟩
    · exact ⟨_, hiterate j, hsame⟩
  · rw [List.length_map, List.length_range]
    apply Nat.succ_le_succ hj

/-- A search from a set that grows makes its passes at sets that ascend, at most one more than there
are states. -/
theorem exists_loopEnds_ascending (hcompute : ∀ x y, compute x y ↔ y = step x)
    (hstep : KeepsOrder step) (hstart : start ⊆ step start)
    (hwithin : ∀ i s, (step^[i] start).contains s = true → s < n) :
  ∃ visited, LoopEnds (SearchPass compute) start visited (settle step (n + 1) start)
    ∧ visited.length ≤ n + 1 ∧ visited.Pairwise (· ⊂ ·)
  := by
  obtain ⟨j, hj, hsettle, hne, hsame⟩ := exists_settled_ascending hstep hstart hwithin
  rw [hsettle]
  apply exists_loopEnds hcompute (· ⊂ ·) (fun _ _ _ => StateSet.ssubset_trans) hj hne
    hsame
  intro i hi
  apply StateSet.ssubset_of_subset (iterate_subset_succ hstep hstart i) (hne i hi)

/-- A search from a set that shrinks makes its passes at sets that descend, at most one more than
there are states. -/
theorem exists_loopEnds_descending (hcompute : ∀ x y, compute x y ↔ y = step x)
    (hstep : KeepsOrder step) (hstart : step start ⊆ start)
    (hwithin : ∀ s, start.contains s = true → s < n) :
  ∃ visited, LoopEnds (SearchPass compute) start visited (settle step (n + 1) start)
    ∧ visited.length ≤ n + 1 ∧ visited.Pairwise (· ⊃ ·)
  := by
  obtain ⟨j, hj, hsettle, hne, hsame⟩ := exists_settled_descending hstep hstart hwithin
  rw [hsettle]
  apply exists_loopEnds hcompute (· ⊃ ·)
    (fun _ _ _ hxy hyz => StateSet.ssubset_trans hyz hxy) hj hne hsame
  intro i hi
  apply StateSet.ssubset_of_subset (iterate_succ_subset hstep hstart i)
  rw [StateSet.sameStates_comm]
  apply hne i hi

end Loop

/-! ### The loops for the states with probability zero and one -/

namespace Arena

variable {V : Type} (a : Arena V)

/-- Deciding states does not fail if the result has room for all states of the model. -/
theorem decideStates?_eq_some (q : Quantifiers) (condition : List (Nat × V) → Bool)
    (subset : StateSet) {result : StateSet} (hroom : a.numStates ≤ result.capacity) :
  a.decideStates? q condition subset result = some (a.decideStates q condition subset result)
  := by
  have hlt : ∀ s ∈ a.statesOf subset, s < a.numStates := by
    intro s hs
    apply of_decide_eq_true (List.mem_filter.mp hs).2
  rw [decideStates?, decideStates]
  generalize a.statesOf subset = states at hlt
  induction states generalizing result with
  | nil => rfl
  | cons s states ih =>
      obtain ⟨hs, hstates⟩ := List.forall_mem_cons.mp hlt
      rw [List.foldlM_cons, StateSet.assign?_eq_some (lt_of_lt_of_le hs hroom), List.foldl_cons]
      apply ih (le_trans hroom (StateSet.capacity_le_assign s _)) hstates

variable (u : Until) (o : Objective)

/-- A step of a search that decides the open states by a condition, on a copy of the target, results
in a set. -/
def Decides (condition : List (Nat × V) → Bool) (y : StateSet) : Prop :=
  a.decideStates? o.quantifiers condition (a.openStates u.remain u.target)
    (u.target.below a.numStates) = some y

/-- A step of a search does not fail. -/
theorem decides_iff (condition : List (Nat × V) → Bool) (y : StateSet) :
  a.Decides u o condition y
    ↔ y = a.decideStates o.quantifiers condition (a.openStates u.remain u.target)
      (u.target.below a.numStates)
  := by
  have hroom : a.numStates ≤ (u.target.below a.numStates).capacity :=
    StateSet.le_capacity_ofList _ _
  rw [Decides, a.decideStates?_eq_some _ _ _ hroom, Option.some_inj, eq_comm]

variable [Arithmetic V]

/-- A pass of the search for the states with positive probability. -/
def PositivePass : StateSet → Option StateSet → Prop :=
  SearchPass fun x y => a.Decides u o (reaches x) y

/-- A pass of the inner loop, which searches for the states that reach the target inside `x`. -/
def InnerPass (x : StateSet) : StateSet → Option StateSet → Prop :=
  SearchPass fun y z => a.Decides u o (reachesWithin x y) z

/-- A pass of the outer loop, which runs the inner one from a copy of the target. -/
def OuterPass : StateSet → Option StateSet → Prop :=
  SearchPass fun x y => ∃ visited, LoopRun (a.InnerPass u o x) (u.target.below a.numStates) visited y

/-- The inner loop ends with the states that reach the target inside a set. -/
theorem exists_loopEnds_inner (x : StateSet) :
  ∃ visited, LoopEnds (a.InnerPass u o x) (u.target.below a.numStates) visited
      (a.positiveWithin u.remain u.target o x)
    ∧ visited.length ≤ a.numStates + 1 ∧ visited.Pairwise (· ⊂ ·)
  := by
  apply exists_loopEnds_ascending
  · intro y z
    apply a.decides_iff u o
  · apply a.keepsOrder_attractWithin u o x
  · apply a.below_subset_attractWithin u o
  · apply a.lt_numStates_of_contains_iterate u (a.lt_numStates_of_contains_attractWithin u o x)

/-- For any arena, any formula and any objective, the loops of the searches end, with their results,
after at most one pass more than there are states.  The sets at which the search for the states with
probability zero makes its passes ascend strictly, and so do those of every inner loop of the search
for the states with probability one, while those of its outer loop descend strictly. -/
theorem searches_end :
  (∃ visited found, LoopEnds (a.PositivePass u o) (u.target.below a.numStates) visited found
      ∧ a.zeroStates u.remain u.target o = found.complement a.numStates
      ∧ visited.length ≤ a.numStates + 1 ∧ visited.Pairwise (· ⊂ ·))
    ∧ (∀ x, ∃ visited, LoopEnds (a.InnerPass u o x) (u.target.below a.numStates) visited
        (a.positiveWithin u.remain u.target o x)
      ∧ visited.length ≤ a.numStates + 1 ∧ visited.Pairwise (· ⊂ ·))
    ∧ ∃ visited, LoopEnds (a.OuterPass u o) (.full a.numStates) visited
        (a.sureStates u.remain u.target o)
      ∧ visited.length ≤ a.numStates + 1 ∧ visited.Pairwise (· ⊃ ·)
  := by
  refine ⟨?_, a.exists_loopEnds_inner u o, ?_⟩
  · obtain ⟨visited, hends, hbounds⟩ := exists_loopEnds_ascending
      (fun x => a.decides_iff u o (reaches x)) (a.keepsOrder_attract u o)
      (a.below_subset_attract u o)
      (a.lt_numStates_of_contains_iterate u (a.lt_numStates_of_contains_attract u o))
    exact ⟨visited, _, hends, rfl, hbounds⟩
  · apply exists_loopEnds_descending
    -- the inner loop has no other run that has ended, and so a pass computes one set only
    · intro x y
      obtain ⟨visited, hends, -⟩ := a.exists_loopEnds_inner u o x
      constructor
      · rintro ⟨visited', hrun⟩
        apply (hends.run_iff.mp hrun).2
      · rintro rfl
        exact ⟨visited, hends.run⟩
    · apply a.keepsOrder_positiveWithin u o
    · intro s hs
      rw [StateSet.contains_full, decide_eq_true_eq]
      apply a.lt_numStates_of_contains_positiveWithin u o _ s hs
    · intro s hs
      rw [StateSet.contains_full, decide_eq_true_eq] at hs
      apply hs

end Arena

end Reachability
