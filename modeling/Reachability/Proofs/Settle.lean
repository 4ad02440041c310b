import Mathlib
import Reachability.Certainty

/-!
# Settling on a fixed point

A loop ends at the first iterate of its step at which it may stop, or at the last one allowed
(`loop_eq_iterate`).  So `settle` stops at an iterate which is either the last one or has the same
states as the next one (`settle_eq_iterate`).  For a step that is monotone, the iterates from
a set that grows form an ascending chain, and those from a set that shrinks a descending one.  A
chain of sets of states of a model cannot change more often than the model has states, so that
`settle` finds a fixed point (`settle_ascending`, `settle_descending`).
-/

namespace Reachability

namespace StateSet

/-- A set is a subset of another one if all its states are in that one. -/
instance : HasSubset StateSet where
  Subset x y := ∀ s, x.contains s = true → y.contains s = true

/-- The states of a set. -/
def members (x : StateSet) : Finset Nat := x.toList.toFinset

@[simp]
theorem mem_members {x : StateSet} {s : Nat} :
  s ∈ x.members ↔ x.contains s = true
  := by
  rw [members, List.mem_toFinset, mem_toList]

/-- The list of a set ascends. -/
theorem pairwise_toList (x : StateSet) :
  x.toList.Pairwise (· < ·)
  := by
  rw [toList]
  apply List.Pairwise.filter
  apply List.pairwise_lt_range

/-- Two sets have the same states if they agree on every state, whatever room they have. -/
theorem sameStates_iff {x y : StateSet} :
  x.sameStates y = true ↔ ∀ s, x.contains s = y.contains s
  := by
  rw [sameStates, beq_iff_eq]
  constructor
  · intro h s
    rw [Bool.eq_iff_iff, ← mem_toList, ← mem_toList, h]
  · intro h
    apply List.Pairwise.eq_of_mem_iff (pairwise_toList x) (pairwise_toList y)
    intro s
    rw [mem_toList, mem_toList, h s]

/-- A larger set that has other states has more of them. -/
theorem card_lt_card {x y : StateSet} (h : x ⊆ y) (hne : x.sameStates y = false) :
  x.members.card < y.members.card
  := by
  apply Finset.card_lt_card
  constructor
  · intro s hs
    rw [mem_members] at hs ⊢
    apply h s hs
  · intro hyx
    apply Bool.eq_false_iff.mp hne
    apply sameStates_iff.mpr
    intro s
    rw [Bool.eq_iff_iff]
    constructor
    · apply h s
    · intro hs
      apply mem_members.mp (hyx (mem_members.mpr hs))

/-- An ascending chain has as many states as it has changed times. -/
theorem le_card_of_ascending {f : Nat → StateSet} (hsub : ∀ i, f i ⊆ f (i + 1)) {j : Nat}
    (hne : ∀ i < j, (f i).sameStates (f (i + 1)) = false) :
  j ≤ (f j).members.card
  := by
  induction j with
  | zero => apply Nat.zero_le
  | succ j ih =>
      have hprev := ih fun i hi => hne i (Nat.lt_succ_of_lt hi)
      have hlt := card_lt_card (hsub j) (hne j (Nat.lt_succ_self j))
      omega

/-- A descending chain has lost as many states as it has changed times. -/
theorem add_card_le_of_descending {f : Nat → StateSet} (hsub : ∀ i, f (i + 1) ⊆ f i) {j : Nat}
    (hne : ∀ i < j, (f i).sameStates (f (i + 1)) = false) :
  j + (f j).members.card ≤ (f 0).members.card
  := by
  induction j with
  | zero => rw [Nat.zero_add]
  | succ j ih =>
      have hprev := ih fun i hi => hne i (Nat.lt_succ_of_lt hi)
      have hne' : (f (j + 1)).sameStates (f j) = false := by
        have h := hne j (Nat.lt_succ_self j)
        rw [sameStates, Bool.eq_false_iff, ne_eq, beq_iff_eq] at h ⊢
        apply fun h' => h h'.symm
      have hlt := card_lt_card (hsub j) hne'
      omega

/-- A set of states below `count` has at most `count` of them. -/
theorem card_members_le {x : StateSet} {count : Nat} (h : ∀ s, x.contains s = true → s < count) :
  x.members.card ≤ count
  := by
  rw [← Finset.card_range count]
  apply Finset.card_le_card
  intro s hs
  apply Finset.mem_range.mpr (h s (mem_members.mp hs))

end StateSet

/-- A step keeps the order of sets. -/
def KeepsOrder (step : StateSet → StateSet) : Prop :=
  ∀ x y : StateSet, x ⊆ y → step x ⊆ step y

/-- A loop that makes steps until it may stop, but no more than allowed, ends at an iterate.  It
may stop at no iterate before, and may stop at this one unless no step was left. -/
theorem loop_eq_iterate {α : Type} (loop : Nat → α → α) (stop : α → Bool) {step : α → α}
    (hzero : ∀ x, loop 0 x = x)
    (hsucc : ∀ steps x, loop (steps + 1) x = if stop x then x else loop steps (step x))
    (steps : Nat) (start : α) :
  ∃ j ≤ steps, loop steps start = step^[j] start
    ∧ (∀ i < j, stop (step^[i] start) = false)
    ∧ (j = steps ∨ stop (step^[j] start) = true)
  := by
  induction steps generalizing start with
  | zero =>
      refine ⟨0, le_refl 0, hzero start, ?_, Or.inl rfl⟩
      intro i hi
      exact absurd hi (Nat.not_lt_zero i)
  | succ steps ih =>
      rw [hsucc]
      by_cases hstop : stop start = true
      · refine ⟨0, Nat.zero_le _, if_pos hstop, ?_, Or.inr hstop⟩
        intro i hi
        exact absurd hi (Nat.not_lt_zero i)
      · obtain ⟨j, hj, hloop, hbefore, hend⟩ := ih (step start)
        refine ⟨j + 1, Nat.succ_le_succ hj, ?_, ?_, ?_⟩
        · rw [if_neg hstop, hloop, Function.iterate_succ_apply]
        · rintro (_ | i) hi
          · apply Bool.eq_false_iff.mpr hstop
          · apply hbefore i (Nat.lt_of_succ_lt_succ hi)
        · apply hend.imp_left
          rintro rfl
          rfl

/-- The search stops at an iterate, which no iterate before it has the same states as its
successor, and which has so itself unless no step was left. -/
theorem settle_eq_iterate (step : StateSet → StateSet) (steps : Nat) (start : StateSet) :
  ∃ j ≤ steps, settle step steps start = step^[j] start
    ∧ (∀ i < j, (step^[i] start).sameStates (step^[i + 1] start) = false)
    ∧ (j = steps ∨ (step^[j] start).sameStates (step^[j + 1] start) = true)
  := by
  simp only [Function.iterate_succ_apply']
  apply loop_eq_iterate (settle step) (fun set => set.sameStates (step set)) (fun _ => rfl)
    fun _ _ => rfl

/-- If one step leads from a set into what another step makes of any larger set, then its iterates
stay within those of the other step. -/
theorem iterate_subset_iterate {step step' : StateSet → StateSet}
    (hstep : ∀ x y : StateSet, x ⊆ y → step x ⊆ step' y) {x y : StateSet} (hxy : x ⊆ y) (i : Nat) :
  step^[i] x ⊆ step'^[i] y
  := by
  induction i with
  | zero => apply hxy
  | succ i ih =>
      rw [Function.iterate_succ_apply', Function.iterate_succ_apply']
      apply hstep _ _ ih

section Chain

variable {step : StateSet → StateSet} {start : StateSet} {n : Nat}

/-- A monotone step keeps a chain that ascends at its start ascending. -/
theorem iterate_subset_succ (hstep : KeepsOrder step) (hstart : start ⊆ step start) (i : Nat) :
  step^[i] start ⊆ step^[i + 1] start
  := by
  induction i with
  | zero => apply hstart
  | succ i ih =>
      rw [Function.iterate_succ_apply', Function.iterate_succ_apply' step (i + 1)]
      apply hstep _ _ ih

/-- A monotone step keeps a chain that descends at its start descending. -/
theorem iterate_succ_subset (hstep : KeepsOrder step) (hstart : step start ⊆ start) (i : Nat) :
  step^[i + 1] start ⊆ step^[i] start
  := by
  induction i with
  | zero => apply hstart
  | succ i ih =>
      have h := hstep _ _ ih
      rw [← Function.iterate_succ_apply' step, ← Function.iterate_succ_apply' step] at h
      apply h

/-- A later set of an ascending chain has the states of an earlier one. -/
theorem iterate_subset_of_le (hstep : KeepsOrder step) (hstart : start ⊆ step start) {i j : Nat}
    (hij : i ≤ j) :
  step^[i] start ⊆ step^[j] start
  := by
  induction j, hij using Nat.le_induction with
  | base => exact fun _ h => h
  | succ j _ ih =>
      intro s hs
      apply iterate_subset_succ hstep hstart j s (ih s hs)

/-- From a set that a monotone step leaves as it is, further steps leave it so, too. -/
theorem contains_iterate_of_fixed (hstep : KeepsOrder step)
    (hfixed : ∀ s, (step start).contains s = start.contains s) (i s : Nat) :
  (step^[i] start).contains s = start.contains s
  := by
  induction i generalizing s with
  | zero => rfl
  | succ i ih =>
      rw [Function.iterate_succ_apply', ← hfixed s, Bool.eq_iff_iff]
      constructor
      · apply hstep
        intro t ht
        rw [← ih t]
        apply ht
      · apply hstep
        intro t ht
        rw [ih t]
        apply ht

/-- From a set that grows, each step of the search changes the set up to the first iterate that the
step leaves as it is.  That one is found after at most as many steps as there are states. -/
theorem exists_settled_ascending (hstep : KeepsOrder step) (hstart : start ⊆ step start)
    (hwithin : ∀ i s, (step^[i] start).contains s = true → s < n) :
  ∃ j ≤ n, settle step (n + 1) start = step^[j] start
    ∧ (∀ i < j, (step^[i] start).sameStates (step^[i + 1] start) = false)
    ∧ (step^[j] start).sameStates (step^[j + 1] start) = true
  := by
  obtain ⟨j, -, hsettle, hne, hend⟩ := settle_eq_iterate step (n + 1) start
  have hcard := StateSet.le_card_of_ascending (iterate_subset_succ hstep hstart) hne
  have hbound := StateSet.card_members_le (hwithin j)
  exact ⟨j, le_trans hcard hbound, hsettle, hne, hend.resolve_left (by omega)⟩

/-- From a set that shrinks, the same holds. -/
theorem exists_settled_descending (hstep : KeepsOrder step) (hstart : step start ⊆ start)
    (hwithin : ∀ s, start.contains s = true → s < n) :
  ∃ j ≤ n, settle step (n + 1) start = step^[j] start
    ∧ (∀ i < j, (step^[i] start).sameStates (step^[i + 1] start) = false)
    ∧ (step^[j] start).sameStates (step^[j + 1] start) = true
  := by
  obtain ⟨j, -, hsettle, hne, hend⟩ := settle_eq_iterate step (n + 1) start
  have hcard := StateSet.add_card_le_of_descending (iterate_succ_subset hstep hstart) hne
  have hbound := StateSet.card_members_le hwithin
  rw [Function.iterate_zero_apply] at hcard
  exact ⟨j, by omega, hsettle, hne, hend.resolve_left (by omega)⟩

/-- From a set that grows, the search finds a set that the step leaves as it is, after at most as
many steps as there are states. -/
theorem settle_ascending (hstep : KeepsOrder step) (hstart : start ⊆ step start)
    (hwithin : ∀ i s, (step^[i] start).contains s = true → s < n) :
  ∃ j ≤ n, settle step (n + 1) start = step^[j] start
    ∧ ∀ s, (step (step^[j] start)).contains s = (step^[j] start).contains s
  := by
  obtain ⟨j, hj, hsettle, -, hsame⟩ := exists_settled_ascending hstep hstart hwithin
  use j, hj, hsettle
  intro s
  rw [StateSet.sameStates_iff.mp hsame s, Function.iterate_succ_apply']

/-- From a set that shrinks, the search finds a set that the step leaves as it is, after at most
as many steps as there are states. -/
theorem settle_descending (hstep : KeepsOrder step) (hstart : step start ⊆ start)
    (hwithin : ∀ s, start.contains s = true → s < n) :
  ∃ j ≤ n, settle step (n + 1) start = step^[j] start
    ∧ ∀ s, (step (step^[j] start)).contains s = (step^[j] start).contains s
  := by
  obtain ⟨j, hj, hsettle, -, hsame⟩ := exists_settled_descending hstep hstart hwithin
  use j, hj, hsettle
  intro s
  rw [StateSet.sameStates_iff.mp hsame s, Function.iterate_succ_apply']

/-- The search from a set that grows finds the states of all iterates, which are those of the
last one that it may need. -/
theorem contains_settle (hstep : KeepsOrder step) (hstart : start ⊆ step start)
    (hwithin : ∀ i s, (step^[i] start).contains s = true → s < n) (s : Nat) :
  ((settle step (n + 1) start).contains s = true ↔ (step^[n] start).contains s = true)
    ∧ ((settle step (n + 1) start).contains s = true
      ↔ ∃ i, (step^[i] start).contains s = true)
  := by
  obtain ⟨j, hj, hsettle, hfixed⟩ := settle_ascending hstep hstart hwithin
  have hlater : ∀ i t, (step^[i + j] start).contains t = (step^[j] start).contains t := by
    intro i t
    rw [Function.iterate_add_apply]
    apply contains_iterate_of_fixed hstep hfixed
  rw [hsettle]
  constructor
  · rw [← hlater (n - j) s, Nat.sub_add_cancel hj]
  · constructor
    · intro h
      exact ⟨j, h⟩
    · rintro ⟨i, h⟩
      rw [← hlater i s]
      apply iterate_subset_of_le hstep hstart (Nat.le_add_right i j) s h

end Chain

end Reachability
