import Mathlib

/-!
# Loops without a bound on their passes

A pass of a loop either ends the loop at the state that it was made at, or goes on with another
state.  `LoopRun` are the runs that have ended, with the states at which passes were made.  A loop
ends if it has such a run and a pass has at most one outcome, for then the loop cannot run in any
other way (`LoopEnds.run_iff`).
-/

namespace Reachability

variable {α : Type} {pass : α → Option α → Prop}

/-- The runs of a loop which have ended.  A pass at a state either ends the loop there, or goes on
with another state. -/
inductive LoopRun (pass : α → Option α → Prop) : α → List α → α → Prop
  | stop {x : α} (h : pass x none) : LoopRun pass x [x] x
  | next {x y result : α} {visited : List α} (h : pass x (some y))
      (hrun : LoopRun pass y visited result) : LoopRun pass x (x :: visited) result

/-- A loop ends after passes at the given states if these make a run that has ended, and a pass has
at most one outcome. -/
structure LoopEnds (pass : α → Option α → Prop) (start : α) (visited : List α) (result : α) :
    Prop where
  unique : ∀ x o o', pass x o → pass x o' → o = o'
  run : LoopRun pass start visited result

namespace LoopEnds

variable {start result : α} {visited : List α}

/-- A loop that ends has no other run that has ended. -/
theorem run_iff (h : LoopEnds pass start visited result) {visited' : List α} {result' : α} :
  LoopRun pass start visited' result' ↔ visited' = visited ∧ result' = result
  := by
  obtain ⟨hunique, hrun⟩ := h
  constructor
  · intro hrun'
    induction hrun generalizing visited' with
    | stop hstop =>
        cases hrun' with
        | stop _ => exact ⟨rfl, rfl⟩
        | next hnext _ => cases hunique _ _ _ hstop hnext
    | next hnext _ ih =>
        cases hrun' with
        | stop hstop => cases hunique _ _ _ hstop hnext
        | next hnext' hrun' =>
            cases hunique _ _ _ hnext hnext'
            obtain ⟨rfl, rfl⟩ := ih hrun'
            exact ⟨rfl, rfl⟩
  · rintro ⟨rfl, rfl⟩
    apply hrun

/-- A loop ends if passes go on along a sequence up to a member at which it ends. -/
theorem of_steps (hunique : ∀ x o o', pass x o → pass x o' → o = o') {f : Nat → α} {j : Nat}
    (hnext : ∀ i < j, pass (f i) (some (f (i + 1)))) (hstop : pass (f j) none) :
  LoopEnds pass (f 0) ((List.range (j + 1)).map f) (f j)
  := by
  use hunique
  induction j generalizing f with
  | zero => apply LoopRun.stop hstop
  | succ j ih =>
      rw [List.range_succ_eq_map, List.map_cons, List.map_map]
      apply LoopRun.next (hnext 0 (Nat.succ_pos j))
      apply ih (f := f ∘ Nat.succ) _ hstop
      intro i hi
      apply hnext (i + 1) (Nat.succ_lt_succ hi)

end LoopEnds

/-- The members of a sequence are in a transitive order up to an index if each of them is in order
with the next one. -/
theorem pairwise_map_range {order : α → α → Prop}
    (htrans : ∀ x y z, order x y → order y z → order x z) {f : Nat → α} {j : Nat}
    (h : ∀ i < j, order (f i) (f (i + 1))) :
  ((List.range (j + 1)).map f).Pairwise order
  := by
  rw [List.pairwise_map]
  apply List.pairwise_lt_range.imp_of_mem
  intro i k _ hk hik
  rw [List.mem_range, Nat.lt_succ_iff] at hk
  induction k, hik using Nat.le_induction with
  | base => apply h i hk
  | succ k hik ih =>
      apply htrans _ (f k)
      · apply ih (Nat.le_of_succ_le hk)
      · apply h k hk

end Reachability
