import Mathlib
import Reachability.Proofs.Attraction
import Reachability.Solve.Unbounded

/-!
# Arenas that are searched alike

A search sees of a state whether it has choices, and whether a condition holds of all or some of
them, as its owner is minimising or maximising.  Two arenas are searched alike for two objectives if
they do not differ in this at any of their states (`Arena.SearchedAlike`).  Then the searches find
the same states with probability zero and with probability one.
-/

namespace Reachability

namespace Arena

variable {V : Type}

/-- Two arenas are searched alike for two objectives if they have as many states, and at each of
them either both have choices or none has, and any condition is decided in the same way. -/
structure SearchedAlike (a : Arena V) (o : Objective) (a' : Arena V) (o' : Objective) : Prop where
  numStates : a.numStates = a'.numStates
  choices : ∀ s < a.numStates, (0 < a.mdp.numChoices s ↔ 0 < a'.mdp.numChoices s)
  quantified : ∀ (condition : List (Nat × V) → Bool), ∀ s < a.numStates,
    a.quantified o.quantifiers condition s = a'.quantified o'.quantifiers condition s

namespace SearchedAlike

variable {a a' : Arena V} {o o' : Objective} (h : a.SearchedAlike o a' o')

include h

/-- A step of a search decides the same states. -/
theorem decideStates (condition : List (Nat × V) → Bool) (subset result : StateSet) :
  a.decideStates o.quantifiers condition subset result
    = a'.decideStates o'.quantifiers condition subset result
  := by
  rw [Arena.decideStates, Arena.decideStates, statesOf, statesOf, ← h.numStates]
  apply List.foldl_ext
  intro r s hs
  rw [h.quantified condition s (of_decide_eq_true (List.mem_filter.mp hs).2)]

/-- The same states are open. -/
theorem openStates (remain : Option StateSet) (target : StateSet) :
  a.openStates remain target = a'.openStates remain target
  := by
  simp only [Arena.openStates, ← h.numStates]
  congr 1
  apply List.filter_congr
  intro s hs
  -- The arenas agree on states of the model only, and those are the ones looked at.
  have hlt : s < a.numStates := by
    rw [StateSet.mem_toList] at hs
    cases remain with
    | none =>
        rw [StateSet.contains_complement, Bool.and_eq_true, decide_eq_true_eq] at hs
        exact hs.1
    | some set =>
        rw [StateSet.contains_difference, Bool.and_eq_true, Bool.and_eq_true,
          decide_eq_true_eq] at hs
        exact hs.2.1
  rw [decide_eq_decide]
  apply h.choices s hlt

variable [Arithmetic V]

/-- The same states have probability zero. -/
theorem zeroStates (remain : Option StateSet) (target : StateSet) :
  a.zeroStates remain target o = a'.zeroStates remain target o'
  := by
  have hattract : a.attract remain target o = a'.attract remain target o' := by
    funext x
    rw [attract, attract, h.openStates, h.decideStates, h.numStates]
  rw [Arena.zeroStates, Arena.zeroStates, positiveStates, positiveStates, hattract, h.numStates]

/-- The same states have probability one. -/
theorem sureStates (remain : Option StateSet) (target : StateSet) :
  a.sureStates remain target o = a'.sureStates remain target o'
  := by
  have hwithin : a.positiveWithin remain target o = a'.positiveWithin remain target o' := by
    funext x
    have hattract : a.attractWithin remain target o x = a'.attractWithin remain target o' x := by
      funext y
      rw [attractWithin, attractWithin, h.openStates, h.decideStates, h.numStates]
    rw [positiveWithin, positiveWithin, hattract, h.numStates]
  rw [Arena.sureStates, Arena.sureStates, hwithin, h.numStates]

/-- What is looked for before a run is found in both arenas. -/
theorem settledStates {W : Type} (settings : Settings W) (u : Until) :
  a.settledStates settings u o = a'.settledStates settings u o'
  := by
  rw [Arena.settledStates, Arena.settledStates, h.zeroStates]

/-- The same is known of each state before an iteration. -/
theorem decided {W : Type} (settings : Settings W) (u : Until) :
  a.decided settings u o = a'.decided settings u o'
  := by
  rw [Arena.decided, Arena.decided, h.settledStates, h.sureStates, h.numStates]

end SearchedAlike

end Arena

end Reachability
