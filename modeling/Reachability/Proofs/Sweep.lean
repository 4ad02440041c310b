import Mathlib
import Reachability.Solve.Bounded

/-!
# What a sweep leaves at each state

A Jacobi sweep leaves at every selected state the value that is computed from the vector which it
reads, and at every other state what was there, in whatever order it goes through the states
(`Arena.getElem?_writeStates_fst`).  Both ways to make a round agree with this
(`Arena.valuation_round`).  A Gauss-Seidel update changes the value of its state only
(`Arena.valuation_relaxState`).
-/

namespace Reachability

variable {V : Type} [Arithmetic V]

/-- Writing into a place of a vector changes the value of its state only. -/
theorem valuation_setIfInBounds (v : Array V) (s t : Nat) (x : V) :
  valuation (v.setIfInBounds s x) t = if t = s ∧ s < v.size then x else valuation v t
  := by
  rw [valuation, Array.getElem?_setIfInBounds]
  split
  · next h =>
      subst h
      split
      · next hs => rw [if_pos ⟨rfl, hs⟩, Option.getD_some]
      · next hs =>
          rw [if_neg (fun h => hs h.2), valuation, Array.getElem?_eq_none (Nat.le_of_not_lt hs)]
  · next h => rw [if_neg (fun h' => h h'.1.symm), valuation]

/-- Where a vector has an entry, the entry is the value. -/
theorem getElem?_eq_valuation {v : Array V} {s : Nat} (h : s < v.size) :
  v[s]? = some (valuation v s)
  := by
  rw [valuation, Array.getElem?_eq_getElem h, Option.getD_some]

/-- Writing into places of an array in any order leaves at each of them what is written
there. -/
theorem getElem?_foldl_setIfInBounds {α : Type} (f : Nat → α) (places : List Nat)
    (out : Array α) (s : Nat) :
  (places.foldl (fun out s => out.setIfInBounds s (f s)) out)[s]?
    = if s ∈ places then out[s]?.map fun _ => f s else out[s]?
  := by
  induction places generalizing out with
  | nil => rfl
  | cons t places ih =>
      rw [List.foldl_cons, ih]
      by_cases hst : s = t
      · subst hst
        have hwritten : (out.setIfInBounds s (f s))[s]? = out[s]?.map fun _ => f s := by
          rw [Array.getElem?_setIfInBounds_self]
          by_cases hs : s < out.size
          · simp [hs]
          · simp [hs]
        rw [hwritten, Option.map_map, if_pos List.mem_cons_self]
        split <;> rfl
      · simp only [List.mem_cons, hst, false_or, Array.getElem?_setIfInBounds_ne (Ne.symm hst)]

/-- A state is selected by a set if it is in it. -/
@[simp]
theorem Selection.has_only (set : StateSet) (s : Nat) :
  (Selection.only set).has s = set.contains s
  := by
  simp [Selection.only, Selection.has]

/-- A sweep goes through the selected states that the model has. -/
theorem Selection.mem_filter_range {sel : Selection} {numStates s : Nat} :
  s ∈ (List.range numStates).filter sel.has ↔ s < numStates ∧ sel.has s = true
  := by
  rw [List.mem_filter, List.mem_range]

/-- A sweep over a set goes through the states of the set that the model has. -/
theorem Selection.mem_filter_only {set : StateSet} {numStates s : Nat} :
  s ∈ (List.range numStates).filter (only set).has ↔ s < numStates ∧ set.contains s = true
  := by
  rw [mem_filter_range, has_only]

namespace Arena

variable (a : Arena V) (rewards : Option (Rewards V)) (o : Objective) (sel : Selection)

/-- A sweep writes its vector and its strategy independently of each other. -/
theorem writeStates_eq (v : Nat → V) (states : List Nat) (out : Array V × Strategy) :
  a.writeStates rewards o sel v states out
    = ((states.filter sel.has).foldl
        (fun values s => values.setIfInBounds s (a.update rewards o v s).1) out.1,
      (states.filter sel.has).foldl
        (fun choices s => choices.setIfInBounds s (a.update rewards o v s).2) out.2)
  := by
  rw [writeStates]
  induction states.filter sel.has generalizing out with
  | nil => rfl
  | cons s states ih =>
      rw [List.foldl_cons, ih]
      rfl

/-- A sweep leaves the computed value at every selected state that it goes through and has a
place for, and does not touch other places. -/
theorem getElem?_writeStates_fst (v : Nat → V) (states : List Nat) (out : Array V × Strategy)
    (s : Nat) :
  (a.writeStates rewards o sel v states out).1[s]?
    = if s ∈ states.filter sel.has then out.1[s]?.map fun _ => (a.update rewards o v s).1
      else out.1[s]?
  := by
  rw [writeStates_eq]
  apply getElem?_foldl_setIfInBounds

/-- A sweep leaves the choice that is taken at every selected state that it goes through and has a
place for, and does not touch other places. -/
theorem getElem?_writeStates_snd (v : Nat → V) (states : List Nat) (out : Array V × Strategy)
    (s : Nat) :
  (a.writeStates rewards o sel v states out).2[s]?
    = if s ∈ states.filter sel.has then out.2[s]?.map fun _ => (a.update rewards o v s).2
      else out.2[s]?
  := by
  rw [writeStates_eq]
  apply getElem?_foldl_setIfInBounds

/-- A Jacobi sweep into a vector that has an entry for every state. -/
theorem valuation_jacobi (v : Array V) (out : Array V × Strategy) (s : Nat)
    (hs : s < a.numStates) (hsize : out.1.size = a.numStates) :
  valuation (a.jacobi rewards o sel v out).1 s
    = if sel.has s = true then (a.update rewards o (valuation v) s).1 else valuation out.1 s
  := by
  rw [valuation, jacobi, getElem?_writeStates_fst, getElem?_eq_valuation (hsize ▸ hs)]
  simp only [List.mem_filter, List.mem_range, hs, true_and]
  split <;> rfl

/-- A Jacobi sweep of all entries at once. -/
theorem valuation_jacobiAtOnce (v : Array V) (out : Array V × Strategy) (s : Nat)
    (hs : s < out.1.size) :
  valuation (a.jacobiAtOnce rewards o sel v out).1 s
    = if sel.has s = true then (a.update rewards o (valuation v) s).1 else valuation out.1 s
  := by
  rw [valuation, jacobiAtOnce, Array.getElem?_mapIdx, getElem?_eq_valuation hs]
  rfl

variable {a rewards o}

/-- A Gauss-Seidel update changes the value of its state only. -/
theorem valuation_relaxState {measure : ChangeMeasure} {acc : V × Array V} {s : Nat}
    (hs : s < acc.2.size) :
  valuation (a.relaxState rewards o measure acc s).2
    = Function.update (valuation acc.2) s
      (a.loopFreeOptimum rewards (valuation acc.2) (a.direction o s) s)
  := by
  funext t
  rw [relaxState, valuation_setIfInBounds, Function.update_apply]
  simp only [hs, and_true]

section Pass

variable (measure : ChangeMeasure) (states : List Nat)

/-- A Gauss-Seidel sweep changes no length. -/
theorem size_foldl_relaxState (acc : V × Array V) :
  (states.foldl (a.relaxState rewards o measure) acc).2.size = acc.2.size
  := by
  induction states generalizing acc with
  | nil => rfl
  | cons s states ih => rw [List.foldl_cons, ih, relaxState, Array.size_setIfInBounds]

/-- A Gauss-Seidel pass changes no length. -/
theorem size_gaussSeidel (sel : Selection) (v : Array V) :
  (a.gaussSeidel rewards o sel measure v).2.size = v.size
  := size_foldl_relaxState measure _ (0, v)

/-- A Gauss-Seidel sweep leaves the states that it does not go through as they are. -/
theorem valuation_foldl_relaxState (acc : V × Array V) {t : Nat} (ht : t ∉ states) :
  valuation (states.foldl (a.relaxState rewards o measure) acc).2 t = valuation acc.2 t
  := by
  induction states generalizing acc with
  | nil => rfl
  | cons s states ih =>
      rw [List.mem_cons, not_or] at ht
      obtain ⟨hts, ht⟩ := ht
      rw [List.foldl_cons, ih _ ht, relaxState, valuation_setIfInBounds, if_neg (fun h => hts h.1)]

end Pass

variable (a o) (parallel : Bool) (set : StateSet) (p : Progress V)

/-- A round changes no length. -/
theorem size_round :
  (a.round parallel o set p).current.size = p.current.size
  := by
  cases parallel with
  | false => simp [round]
  | true => simp [round, jacobiAtOnce]

/-- A round gives every state of the set its value from the vector before, and leaves the other
states as they are. -/
theorem valuation_round (s : Nat) (hs : s < a.numStates)
    (hsize : p.current.size = a.numStates) :
  valuation (a.round parallel o set p).current s
    = if set.contains s = true then (a.update none o (valuation p.current) s).1
      else valuation p.current s
  := by
  cases parallel with
  | false =>
      rw [← Selection.has_only]
      apply a.valuation_jacobi none o _ _ _ s hs hsize
  | true =>
      rw [← Selection.has_only]
      apply a.valuation_jacobiAtOnce none o _ _ _ s (hsize ▸ hs)

end Arena

end Reachability
