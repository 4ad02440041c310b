import Reachability.Arithmetic

/-!
# Sets of states

A `StateSet` is a finite set of state indices with room for a number of states, which is a
multiple of 64.  Reading past the room finds nothing, inserting past it makes the room larger,
and only removing needs room for the state.  The view of a set is the ascending list
`StateSet.toList` of its states, and `StateSet.contains` decides membership.
-/

namespace Reachability

/-- A set of states, one flag for every state that there is room for. -/
structure StateSet where
  flags : Array Bool
deriving DecidableEq

namespace StateSet

/-- The least multiple of 64 that gives room to `count` states. -/
def room (count : Nat) : Nat := (count + 63) / 64 * 64

theorem le_room (count : Nat) :
  count ≤ room count
  := by
  unfold room
  omega

/-- The number of states that a set has room for. -/
def capacity (a : StateSet) : Nat := a.flags.size

/-- Whether a state is in the set. -/
def contains (a : StateSet) (s : Nat) : Bool := a.flags[s]?.getD false

/-- The empty set with room for `count` states. -/
def empty (count : Nat) : StateSet := ⟨Array.replicate (room count) false⟩

/-- The set with at least the given room. -/
def reserve (a : StateSet) (count : Nat) : StateSet :=
  ⟨a.flags ++ Array.replicate (room count - a.flags.size) false⟩

/-- The set together with a state. -/
def insert (a : StateSet) (s : Nat) : StateSet :=
  ⟨(a.reserve (s + 1)).flags.setIfInBounds s true⟩

/-- The set without a state. -/
def erase (a : StateSet) (s : Nat) : StateSet :=
  ⟨a.flags.setIfInBounds s false⟩

/-- The set without a state; it must have room for the state. -/
def erase? (a : StateSet) (s : Nat) : Option StateSet :=
  if s < a.capacity then some (a.erase s) else none

/-- The states of the set in ascending order. -/
def toList (a : StateSet) : List Nat := (List.range a.capacity).filter a.contains

/-- The number of states in the set. -/
def size (a : StateSet) : Nat := a.toList.length

/-- The set of the listed states, with room for at least `count` states. -/
def ofList (count : Nat) (states : List Nat) : StateSet :=
  states.foldl insert (empty count)

/-- The set of all states below `count`. -/
def full (count : Nat) : StateSet := ofList count (List.range count)

/-- The states below `count` that are not in the set. -/
def complement (a : StateSet) (count : Nat) : StateSet :=
  ofList count ((List.range count).filter fun s => !a.contains s)

/-- The states below `count` that are in one of two sets. -/
def union (a b : StateSet) (count : Nat) : StateSet :=
  ofList count ((a.toList ++ b.toList).filter (· < count))

/-- The states below `count` that are in the first set and not in the second. -/
def difference (a b : StateSet) (count : Nat) : StateSet :=
  ofList count (a.toList.filter fun s => s < count && !b.contains s)

/-- The states of the set below `count`. -/
def below (a : StateSet) (count : Nat) : StateSet :=
  ofList count (a.toList.filter (· < count))

/-- Whether two sets hold the same states, whatever room they have. -/
def sameStates (a b : StateSet) : Bool := a.toList == b.toList

/-- The vector that is one on the set and zero elsewhere. -/
def indicator {V : Type} [Arithmetic V] (a : StateSet) (count : Nat) : Array V :=
  (Array.range count).map fun s => if a.contains s then 1 else 0

/-! ### Membership after each operation -/

@[simp]
theorem contains_empty (count s : Nat) :
  (empty count).contains s = false
  := by
  simp only [contains, empty, Array.getElem?_replicate]
  split <;> rfl

@[simp]
theorem contains_reserve (a : StateSet) (count s : Nat) :
  (a.reserve count).contains s = a.contains s
  := by
  simp only [contains, reserve, Array.getElem?_append, Array.getElem?_replicate]
  by_cases h : s < a.flags.size
  · simp [h]
  · simp only [h, if_false]
    rw [Array.getElem?_eq_none (by omega)]
    split <;> rfl

theorem lt_capacity_of_contains {a : StateSet} {s : Nat} (h : a.contains s = true) :
  s < a.capacity
  := by
  by_cases hs : s < a.flags.size
  · exact hs
  · simp [contains, Array.getElem?_eq_none (Nat.le_of_not_lt hs)] at h

@[simp]
theorem contains_insert (a : StateSet) (s t : Nat) :
  (a.insert s).contains t = (t == s || a.contains t)
  := by
  have hroom : s < (a.reserve (s + 1)).flags.size := by
    have := le_room (s + 1)
    simp only [reserve, Array.size_append, Array.size_replicate]
    omega
  by_cases h : t = s
  · subst h
    simp [insert, contains, hroom]
  · have key : (a.insert s).contains t = (a.reserve (s + 1)).contains t := by
      simp [insert, contains, Ne.symm h]
    rw [key, contains_reserve]
    simp [h]

@[simp]
theorem contains_erase (a : StateSet) (s t : Nat) :
  (a.erase s).contains t = (t != s && a.contains t)
  := by
  by_cases h : t = s
  · subst h
    simp only [erase, contains, Array.getElem?_setIfInBounds, if_true]
    split <;> simp
  · simp [erase, contains, Ne.symm h, h]

@[simp]
theorem mem_toList {a : StateSet} {s : Nat} :
  s ∈ a.toList ↔ a.contains s = true
  := by
  simp only [toList, List.mem_filter, List.mem_range, and_iff_right_iff_imp]
  exact lt_capacity_of_contains

theorem contains_foldl_insert (states : List Nat) (a : StateSet) (s : Nat) :
  (states.foldl insert a).contains s = (decide (s ∈ states) || a.contains s)
  := by
  induction states generalizing a with
  | nil => simp
  | cons t states ih =>
    rw [List.foldl_cons, ih, contains_insert]
    by_cases h : s = t
    · simp [h]
    · have : (s == t) = false := by simp [h]
      simp [h, this]

@[simp]
theorem contains_ofList (count : Nat) (states : List Nat) (s : Nat) :
  (ofList count states).contains s = decide (s ∈ states)
  := by
  simp [ofList, contains_foldl_insert]

@[simp]
theorem contains_full (count s : Nat) :
  (full count).contains s = decide (s < count)
  := by
  simp [full]

@[simp]
theorem contains_complement (a : StateSet) (count s : Nat) :
  (a.complement count).contains s = (decide (s < count) && !a.contains s)
  := by
  simp [complement]

@[simp]
theorem contains_union (a b : StateSet) (count s : Nat) :
  (a.union b count).contains s = ((a.contains s || b.contains s) && decide (s < count))
  := by
  simp [union, Bool.and_or_distrib_right]

@[simp]
theorem contains_difference (a b : StateSet) (count s : Nat) :
  (a.difference b count).contains s = (a.contains s && (decide (s < count) && !b.contains s))
  := by
  simp [difference]

@[simp]
theorem contains_below (a : StateSet) (count s : Nat) :
  (a.below count).contains s = (a.contains s && decide (s < count))
  := by
  simp [below]

@[simp]
theorem size_indicator {V : Type} [Arithmetic V] (a : StateSet) (count : Nat) :
  (a.indicator count : Array V).size = count
  := by
  simp [indicator]

end StateSet

end Reachability
