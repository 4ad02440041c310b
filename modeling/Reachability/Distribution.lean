import Reachability.Error
import Reachability.StateSet
import Reachability.Table

/-!
# Distributions over successors

A `Distribution` gives masses to successor states and remembers the order in which they were
first given one.  `Distribution.validate` accepts it as the distribution of a choice if it is not
empty, every successor is a state, every mass is finite and not negative, and the masses sum to
one within `Distribution.tolerance`.  `Distribution.row` lists the positive masses with their
successors in ascending order.
-/

namespace Reachability

/-- Masses of successor states. -/
structure Distribution (V : Type) where
  masses : Table V

namespace Distribution

variable {V W : Type} [Arithmetic V]

/-- How far the sum of the masses may be from one. -/
def tolerance : V := Arithmetic.decimal 1 6

/-- The distribution without successors. -/
def empty : Distribution V := ⟨.empty⟩

/-- The mass of a state; it is zero if the state was given none. -/
def get (d : Distribution V) (s : Nat) : V := (d.masses.get? s).getD 0

/-- Gives a state a mass in place of any mass that it has. -/
def set (d : Distribution V) (s : Nat) (p : V) : Distribution V := ⟨d.masses.insert s p⟩

/-- Gives a state a mass in addition to any mass that it has. -/
def add (d : Distribution V) (s : Nat) (p : V) : Distribution V := d.set s (d.get s + p)

/-- The distribution with all mass on one state. -/
def dirac (s : Nat) : Distribution V := empty.set s 1

/-- The distribution of the listed masses; those of a repeated state add up. -/
def ofPairs (pairs : List (Nat × V)) : Distribution V :=
  pairs.foldl (fun d pair => d.add pair.1 pair.2) empty

/-- The states with their masses in order of insertion. -/
def pairs (d : Distribution V) : List (Nat × V) := d.masses.entries

/-- The number of states that were given a mass. -/
def size (d : Distribution V) : Nat := d.masses.size

/-- The sum of all masses. -/
def total (d : Distribution V) : V := Arithmetic.sum (d.pairs.map Prod.snd)

/-- The states with positive mass. -/
def support (d : Distribution V) : List Nat :=
  (d.pairs.filter fun pair => decide (0 < pair.2)).map Prod.fst

/-- Whether some state of the set has positive mass. -/
def meets (d : Distribution V) (set : StateSet) : Bool := d.support.any set.contains

/-- Whether all positive mass is on states of the set. -/
def within (d : Distribution V) (set : StateSet) : Bool := d.support.all set.contains

/-- A mass must be on a state of the model, finite and not negative. -/
def validatePair (s c numStates : Nat) (pair : Nat × V) : Except (CheckError V W) Unit :=
  if numStates ≤ pair.1 then .error (.stateOutOfRange pair.1 numStates)
  else if Arithmetic.isFinite pair.2 = false ∨ pair.2 < 0 then
    .error (.invalidDistribution s c (.mass pair.2 pair.1))
  else .ok ()

/-- The distribution must fit choice `c` of state `s` in a model with the given number of
states. -/
def validate (d : Distribution V) (s c numStates : Nat) : Except (CheckError V W) Unit :=
  if d.pairs.isEmpty then .error (.invalidDistribution s c .empty)
  else
    match d.pairs.forM (validatePair s c numStates) with
    | .error e => .error e
    | .ok () =>
      if tolerance < Arithmetic.abs (d.total - 1) then
        .error (.invalidDistribution s c (.total d.total))
      else .ok ()

/-- The positive masses with their states, the states in ascending order. -/
def row (d : Distribution V) : List (Nat × V) :=
  (d.pairs.filter fun pair => decide (0 < pair.2)).mergeSort fun a b => decide (a.1 ≤ b.1)

/-- A mass that is added goes to its state only. -/
theorem get_add (d : Distribution V) (s t : Nat) (p : V) :
  (d.add s p).get t = if t = s then d.get s + p else d.get t
  := by
  simp only [add, set, get, Table.get?_insert]
  split <;> rfl

theorem ofPairs_append_singleton (pairs : List (Nat × V)) (s : Nat) (p : V) :
  ofPairs (pairs ++ [(s, p)]) = (ofPairs pairs).add s p
  := by
  simp [ofPairs]

end Distribution

end Reachability
