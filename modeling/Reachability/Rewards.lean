import Reachability.Error
import Reachability.SparseRows
import Reachability.Table

/-!
# Rewards

`Rewards` are rewards of states and of choices.  A step that takes a choice in a state earns the
reward of the state plus that of the choice; where none is set the reward is zero.  A
`Rewards.Draft` collects them in any order, the last one that is set counts.
-/

namespace Reachability

/-- Rewards of states and, row by row, of their choices. -/
structure Rewards (V : Type) where
  name : String
  stateRewards : List (Nat × V)
  choiceRewards : SparseRows V

namespace Rewards

variable {V W : Type}

section Lookup

variable [Arithmetic V]

/-- The reward for being in a state. -/
def stateReward (r : Rewards V) (s : Nat) : V := (r.stateRewards.lookup s).getD 0

/-- The reward of a choice of a state. -/
def choiceReward (r : Rewards V) (s c : Nat) : V :=
  if r.choiceRewards.numRows ≤ s ∨ r.choiceRewards.columns ≤ c then 0
  else (r.choiceRewards.get? s c).getD 0

/-- The reward of a step that takes a choice in a state. -/
def stepReward (r : Rewards V) (s c : Nat) : V := r.stateReward s + r.choiceReward s c

end Lookup

/-- Rewards from their parts: a sparse vector of length `size` for the states, and a matrix for
the choices. -/
def ofParts? (name : String) (size : Nat) (indices : List Nat) (values : List V)
    (choiceRewards : SparseRows V) : Option (Rewards V) :=
  if indices.length = values.length ∧ SparseRows.isStrictlyAscending indices
      ∧ indices.all fun s => decide (s < size)
  then some ⟨name, indices.zip values, choiceRewards⟩
  else none

/-- Rewards that are being collected for a model with `numStates` states. -/
structure Draft (V : Type) where
  name : String
  stateRewards : Table V
  choiceRewards : Array (Table V)

namespace Draft

/-- The draft without rewards. -/
def empty (name : String) (numStates : Nat) : Draft V :=
  ⟨name, .empty, Array.replicate numStates .empty⟩

/-- The number of states. -/
def numStates (b : Draft V) : Nat := b.choiceRewards.size

/-- A state must be one of the model. -/
def checkState (b : Draft V) (s : Nat) : Except (CheckError V W) Unit :=
  if s < b.numStates then .ok () else .error (.stateOutOfRange s b.numStates)

/-- Sets the reward of a state. -/
def setStateReward (b : Draft V) (s : Nat) (r : V) : Except (CheckError V W) (Draft V) := do
  b.checkState s
  return { b with stateRewards := b.stateRewards.insert s r }

/-- Sets the reward of a choice of a state. -/
def setChoiceReward (b : Draft V) (s c : Nat) (r : V) : Except (CheckError V W) (Draft V) := do
  b.checkState s
  return { b with choiceRewards := b.choiceRewards.modify s fun t => t.insert c r }

/-- The entries of a table, the keys in ascending order. -/
def ascending (t : Table V) : List (Nat × V) :=
  t.entries.mergeSort fun a b => decide (a.1 ≤ b.1)

/-- The index after a given one, in the arithmetic of machine words: none follows the last, and
zero is taken in its place. -/
def nextIndex (i : Nat) : Nat := (i + 1) % (indexLimit + 1)

/-- The number of columns that the rewards of choices take: one more than the largest choice. -/
def columns (b : Draft V) : Nat :=
  (b.choiceRewards.toList.flatMap fun t => t.keys.map nextIndex).foldl max 0

/-- The finished rewards; every choice must have a column. -/
def build? (b : Draft V) : Option (Rewards V) :=
  (SparseRows.ofRows? b.columns (b.choiceRewards.toList.map ascending)).map fun rows =>
    ⟨b.name, ascending b.stateRewards, rows⟩

end Draft

end Rewards

end Reachability
