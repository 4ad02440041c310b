import Reachability.ChoiceMatrix

/-!
# Markov decision processes

An `Mdp` has states with choices, each of which has a distribution over successors and may have
an action label, and a list of initial states.  `Mdp.successors` lists the successors of a choice
with their masses.  The queries with a question mark answer nothing if the state or the choice
does not exist.
-/

namespace Reachability

/-- A Markov decision process with states from zero up to `numStates`. -/
structure Mdp (V : Type) where
  numStates : Nat
  matrix : ChoiceMatrix V
  actions : Array (Option String)
  initialStates : List Nat

namespace Mdp

variable {V : Type}

/-- The number of choices of a state. -/
def numChoices (m : Mdp V) (s : Nat) : Nat := m.matrix.numChoices s

/-- The number of choices of a state of the model. -/
def numChoices? (m : Mdp V) (s : Nat) : Option Nat :=
  if s < m.numStates then some (m.numChoices s) else none

/-- The successors of a choice with their masses, in ascending order. -/
def successors (m : Mdp V) (s c : Nat) : List (Nat × V) := m.matrix.successors s c

/-- The row of a choice of the model. -/
def rowIndex? (m : Mdp V) (s c : Nat) : Option Nat :=
  if s < m.numStates then m.matrix.rowIndex? s c else none

/-- The successors of a choice of the model. -/
def successors? (m : Mdp V) (s c : Nat) : Option (List (Nat × V)) :=
  (m.rowIndex? s c).map m.matrix.transitions.row

/-- The action label of a choice of the model, which it may be without. -/
def action? (m : Mdp V) (s c : Nat) : Option (Option String) :=
  (m.rowIndex? s c).bind fun r => m.actions[r]?

/-- The distribution of a choice, with its successors in ascending order. -/
def distribution [Arithmetic V] (m : Mdp V) (s c : Nat) : Distribution V :=
  Distribution.ofPairs (m.successors s c)

/-- The first initial state, or state zero if there is none. -/
def initialState (m : Mdp V) : Nat := m.initialStates.head?.getD 0

/-- The number of choices of all states together. -/
def numRows (m : Mdp V) : Nat := m.matrix.transitions.numRows

/-- The number of stored transitions. -/
def numTransitions (m : Mdp V) : Nat := m.matrix.transitions.numEntries

/-- The states with their choices. -/
def choicePairs (m : Mdp V) : List (Nat × Nat) :=
  (List.range m.numStates).flatMap fun s => (List.range (m.numChoices s)).map fun c => (s, c)

/-- The pairs of states and choices are those that the model has. -/
theorem mem_choicePairs {m : Mdp V} {s c : Nat} :
  (s, c) ∈ m.choicePairs ↔ s < m.numStates ∧ c < m.numChoices s
  := by
  simp [choicePairs]

/-- The number of transitions, counted choice by choice. -/
def countTransitions (m : Mdp V) : Nat :=
  m.choicePairs.foldl (fun count (s, c) => count + (m.successors s c).length) 0

/-- The largest number of choices of a state. -/
def maxChoices (m : Mdp V) : Nat :=
  ((List.range m.numStates).map m.numChoices).foldl max 0

/-- The summary of the model. -/
def text (m : Mdp V) : String :=
  "MDP with " ++ toString m.numStates ++ " states, " ++ toString m.numRows ++ " choices, "
    ++ toString m.numTransitions ++ " transitions"

end Mdp

end Reachability
