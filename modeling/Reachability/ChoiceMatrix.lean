import Reachability.Distribution
import Reachability.SparseRows

/-!
# Choice matrices

A `ChoiceMatrix` holds one sparse row for every choice of every state.  The rows of a state lie
next to each other, and `rowStarts` says where the rows of each state start; its last number is
the number of rows that belong to states.  A `ChoiceMatrix.Draft` collects the rows state by
state.
-/

namespace Reachability

/-- The rows of all choices: those of state `s` are the rows from `rowStarts[s]` up to
`rowStarts[s + 1]`. -/
structure ChoiceMatrix (V : Type) where
  rowStarts : Array Nat
  transitions : SparseRows V

namespace ChoiceMatrix

variable {V : Type}

/-- The number of states whose rows are known. -/
def numStates (m : ChoiceMatrix V) : Nat := m.rowStarts.size - 1

/-- The number of choices of a state. -/
def numChoices (m : ChoiceMatrix V) (s : Nat) : Nat :=
  m.rowStarts.getD (s + 1) 0 - m.rowStarts.getD s 0

/-- The row of a choice, if the state has the choice. -/
def rowIndex? (m : ChoiceMatrix V) (s c : Nat) : Option Nat :=
  if c < m.numChoices s then some (m.rowStarts.getD s 0 + c) else none

/-- The successors of a choice with their masses; a choice that does not exist has none. -/
def successors (m : ChoiceMatrix V) (s c : Nat) : List (Nat × V) :=
  match m.rowIndex? s c with
  | some r => m.transitions.row r
  | none => []

/-- Rows that are collected state by state: those of a state that has been finished come before
the start of the next one. -/
structure Draft (V : Type) where
  columns : Nat
  rows : Array (List (Nat × V))
  starts : Array Nat

namespace Draft

/-- The draft without rows for a model with `columns` states. -/
def empty (columns : Nat) : Draft V := ⟨columns, #[], #[0]⟩

/-- The number of rows so far. -/
def numRows (m : Draft V) : Nat := m.rows.size

/-- The draft with a row of positive masses for the state at hand. -/
def push [Arithmetic V] (m : Draft V) (d : Distribution V) : Draft V :=
  { m with rows := m.rows.push d.row }

/-- The draft after the last choice of the state at hand. -/
def finishState (m : Draft V) : Draft V := { m with starts := m.starts.push m.numRows }

/-- The matrix of the rows; all successors must be states. -/
def build? (m : Draft V) : Option (ChoiceMatrix V) :=
  (SparseRows.ofRows? m.columns m.rows.toList).map fun rows => ⟨m.starts, rows⟩

end Draft

end ChoiceMatrix

end Reachability
