import Reachability.Error
import Reachability.StateSet

/-!
# Labellings

A `Labelling` names sets of states.  Labels are numbered in the order in which they are added,
and no name occurs twice.  Each label keeps its set, and with its name the number of states that
carry it.
-/

namespace Reachability

/-- A label: its name, the number of states that carry it, and the set of those states. -/
structure Label where
  name : String
  count : Nat
  states : StateSet

/-- The label that one more state carries. -/
def Label.addState (label : Label) (s : Nat) : Label :=
  if label.states.contains s then label
  else { label with count := label.count + 1, states := label.states.insert s }

/-- A label with the number of states that carry it. -/
def Label.text (label : Label) : String :=
  "\"" ++ label.name ++ "\": " ++ toString label.count ++ " states"

/-- The labels of a model with a number of states, in the order of their indices. -/
structure Labelling where
  numStates : Nat
  labels : Array Label

namespace Labelling

variable {V W : Type}

/-- The labelling without labels. -/
def empty (numStates : Nat) : Labelling := ⟨numStates, #[]⟩

/-- The number of labels. -/
def size (l : Labelling) : Nat := l.labels.size

/-- The index of the label with a name. -/
def index? (l : Labelling) (name : String) : Option Nat :=
  l.labels.findIdx? fun label => label.name == name

/-- The name of the label with an index. -/
def name? (l : Labelling) (i : Nat) : Option String := l.labels[i]?.map Label.name

/-- The labelling with a label of the given name, and the index of that label.  A label that is
present stays as it is. -/
def addLabel (l : Labelling) (name : String) : Labelling × Nat :=
  match l.index? name with
  | some i => (l, i)
  | none => ({ l with labels := l.labels.push ⟨name, 0, .empty l.numStates⟩ }, l.size)

/-- Adds the label with an index to a state; there must be such a label and such a state. -/
def addLabelToState? (l : Labelling) (i s : Nat) : Option Labelling :=
  if i < l.size ∧ s < l.numStates then
    some { l with labels := l.labels.modify i fun label => label.addState s }
  else none

/-- The labelling with the label `init` on the given states. -/
def withInitial? (numStates : Nat) (initial : List Nat) : Option Labelling :=
  let (l, i) := (empty numStates).addLabel "init"
  initial.foldlM (fun (l : Labelling) s => l.addLabelToState? i s) l

/-- Stores a set under a name in place of any set that is stored for it, and says which label it
is.  All states of the set must be states of the model. -/
def insertSet (l : Labelling) (name : String) (states : StateSet) :
    Except (CheckError V W) (Labelling × Nat) :=
  match states.toList.find? fun s => decide (l.numStates ≤ s) with
  | some s => .error (.stateOutOfRange s l.numStates)
  | none =>
    let (l', i) := l.addLabel name
    .ok ({ l' with labels := l'.labels.modify i fun label =>
      { label with count := states.size, states := states } }, i)

/-- The states that carry the label with a name. -/
def statesFor (l : Labelling) (name : String) : Except (CheckError V W) StateSet :=
  match (l.index? name).bind fun i => l.labels[i]? with
  | some label => .ok label.states
  | none => .error (.unknownLabel name)

/-- The list of all labels. -/
def text (l : Labelling) : String :=
  "State labelling with " ++ toString l.size ++ " labels:\n - "
    ++ "\n - ".intercalate (l.labels.toList.map Label.text)

end Labelling

end Reachability
