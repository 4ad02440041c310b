import Reachability.Mdp

/-!
# Building Markov decision processes

An `Mdp.Draft` collects states, choices and initial states in any order.  Distributions are
validated only by `Mdp.Draft.build`, state by state and choice by choice, and the first one that
fails is the cause.  A model in which no state was marked as initial starts in state zero.

`Mdp.mapDistributions` builds a model anew with every distribution replaced.
-/

namespace Reachability

/-- A choice of a model that is being built. -/
structure Choice (V : Type) where
  distribution : Distribution V
  action : Option String

/-- A model that is being built: the choices of each state, and the initial states in the order
in which they were marked. -/
structure Mdp.Draft (V : Type) where
  choices : Array (Array (Choice V))
  initialStates : List Nat

namespace Mdp.Draft

variable {V W : Type}

/-- The draft without states. -/
def empty : Draft V := ⟨#[], []⟩

/-- The number of states so far. -/
def numStates (b : Draft V) : Nat := b.choices.size

/-- The number of choices of a state so far. -/
def numChoices (b : Draft V) (s : Nat) : Nat := (b.choices[s]?.getD #[]).size

/-- The draft with `count` more states, which get the next indices. -/
def addStates (b : Draft V) (count : Nat) : Draft V :=
  { b with choices := b.choices ++ Array.replicate count #[] }

@[simp]
theorem numStates_addStates (b : Draft V) (count : Nat) :
  (b.addStates count).numStates = b.numStates + count
  := by
  simp [numStates, addStates]

/-- A state must be one of those so far. -/
def checkState (b : Draft V) (s : Nat) : Except (CheckError V W) Unit :=
  if b.numStates ≤ s then .error (.stateOutOfRange s b.numStates) else .ok ()

/-- Marks a state as initial; marking it again changes nothing. -/
def addInitialState (b : Draft V) (s : Nat) : Except (CheckError V W) (Draft V) := do
  b.checkState s
  return if s ∈ b.initialStates then b else { b with initialStates := b.initialStates ++ [s] }

/-- Adds a choice to a state, and says which of its choices it is. -/
def addChoice (b : Draft V) (s : Nat) (choice : Choice V) :
    Except (CheckError V W) (Draft V × Nat) := do
  b.checkState s
  return ({ b with choices := b.choices.modify s fun cs => cs.push choice }, b.numChoices s)

/-- Every distribution must fit its state and choice in the finished model. -/
def validate [Arithmetic V] (b : Draft V) : Except (CheckError V W) Unit :=
  b.choices.toList.zipIdx.forM fun (choices, s) =>
    choices.toList.zipIdx.forM fun (choice, c) => choice.distribution.validate s c b.numStates

/-- The rows of all choices. -/
def matrix? [Arithmetic V] (b : Draft V) : Option (ChoiceMatrix V) :=
  (b.choices.foldl
    (fun rows choices =>
      (choices.foldl (fun rows choice => rows.push choice.distribution) rows).finishState)
    (ChoiceMatrix.Draft.empty b.numStates)).build?

/-- The action labels of all choices, row by row. -/
def actions (b : Draft V) : Array (Option String) :=
  b.choices.flatMap fun choices => choices.map Choice.action

/-- The initial states of the finished model. -/
def startStates (b : Draft V) : List Nat :=
  if b.initialStates.isEmpty ∧ 0 < b.numStates then [0] else b.initialStates

/-- The finished model. -/
def build [Arithmetic V] (b : Draft V) : Except (CheckError V W) (Mdp V) := do
  b.validate
  match b.matrix? with
  | some matrix => return ⟨b.numStates, matrix, b.actions, b.startStates⟩
  | none => throw .indexOutOfRange

end Mdp.Draft

namespace Mdp

variable {V W : Type} [Arithmetic V]

/-- The model with the same states, actions and initial states in which the distribution `d` of
choice `c` of state `s` is replaced by `f s c d`. -/
def mapDistributions (m : Mdp V) (f : Nat → Nat → Distribution V → Distribution V) :
    Except (CheckError V W) (Mdp V) := do
  let withChoices ← m.choicePairs.foldlM
    (fun (b : Draft V) (s, c) => do
      let (b', _) ← b.addChoice s ⟨f s c (m.distribution s c), (m.action? s c).join⟩
      return b')
    (Draft.empty.addStates m.numStates)
  let withInitial ← m.initialStates.foldlM (fun (b : Draft V) s => b.addInitialState s) withChoices
  withInitial.build

end Mdp

end Reachability
