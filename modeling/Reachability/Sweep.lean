import Reachability.Bellman

/-!
# Sweeps over all states

A sweep updates the values of the selected states.  A Jacobi sweep reads one vector and writes
another, so that the order of the states does not matter: `Arena.jacobi` writes them one after
the other, and `Arena.jacobiAtOnce` computes all entries side by side.  A Gauss-Seidel sweep
updates one vector in place, in the order of the states, with the loops of choices solved for,
and reports the largest change.

The sweeps with a question mark answer only if all entries that they read and write exist.
-/

namespace Reachability

/-- How the change of a value is measured. -/
inductive ChangeMeasure where
  | absolute
  | relative
deriving DecidableEq, Repr

/-- The states that are operated on: all of them, those of a set, or those outside of it. -/
structure Selection where
  set : Option StateSet
  complement : Bool

namespace Selection

/-- The selection of all states. -/
def all : Selection := ⟨none, false⟩

/-- The selection of the states of a set. -/
def only (set : StateSet) : Selection := ⟨some set, false⟩

/-- Whether a state is selected. -/
def has (sel : Selection) (s : Nat) : Bool :=
  match sel.set with
  | some set => set.contains s != sel.complement
  | none => true

end Selection

variable {V : Type} [Arithmetic V]

/-- How far a value has moved.  The relative change is measured by the new value, unless that is
zero. -/
def ChangeMeasure.change (measure : ChangeMeasure) (old new : V) : V :=
  let difference := Arithmetic.abs (new - old)
  match measure with
  | absolute => difference
  | relative => if new == 0 then difference else difference / Arithmetic.abs new

/-- The changes between two vectors at the selected states. -/
def ChangeMeasure.changes (measure : ChangeMeasure) (sel : Selection) (old new : Array V) :
    List V :=
  ((old.zip new).toList.zipIdx.filter fun (_, s) => sel.has s).map fun ((x, y), _) =>
    measure.change x y

/-- The largest change between two vectors at the selected states. -/
def ChangeMeasure.maxChange (measure : ChangeMeasure) (sel : Selection) (old new : Array V) : V :=
  Arithmetic.maximum (measure.changes sel old new)

/-- The choice taken in each state, as far as one was. -/
abbrev Strategy := Array (Option Nat)

namespace Arena

variable (a : Arena V) (rewards : Option (Rewards V)) (o : Objective) (sel : Selection)

/-- The value of a state for its owner, and the choice taken. -/
def update (v : Nat → V) (s : Nat) : V × Option Nat :=
  a.optimal rewards v (a.direction o s) s

/-- Writes the new value and the choice of a state into their places. -/
def writeState (v : Nat → V) (out : Array V × Strategy) (s : Nat) : Array V × Strategy :=
  let (value, choice) := a.update rewards o v s
  (out.1.setIfInBounds s value, out.2.setIfInBounds s choice)

/-- Updates the selected ones of the listed states one after the other. -/
def writeStates (v : Nat → V) (states : List Nat) (out : Array V × Strategy) :
    Array V × Strategy :=
  (states.filter sel.has).foldl (a.writeState rewards o v) out

/-- The Jacobi sweep from `v` into the given vector and strategy, state by state. -/
def jacobi (v : Array V) (out : Array V × Strategy) : Array V × Strategy :=
  a.writeStates rewards o sel (valuation v) (List.range a.numStates) out

/-- A sweep changes no lengths. -/
theorem size_writeStates (v : Nat → V) (states : List Nat) (out : Array V × Strategy) :
  (a.writeStates rewards o sel v states out).1.size = out.1.size
    ∧ (a.writeStates rewards o sel v states out).2.size = out.2.size
  := by
  unfold writeStates
  induction states.filter sel.has generalizing out with
  | nil => exact ⟨rfl, rfl⟩
  | cons s states ih =>
    rw [List.foldl_cons]
    simpa [writeState] using ih (a.writeState rewards o v out s)

@[simp]
theorem size_jacobi_fst (v : Array V) (out : Array V × Strategy) :
  (a.jacobi rewards o sel v out).1.size = out.1.size
  := (a.size_writeStates rewards o sel (valuation v) (List.range a.numStates) out).1

@[simp]
theorem size_jacobi_snd (v : Array V) (out : Array V × Strategy) :
  (a.jacobi rewards o sel v out).2.size = out.2.size
  := (a.size_writeStates rewards o sel (valuation v) (List.range a.numStates) out).2

/-- The Jacobi sweep from `v` into the given vector and strategy, all entries at once. -/
def jacobiAtOnce (v : Array V) (out : Array V × Strategy) : Array V × Strategy :=
  (out.1.mapIdx fun s old => if sel.has s then (a.update rewards o (valuation v) s).1 else old,
   out.2.mapIdx fun s old => if sel.has s then (a.update rewards o (valuation v) s).2 else old)

/-- The largest change so far and the vector, after the Gauss-Seidel update of a state. -/
def relaxState (measure : ChangeMeasure) (acc : V × Array V) (s : Nat) : V × Array V :=
  let value := a.loopFreeOptimum rewards (valuation acc.2) (a.direction o s) s
  (Arithmetic.larger acc.1 (measure.change (valuation acc.2 s) value),
   acc.2.setIfInBounds s value)

/-- The Gauss-Seidel sweep of a vector, with the largest change that it made. -/
def gaussSeidel (measure : ChangeMeasure) (v : Array V) : V × Array V :=
  ((List.range a.numStates).filter sel.has).foldl (a.relaxState rewards o measure) (0, v)

/-! ### Sweeps of vectors of any length -/

/-- The successors of all choices of a state. -/
def allSuccessors (s : Nat) : List Nat :=
  (List.range (a.mdp.numChoices s)).flatMap fun c => (a.mdp.successors s c).map Prod.fst

/-- Whether a vector of the given length covers all successors of a state. -/
def covers (length s : Nat) : Bool := (a.allSuccessors s).all (· < length)

/-- The Jacobi sweep, state by state, into a vector and possibly a strategy; all selected states
must have their places in them. -/
def jacobi? (v result : Array V) (strategy : Option Strategy) :
    Option (Array V × Option Strategy) :=
  let states := (List.range a.numStates).filter sel.has
  if states.all fun s => s < result.size && (strategy.all fun t => s < t.size)
      && a.covers v.size s
  then
    let (values, choices) := a.jacobi rewards o sel v (result, strategy.getD #[])
    some (values, strategy.map fun _ => choices)
  else none

/-- The Jacobi sweep over the places of a vector and possibly a strategy; all selected places
must be those of states. -/
def jacobiAtOnce? (v result : Array V) (strategy : Option Strategy) :
    Option (Array V × Option Strategy) :=
  let length := match strategy with
    | some t => min result.size t.size
    | none => result.size
  let places := (List.range length).filter sel.has
  if places.all fun s => s < a.numStates && a.covers v.size s then
    let (values, choices) :=
      a.jacobiAtOnce rewards o sel v (result.extract 0 length, (strategy.getD #[]).extract 0 length)
    some (values ++ result.extract length result.size,
      strategy.map fun t => choices ++ t.extract length t.size)
  else none

/-- The Gauss-Seidel sweep of a vector; it must cover all selected states and their
successors. -/
def gaussSeidel? (measure : ChangeMeasure) (v : Array V) : Option (V × Array V) :=
  let states := (List.range a.numStates).filter sel.has
  if states.all fun s => s < v.size && a.covers v.size s
  then some (a.gaussSeidel rewards o sel measure v)
  else none

/-- The value of a choice that exists, if the vector covers its successors. -/
def choiceValue? (v : Array V) (s c : Nat) : Option V := do
  let row ← a.mdp.successors? s c
  if row.all fun (t, _) => t < v.size then some (a.choiceValue rewards (valuation v) s c) else none

/-- The value of a state that exists, if the vector covers its successors. -/
def optimal? (v : Array V) (d : Direction) (s : Nat) : Option (V × Option Nat) :=
  if s < a.numStates ∧ a.covers v.size s then some (a.optimal rewards (valuation v) d s) else none

/-- The choices with about the given value of a state that exists, if the vector covers its
successors. -/
def optimalChoices? (v : Array V) (s : Nat) (value : V) : Option (List Nat) :=
  if s < a.numStates ∧ a.covers v.size s then some (a.optimalChoices rewards (valuation v) s value)
  else none

end Arena

end Reachability
