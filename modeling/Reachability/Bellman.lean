import Reachability.Model
import Reachability.Rewards

/-!
# Values of choices and states

A valuation gives every state a value.  The value of a choice is the sum of its successors'
values, each times its mass, plus the reward of the step if there are rewards.  The value of a
state is the best value of its choices for the direction of its owner; of several best choices
the first one is taken.  A state without choices has value zero and takes none.

`Arena.loopFreeValue` is the value of a choice with its loop to its own state solved for.
-/

namespace Reachability

variable {V : Type} [Arithmetic V]

/-- Reads a vector as a valuation; what it does not cover has value zero. -/
def valuation (v : Array V) (s : Nat) : V := v[s]?.getD 0

/-- The sum of the values of successors, each times its mass. -/
def expectation (row : List (Nat × V)) (v : Nat → V) : V :=
  Arithmetic.sum (row.map fun (s, p) => p * v s)

/-- The reward of a step, or zero where there are no rewards. -/
def rewardOrZero (rewards : Option (Rewards V)) (s c : Nat) : V :=
  match rewards with
  | some r => r.stepReward s c
  | none => 0

/-- The best so far of the values of choices, with its choice, when the value of the next choice
is looked at. -/
def Direction.choose (d : Direction) (best : Option (V × Nat)) (candidate : V × Nat) :
    Option (V × Nat) :=
  match best with
  | some (value, choice) => if d.improves candidate.1 value then some candidate else some (value, choice)
  | none => some candidate

/-- The best of a list of values of choices, and the first choice that has it. -/
def Direction.best (d : Direction) (values : List V) : Option (V × Nat) :=
  values.zipIdx.foldl d.choose none

namespace Arena

/-- How far the value of a choice may be from a value that it is said to attain. -/
def tieTolerance : V := Arithmetic.decimal 1 12

variable (a : Arena V) (rewards : Option (Rewards V)) (v : Nat → V)

/-- The value of a choice. -/
def choiceValue (s c : Nat) : V :=
  let expected := expectation (a.mdp.successors s c) v
  match rewards with
  | some r => expected + r.stepReward s c
  | none => expected

/-- The values of all choices of a state. -/
def choiceValues (s : Nat) : List V :=
  (List.range (a.mdp.numChoices s)).map (a.choiceValue rewards v s)

/-- The best value of the choices of a state and the first choice that has it, or zero and no
choice if there are none. -/
def valueAndChoice (d : Direction) (values : List V) : V × Option Nat :=
  match d.best values with
  | some (value, choice) => (value, some choice)
  | none => (0, none)

/-- The value of a state for a direction, and the choice taken. -/
def optimal (d : Direction) (s : Nat) : V × Option Nat :=
  valueAndChoice d (a.choiceValues rewards v s)

/-- All choices of a state whose value is within the tolerance of a given one. -/
def optimalChoices (s : Nat) (value : V) : List Nat :=
  (List.range (a.mdp.numChoices s)).filter fun c =>
    decide (Arithmetic.abs (a.choiceValue rewards v s c - value) ≤ tieTolerance)

/-- The reward of a step and the values of the successors other than the state itself, each times
its mass. -/
def escapeValue (s c : Nat) : V :=
  (a.mdp.successors s c).foldl
    (fun total (t, p) => if t = s then total else total + p * v t)
    (rewardOrZero rewards s c)

/-- One less the mass with which a choice leads back to its own state. -/
def escapeMass (s c : Nat) : V :=
  (a.mdp.successors s c).foldl (fun mass (t, p) => if t = s then mass - p else mass) 1

/-- The value of a choice with its loop solved for: what it gains elsewhere, divided by the mass
with which it gets there.  A choice that only loops has its gain alone. -/
def loopFreeValue (s c : Nat) : V :=
  let gain := a.escapeValue rewards v s c
  let mass := a.escapeMass s c
  if 0 < mass then gain / mass else gain

/-- The best value of the choices of a state with their loops solved for. -/
def loopFreeOptimum (d : Direction) (s : Nat) : V :=
  (valueAndChoice d
    ((List.range (a.mdp.numChoices s)).map (a.loopFreeValue rewards v s))).1

end Arena

end Reachability
