import Reachability.Arithmetic
import Reachability.Bound

/-!
# Causes of failure

`CheckError V W` lists why a model cannot be built or a query cannot be answered, for values of
type `V` and settings of type `W`, and `CheckError.message` words each cause.  The causes carry
the values that the wording names; rates and changes are widened before they are written.
-/

namespace Reachability

/-- The kinds of models. -/
inductive ModelKind where
  | mdp
  | stpg
  | ctmdp
deriving DecidableEq, Repr

/-- The name of a kind of models. -/
def ModelKind.name : ModelKind → String
  | mdp => "MDP"
  | stpg => "STPG"
  | ctmdp => "CTMDP"

/-- What is wrong with a distribution. -/
inductive MassFault (V : Type) where
  /-- It has no successors. -/
  | empty
  /-- The mass of a successor is negative or not finite. -/
  | mass (mass : V) (successor : Nat)
  /-- The masses do not sum to one. -/
  | total (sum : V)

/-- Why there are no Poisson weights. -/
inductive PoissonFault (V : Type) where
  /-- The rate is not positive and finite. -/
  | rate (rate : V)
  /-- The accuracy is not positive and finite. -/
  | accuracy (accuracy : V)
  /-- A threshold is negative or not a number. -/
  | thresholds (underflow overflow : V)
  /-- The weight of no jump is below the underflow threshold. -/
  | underflow (rate : V)
  /-- The accuracy is finer than the tail bounds can deliver. -/
  | tooFine (accuracy : V)

/-- What has the wrong length. -/
inductive Sized where
  | initialVector
  | labelling
deriving DecidableEq, Repr

/-- The kinds of bounds. -/
inductive BoundKind where
  | step
  | time
deriving DecidableEq, Repr

/-- Why a model cannot be built or a query cannot be answered. -/
inductive CheckError (V W : Type) where
  /-- The bound of a formula admits nothing. -/
  | invalidBound (bound : Interval W)
  /-- The exit rates of a model differ. -/
  | notLocallyUniform (state choice : Nat) (rate maximalRate : V)
  /-- The Poisson weights cannot be computed. -/
  | poissonOverflow (fault : PoissonFault V)
  /-- A number is the tag of no player. -/
  | invalidPlayer (tag : Int)
  /-- No label has the name. -/
  | unknownLabel (name : String)
  /-- The distribution of a choice cannot be used. -/
  | invalidDistribution (state choice : Nat) (fault : MassFault V)
  /-- An exit rate is not positive and finite. -/
  | invalidRate (state : Nat) (rate : V)
  /-- A state is not one of the model. -/
  | stateOutOfRange (state numStates : Nat)
  /-- A vector or a labelling does not have the size of the model. -/
  | dimensionMismatch (what : Sized) (expected actual : Nat)
  /-- The kind of bound does not go with the kind of model. -/
  | unsupportedBound (bound : BoundKind) (model : ModelKind)
  /-- The iterations allowed do not suffice.  There is no largest change before the first one. -/
  | notConverged (iterations : Nat) (change : Option V)
  /-- Something is addressed by an index that it does not have. -/
  | indexOutOfRange

/-- The name of what has the wrong length. -/
def Sized.name : Sized → String
  | initialVector => "initial solution vector"
  | labelling => "labelling"

/-- The name of a kind of bounds. -/
def BoundKind.name : BoundKind → String
  | step => "Step"
  | time => "Time"

variable {V W : Type} [Precision V W] [Written V] [Written W]

/-- The wording of what is wrong with a distribution. -/
def MassFault.message : MassFault V → String
  | empty => "empty distribution"
  | mass p successor => "mass " ++ plainText p ++ " for successor " ++ toString successor
  | total sum => "masses sum to " ++ plainText sum

/-- The finest accuracy of the tail bounds, as it is worded. -/
def finestAccuracyText : String := "0.0000000001"

/-- The wording of why there are no Poisson weights. -/
def PoissonFault.message : PoissonFault V → String
  | rate r => "rate " ++ plainText r ++ " must be positive and finite"
  | accuracy a => "accuracy " ++ plainText a ++ " must be positive and finite"
  | thresholds u o => "invalid thresholds " ++ plainText u ++ " and " ++ plainText o
  | underflow r => "e^-" ++ plainText r ++ " underflows"
  | tooFine a =>
    "accuracy " ++ plainText (Precision.widen a) ++ " is below the Fox-Glynn minimum of "
      ++ finestAccuracyText

/-- The wording of a cause. -/
def CheckError.message : CheckError V W → String
  | invalidBound b => "Invalid upper bound " ++ b.text ++ " in bounded until formula"
  | notLocallyUniform s c r q =>
    "CTMDP not locally uniform: rate " ++ plainText (Precision.widen r) ++ " at " ++ toString s
      ++ ":" ++ toString c ++ " vs " ++ plainText (Precision.widen q)
  | poissonOverflow f =>
    "Overflow in Fox-Glynn computation (time bound too big?): " ++ f.message
  | invalidPlayer tag => "Player " ++ toString tag ++ " is undefined!"
  | unknownLabel name => "Unknown label \"" ++ name ++ "\""
  | invalidDistribution s c f =>
    "Invalid distribution for state " ++ toString s ++ ", choice " ++ toString c ++ ": "
      ++ f.message
  | invalidRate s r =>
    "Invalid exit rate " ++ plainText (Precision.widen r) ++ " for state " ++ toString s
  | stateOutOfRange s n =>
    "State " ++ toString s ++ " out of range (model has " ++ toString n ++ " states)"
  | dimensionMismatch what expected actual =>
    what.name ++ " has length " ++ toString actual ++ ", expected " ++ toString expected
  | unsupportedBound b m => b.name ++ " bounds are not supported for " ++ m.name ++ "s"
  | notConverged iterations change =>
    "Iterative method did not converge within " ++ toString iterations
      ++ " iterations (max change "
      ++ (match change with
          | some x => plainText (Precision.widen x)
          | none => (Decimal.infinite false).plain)
      ++ ")"
  | indexOutOfRange => "Index out of range"

end Reachability
