import Reachability.Decimal

/-!
# Bounds on steps and time

A bounded until formula allows at most a number of steps, or at most an amount of time, or less
than that.  An `Interval` is one of the two kinds of bound, and its text is the comparison and
the bound.
-/

namespace Reachability

/-- A bound on the number of steps; a strict bound is not reached itself. -/
structure StepBound where
  bound : Int
  strict : Bool
deriving DecidableEq, Repr

/-- A bound on the elapsed time; a strict bound is not reached itself. -/
structure TimeBound (W : Type) where
  bound : W
  strict : Bool

/-- The bound of a formula, on steps or on time. -/
inductive Interval (W : Type) where
  | steps (bound : StepBound)
  | time (bound : TimeBound W)

/-- The comparison of a bound. -/
def comparator (strict : Bool) : String := if strict then "<" else "<="

/-- The text of a bound on steps. -/
def StepBound.text (b : StepBound) : String := comparator b.strict ++ toString b.bound

/-- The text of a bound on time. -/
def TimeBound.text {W : Type} [Written W] (b : TimeBound W) : String :=
  comparator b.strict ++ plainText b.bound

/-- The text of a bound. -/
def Interval.text {W : Type} [Written W] : Interval W → String
  | steps b => b.text
  | time b => b.text

end Reachability
