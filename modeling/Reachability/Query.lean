import Reachability.Error
import Reachability.Objective

/-!
# Bounded until queries

A `BoundedUntil` asks for the probability of reaching one label within a bound while staying in
another, under an objective.  A bound is valid if it admits something: a number of steps that is
not negative, or a finite time that is not negative, and not zero if the bound is strict.
-/

namespace Reachability

variable {V W : Type}

/-- A bound on steps must admit some number of steps. -/
def StepBound.validate (b : StepBound) : Except (CheckError V W) Unit :=
  if b.bound < 0 ∨ (b.bound = 0 ∧ b.strict = true) then .error (.invalidBound (.steps b))
  else .ok ()

/-- The number of steps that a bound allows; a strict bound allows one step less. -/
def StepBound.steps (b : StepBound) : Except (CheckError V W) Nat := do
  b.validate
  return (if b.strict then b.bound - 1 else b.bound).toNat

/-- A bound on time must be finite and admit some time. -/
def TimeBound.validate [Arithmetic W] (b : TimeBound W) : Except (CheckError V W) Unit :=
  if Arithmetic.isFinite b.bound = false ∨ b.bound < 0 ∨ ((b.bound == 0) = true ∧ b.strict = true)
  then .error (.invalidBound (.time b))
  else .ok ()

/-- A query for the optimal probability of reaching the target label within the bound, while all
states before carry the label `remain`, if there is one. -/
structure BoundedUntil (W : Type) where
  remain : Option String
  target : String
  interval : Interval W
  objective : Objective

/-- A label in quotes. -/
def quoted (label : String) : String := "\"" ++ label ++ "\""

/-- The text of a query. -/
def BoundedUntil.text [Written W] (query : BoundedUntil W) : String :=
  "P" ++ query.objective.name ++ "=? [ "
    ++ (match query.remain with
        | some label => quoted label
        | none => "true")
    ++ " U" ++ query.interval.text ++ " " ++ quoted query.target ++ " ]"

end Reachability
