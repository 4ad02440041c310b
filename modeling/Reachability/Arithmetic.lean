/-!
# Arithmetic

`Arithmetic V` is the arithmetic in which probabilities, rates and rewards of type `V`
are computed.  It names operations and asks for no law, so that rounded and exact numbers
are both instances; what holds only for exact numbers is stated for exact numbers.

`Wide W` adds what the choice of truncation points and step counts needs beyond that, and
`Precision V W` relates the values to the numbers of the wider type `W`, in which settings
and time bounds are given.

`Arithmetic.sum` adds a list from the left, starting from `-0`, and `Arithmetic.larger`
is the larger of two values, where something that is not a number counts as missing.
-/

namespace Reachability

/-- The largest index that fits a machine word of 64 bits. -/
def indexLimit : Nat := 18446744073709551615

/-- The operations on values; none of them is assumed to obey a law. -/
class Arithmetic (V : Type) extends
    Zero V, One V, Add V, Sub V, Mul V, Div V, Neg V, LT V, LE V, BEq V where
  /-- It is decidable whether one value is below another. -/
  decidableLT : DecidableLT V
  /-- It is decidable whether one value is at most another. -/
  decidableLE : DecidableLE V
  /-- The value nearest to a natural number. -/
  ofNat : Nat → V
  /-- `decimal m e` is the value nearest to `m / 10 ^ e`. -/
  decimal : Nat → Nat → V
  /-- The absolute value. -/
  abs : V → V
  /-- The exponential function. -/
  exp : V → V
  /-- Whether a value is a number and not infinite. -/
  isFinite : V → Bool
  /-- A value cut down to the largest finite one. -/
  capped : V → V
  /-- A natural number that is at least the value, if the value is finite. -/
  ceilNat : V → Nat

namespace Arithmetic

variable {V : Type} [Arithmetic V]

instance : DecidableLT V := Arithmetic.decidableLT

instance : DecidableLE V := Arithmetic.decidableLE

/-- A value is not a number if it differs from itself. -/
def isNaN (x : V) : Bool := !(x == x)

/-- The larger of two values; something that is not a number counts as missing. -/
def larger (x y : V) : V :=
  if isNaN x then y else if x < y then y else x

/-- The sum of a list, added from the left and starting from `-0`. -/
def sum (terms : List V) : V :=
  terms.foldl (· + ·) (-0)

/-- The largest value of a list and zero. -/
def maximum (values : List V) : V :=
  values.foldl larger 0

@[simp]
theorem sum_nil :
  sum ([] : List V) = -0
  := rfl

/-- The last term is added last. -/
theorem sum_append_singleton (terms : List V) (x : V) :
  sum (terms ++ [x]) = sum terms + x
  := by
  simp [sum]

end Arithmetic

/-- The operations on the numbers that truncation points and step counts are computed in. -/
class Wide (W : Type) extends Arithmetic W where
  /-- The square root. -/
  sqrt : W → W
  /-- The largest whole number at most a number. -/
  floor : W → W
  /-- The least whole number at least a number. -/
  ceil : W → W
  /-- The circle constant. -/
  pi : W
  /-- The whole part of a number as an index, at least zero and at most `indexLimit`. -/
  toIndex : W → Nat

/-- Conversions between values and the wider numbers of settings and time bounds. -/
class Precision (V : Type) (W : outParam Type) where
  /-- A value as a wider number. -/
  widen : V → W
  /-- The value nearest to a wider number. -/
  narrow : W → V

end Reachability
