import Reachability.Arithmetic.Binary
import Reachability.Decimal.Shortest
import Reachability.Json

/-!
# Numbers of 64 bits in documents

A finite number of 64 bits is written with the fewest digits that read back, and a numeral names
the number nearest to it.  Numerals far outside the range of finite numbers are recognised by
their number of digits and their exponent.
-/

namespace Reachability

namespace Numeral

/-- The power of ten beyond which a number of 64 bits is infinite, and below whose inverse
it is zero. -/
def doubleRange : Int := 400

/-- The number of 64 bits nearest to a numeral. -/
def toDouble (n : Numeral) : Float :=
  let place := Decimal.place n.digits n.exponent
  let magnitude : Float :=
    if n.digits = 0 then 0.0
    else if place > doubleRange then 1.0 / 0.0
    else if place < -doubleRange then 0.0
    else Float.ofScientific n.digits (n.exponent < 0) n.exponent.natAbs
  if n.negative then -magnitude else magnitude

end Numeral

/-- The numeral of a finite decimal number. -/
def Decimal.numeral? : Decimal → Option Numeral
  | .finite negative digits exponent => some ⟨negative, digits, exponent, false⟩
  | _ => none

instance : Numeric Float where
  numeral? := fun x => (Written.decimal x).numeral?
  ofNumeral := Numeral.toDouble

end Reachability
