/-!
# Decimal numbers

`Decimal` is what is written for a number: nothing that is a number, an infinity, or a sign
with digits and a power of ten.  There are three layouts.

* `Decimal.plain` writes all digits and no exponent.
* `Decimal.scientific` writes one digit before the point and always an exponent.
* `Decimal.mixed` writes an exponent for very large and very small numbers only, and
  otherwise at least one digit after the point.

`Written V` says which decimal number is written for a value of type `V`.
-/

namespace Reachability

/-- A number as it is written: `finite n d e` is `d * 10 ^ e`, negative if `n` is set.
The last of the digits is not zero, unless all of them are. -/
inductive Decimal where
  | nan
  | infinite (negative : Bool)
  | finite (negative : Bool) (digits : Nat) (exponent : Int)
deriving DecidableEq, Repr

/-- A type whose values are written as decimal numbers. -/
class Written (V : Type) where
  /-- What is written for a value. -/
  decimal : V → Decimal

namespace Decimal

/-- The sign that is written in front of a number. -/
def sign (negative : Bool) : String := if negative then "-" else ""

/-- As many zeros as given. -/
def zeros (count : Nat) : List Char := List.replicate count '0'

/-- Digits with the point after the first `place` of them, filled up with zeros. -/
def pointed (digits : List Char) (place : Int) : List Char :=
  if place ≤ 0 then
    '0' :: '.' :: (zeros (-place).toNat ++ digits)
  else if digits.length ≤ place.toNat then
    digits ++ zeros (place.toNat - digits.length)
  else
    digits.take place.toNat ++ '.' :: digits.drop place.toNat

/-- The digits of a number, the first one first. -/
def digitList (digits : Nat) : List Char := Nat.toDigits 10 digits

/-- How many digits stand before the point of a number in positional notation; it is zero or
negative for numbers below one. -/
def place (digits : Nat) (exponent : Int) : Int :=
  (digitList digits).length + exponent

/-- The magnitude of a number in positional notation, without a point if it is whole. -/
def positional (digits : Nat) (exponent : Int) : List Char :=
  if digits = 0 then ['0'] else pointed (digitList digits) (place digits exponent)

/-- The magnitude of a number with one digit before the point and an exponent. -/
def exponential (digits : Nat) (exponent : Int) : List Char :=
  if digits = 0 then ['0', 'e', '0']
  else
    match digitList digits with
    | [] => []
    | first :: rest =>
      first :: (if rest.isEmpty then [] else '.' :: rest)
        ++ 'e' :: (toString (place digits exponent - 1)).toList

/-- The number with all its digits and without an exponent. -/
def plain : Decimal → String
  | nan => "NaN"
  | infinite negative => sign negative ++ "inf"
  | finite negative digits exponent =>
    sign negative ++ String.ofList (positional digits exponent)

/-- The number with one digit before the point and an exponent. -/
def scientific : Decimal → String
  | nan => "NaN"
  | infinite negative => sign negative ++ "inf"
  | finite negative digits exponent =>
    sign negative ++ String.ofList (exponential digits exponent)

/-- Whether a number is too large or too small for the positional part of the mixed layout:
it is not below `10 ^ 16`, or it is below `10 ^ -4` and not zero. -/
def isExtreme (digits : Nat) (exponent : Int) : Bool :=
  digits != 0 && (place digits exponent > 16 || place digits exponent < -3)

/-- The number with an exponent if it is very large or very small, and otherwise with at least
one digit after the point. -/
def mixed : Decimal → String
  | nan => "NaN"
  | infinite negative => sign negative ++ "inf"
  | finite negative digits exponent =>
    if isExtreme digits exponent then scientific (finite negative digits exponent)
    else
      let magnitude := positional digits exponent
      sign negative ++ String.ofList (if '.' ∈ magnitude then magnitude else magnitude ++ ['.', '0'])

end Decimal

/-- The text of a value with all its digits and without an exponent. -/
def plainText {V : Type} [Written V] (x : V) : String := (Written.decimal x).plain

/-- The text of a value in the mixed layout. -/
def mixedText {V : Type} [Written V] (x : V) : String := (Written.decimal x).mixed

end Reachability
