/-!
# JSON documents

`Json` is a JSON document.  Its numbers are kept as they are written, as a `Numeral`: a sign,
digits, a power of ten, and whether the numeral is written as a whole number.  `Json.field?`
looks a field of an object up; of two fields of one name the later one counts.
-/

namespace Reachability

/-- A number as it is written in a document: `digits * 10 ^ exponent`.  It is `whole` if it is
written without a point and without an exponent. -/
structure Numeral where
  negative : Bool
  digits : Nat
  exponent : Int
  whole : Bool
deriving DecidableEq, Repr

namespace Numeral

/-- The numeral of an integer. -/
def ofInt (z : Int) : Numeral := ⟨z < 0, z.natAbs, 0, true⟩

/-- The integer that a numeral names, if it is written as a whole number other than `-0`. -/
def integer? (n : Numeral) : Option Int :=
  if n.whole ∧ ¬ (n.negative ∧ n.digits = 0) then
    some (if n.negative then -n.digits else n.digits)
  else none

/-- The numeral of an integer is read back as that integer. -/
theorem integer?_ofInt (z : Int) :
  (ofInt z).integer? = some z
  := by
  have whole : (ofInt z).whole = true := rfl
  have digits : (ofInt z).digits = z.natAbs := rfl
  have negative : (ofInt z).negative = true ↔ z < 0 := decide_eq_true_iff
  unfold integer?
  rw [digits, if_pos ⟨whole, fun h => by have := negative.1 h.1; omega⟩]
  apply congrArg some
  split
  · next h =>
    have := negative.1 h
    omega
  · next h =>
    have := mt negative.2 h
    omega

end Numeral

/-- A JSON document. -/
inductive Json where
  | null
  | bool (value : Bool)
  | number (numeral : Numeral)
  | string (text : String)
  | array (items : List Json)
  | object (fields : List (String × Json))

/-- A type whose finite values are written as numerals in documents. -/
class Numeric (W : Type) where
  /-- The numeral of a value; there is none for what is not a finite number. -/
  numeral? : W → Option Numeral
  /-- The value that a numeral names. -/
  ofNumeral : Numeral → W

namespace Json

/-- The last of the fields with the given name. -/
def lastField? (fields : List (String × Json)) (name : String) : Option Json :=
  (fields.reverse.find? fun field => field.1 == name).map Prod.snd

/-- The field of an object with the given name. -/
def field? : Json → String → Option Json
  | object fields, name => lastField? fields name
  | _, _ => none

/-- The document of an integer. -/
def int (z : Int) : Json := number (Numeral.ofInt z)

/-- The document of a value: a number if it is finite, and `null` otherwise. -/
def ofNumeric {W : Type} [Numeric W] (x : W) : Json :=
  match Numeric.numeral? x with
  | some n => number n
  | none => null

end Json

end Reachability
