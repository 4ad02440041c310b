import Reachability.Decimal

/-!
# The fewest digits that read back

A finite binary number is `mantissa * 2 ^ exponent`.  The decimal numbers that read back as it
form an interval around it, which reaches half way to its two neighbours and contains its ends
if the mantissa is even.  `Binary.shortest` is the decimal number with the fewest digits in that
interval; of two such numbers it is the nearer one, and the larger one if they are equally near.

All comparisons are between natural numbers: the interval is scaled by a common factor to the
grid of seventeen digits, which is fine enough for numbers of 64 bits.
-/

namespace Reachability

/-- A positive binary number `mantissa * 2 ^ exponent`.  `narrow` is set if the gap below it is
half the gap above it. -/
structure Binary where
  mantissa : Nat
  exponent : Int
  narrow : Bool
deriving DecidableEq, Repr

namespace Binary

/-- The interval of a binary number on a decimal grid: in units of `1 / unit` of the grid's step
`10 ^ scale`, the number is `value`, and what reads back as it lies between `lower` and `upper`. -/
structure Interval where
  lower : Nat
  value : Nat
  upper : Nat
  unit : Nat
  closed : Bool

/-- The number of digits of the finest grid. -/
def finestDigits : Nat := 17

/-- Whether the number is below `10 ^ k`. -/
def isBelowPower (x : Binary) (k : Int) : Bool :=
  x.mantissa * Nat.pow 2 x.exponent.toNat * Nat.pow 10 (-k).toNat
    < Nat.pow 10 k.toNat * Nat.pow 2 (-x.exponent).toNat

/-- The least power of ten above the number, found among the candidates that its binary
magnitude leaves. -/
def decimalPlace (x : Binary) : Int :=
  let magnitude : Int := (Nat.log2 x.mantissa : Int) + x.exponent
  let least : Int := magnitude * 30103 / 100000 - 1
  match (List.range 4).find? fun (i : Nat) => x.isBelowPower (least + i) with
  | some i => least + i
  | none => least + 4

/-- The interval of a number on the grid with step `10 ^ scale`. -/
def interval (x : Binary) (scale : Int) : Interval :=
  let factor := Nat.pow 2 (x.exponent - 2).toNat * Nat.pow 10 (-scale).toNat
  { lower := (if x.narrow then 4 * x.mantissa - 1 else 4 * x.mantissa - 2) * factor
    value := 4 * x.mantissa * factor
    upper := (4 * x.mantissa + 2) * factor
    unit := Nat.pow 2 (2 - x.exponent).toNat * Nat.pow 10 scale.toNat
    closed := x.mantissa % 2 == 0 }

namespace Interval

/-- Whether a number lies in the interval. -/
def contains (i : Interval) (n : Nat) : Bool :=
  (i.lower < n || (i.closed && i.lower == n)) && (n < i.upper || (i.closed && n == i.upper))

/-- The multiple of `step` in the interval that is nearest to the number, if there is one among
its two neighbours; the larger one if both are equally near. -/
def nearest? (i : Interval) (step : Nat) : Option Nat :=
  let below := i.value / step
  match i.contains (below * step), i.contains ((below + 1) * step) with
  | true, true => some (if 2 * i.value < (2 * below + 1) * step then below else below + 1)
  | true, false => some below
  | false, true => some (below + 1)
  | false, false => none

/-- The first hit among the grids with `count` fewer digits than the finest one, `count - 1`
fewer, and so on, with the number of digits it is short of. -/
def search (i : Interval) : Nat → Nat × Nat
  | 0 => (i.value / i.unit, 0)
  | count + 1 =>
    match i.nearest? (i.unit * Nat.pow 10 count) with
    | some digits => (digits, count)
    | none => search i count

end Interval

/-- Moves up to `count` zeros at the end of the digits into the exponent. -/
def dropZeros : Nat → Nat → Int → Nat × Int
  | 0, digits, exponent => (digits, exponent)
  | count + 1, digits, exponent =>
    if digits % 10 = 0 then dropZeros count (digits / 10) (exponent + 1) else (digits, exponent)

/-- The digits and the exponent of the shortest decimal number that reads back. -/
def shortest (x : Binary) : Nat × Int :=
  let scale := x.decimalPlace - finestDigits
  let (digits, short) := (x.interval scale).search finestDigits
  dropZeros finestDigits digits (scale + short)

end Binary

/-- The widths of the parts of a binary format. -/
structure BinaryFormat where
  exponentBits : Nat
  fractionBits : Nat

namespace BinaryFormat

/-- The numbers of 64 bits. -/
def double : BinaryFormat := ⟨11, 52⟩

/-- The numbers of 32 bits. -/
def single : BinaryFormat := ⟨8, 23⟩

/-- The decimal number that is written for a bit pattern of the format: the shortest one that
reads back. -/
def decimal (f : BinaryFormat) (bits : Nat) : Decimal :=
  let fractions := Nat.pow 2 f.fractionBits
  let fields := Nat.pow 2 f.exponentBits
  let fraction := bits % fractions
  let field := bits / fractions % fields
  let negative := bits / (fractions * fields) % 2 == 1
  let bias : Int := fields / 2 - 1
  if field = fields - 1 then
    if fraction = 0 then .infinite negative else .nan
  else if field = 0 ∧ fraction = 0 then
    .finite negative 0 0
  else
    let x : Binary :=
      if field = 0 then ⟨fraction, 1 - bias - f.fractionBits, false⟩
      else ⟨fractions + fraction, field - bias - f.fractionBits,
        fraction == 0 && field > 1⟩
    .finite negative x.shortest.1 x.shortest.2

end BinaryFormat

instance : Written Float where
  decimal := fun x => BinaryFormat.double.decimal x.toBits.toNat

instance : Written Float32 where
  decimal := fun x => BinaryFormat.single.decimal x.toBits.toNat

end Reachability
