import Reachability.Error

/-!
# Poisson weights

`PoissonWeights` are weights for consecutive numbers of jumps, proportional to the probabilities
of a Poisson distribution, together with their sum.  `PoissonWeights.compute` finds them for a
rate so that the probability of all other numbers of jumps is small.

For a rate below `directLimit` the probabilities themselves are added up, starting from no jump,
until they cover enough.  For larger rates, tail bounds give the truncation points, and the
weights are computed from the mode outwards, the one of the mode being chosen so that none gets
near the overflow threshold.
-/

namespace Reachability

/-- Weights of `left` jumps, `left + 1` jumps and so on, and their sum. -/
structure PoissonWeights (V : Type) where
  left : Nat
  weights : Array V
  total : V

namespace PoissonWeights

variable {V : Type}

/-- The number of jumps that the last weight belongs to. -/
def right (w : PoissonWeights V) : Nat := w.left + (w.weights.size - 1)

variable [Arithmetic V]

/-- The weight of a number of jumps; it is zero outside of the truncation points. -/
def weight (w : PoissonWeights V) (i : Nat) : V :=
  if i < w.left then 0 else w.weights[i - w.left]?.getD 0

/-- The weights divided by their sum. -/
def normalize (w : PoissonWeights V) : PoissonWeights V :=
  { w with weights := w.weights.map (· / w.total), total := 1 }

/-! ### Adding up probabilities from no jump on -/

/-- Adds the weights after the one of `jumps` jumps until the sum reaches `desired`, or until a
weight past the mode is below the underflow threshold.  At most `fuel` weights are added. -/
def extend (rate underflow desired : V) : Nat → Nat → V → PoissonWeights V → PoissonWeights V
  | 0, _, _, w => w
  | fuel + 1, jumps, last, w =>
    if w.total < desired then
      let next := last * rate / Arithmetic.ofNat (jumps + 1)
      if (next ≤ 0 ∨ next < underflow) ∧ rate < Arithmetic.ofNat jumps then w
      else
        extend rate underflow desired fuel (jumps + 1) next
          { w with weights := w.weights.push next, total := w.total + next }
    else w

/-- The number of weights after the first one that are enough for exact numbers, where the mass
beyond `r` jumps is less than `rate / r`, and for rounded ones, whose weights vanish long before
the number added here. -/
def directFuel (rate accuracy : V) : Nat :=
  Arithmetic.ceilNat (Arithmetic.ofNat 2 * rate / accuracy) + 4096

/-- The probabilities from no jump on, until all but half the accuracy is covered. -/
def direct (rate underflow accuracy : V) : Except (PoissonFault V) (PoissonWeights V) :=
  let first := Arithmetic.exp (-rate)
  if first ≤ 0 ∨ first < underflow then .error (.underflow rate)
  else
    .ok (extend rate underflow (1 - accuracy / Arithmetic.ofNat 2) (directFuel rate accuracy) 0
      first ⟨0, #[first], first⟩)

end PoissonWeights

/-! ### Truncation points from tail bounds -/

namespace Truncation

variable {W : Type} [Wide W]

/-- The bound on the mass of more jumps than `k` scaled standard deviations above the mode. -/
def rightTail (rate k : W) : W :=
  let a := (1 + 1 / rate) * Arithmetic.exp (Arithmetic.decimal 625 4)
    * Wide.sqrt (Arithmetic.ofNat 2)
  let d := 1 / (1 - Arithmetic.exp (-(Arithmetic.ofNat 2 / Arithmetic.ofNat 9)
    * (k * Wide.sqrt (Arithmetic.ofNat 2 * rate) + Arithmetic.decimal 15 1)))
  a * d * Arithmetic.exp (-k * k / Arithmetic.ofNat 2)
    / (k * Wide.sqrt (Arithmetic.ofNat 2 * Wide.pi))

/-- The bound on the mass of fewer jumps than `k` standard deviations below the mode. -/
def leftTail (rate k : W) : W :=
  let b := (1 + 1 / rate)
    * Arithmetic.exp (1 / (Arithmetic.ofNat 8 * rate))
  b * Arithmetic.exp (-k * k / Arithmetic.ofNat 2)
    / (k * Wide.sqrt (Arithmetic.ofNat 2 * Wide.pi))

/-- The least number from `k` on, among the next `fuel` ones, whose tail bound is below the
limit. -/
def firstBelow (tail : W → W) (limit : W) : Nat → Nat → Nat
  | 0, k => k
  | fuel + 1, k => if tail (Arithmetic.ofNat k) < limit then k else firstBelow tail limit fuel (k + 1)

/-- More deviations than any tail bound above the finest accuracy needs. -/
def deviationLimit : Nat := 64

/-- How many deviations the tail with the given bound starts at, to have mass below the
limit. -/
def deviations (tail : W → W) (limit : W) : W :=
  Arithmetic.ofNat (firstBelow tail limit deviationLimit 3)

/-- The number of jumps with the largest weight. -/
def mode (rate : W) : Nat := Wide.toIndex (Wide.floor rate)

/-- The right truncation point for an accuracy. -/
def right (rate accuracy : W) : Nat :=
  let k := deviations (rightTail rate) (accuracy / Arithmetic.ofNat 2)
  Wide.toIndex (Wide.ceil (Wide.floor rate + k * Wide.sqrt (Arithmetic.ofNat 2 * rate)
    + Arithmetic.decimal 15 1))

/-- The left truncation point for an accuracy. -/
def left (rate accuracy : W) : Nat :=
  let k := deviations (leftTail rate) (accuracy / Arithmetic.ofNat 2)
  Wide.toIndex (Arithmetic.larger
    (Wide.floor (Wide.floor rate - k * Wide.sqrt rate - Arithmetic.decimal 15 1)) 0)

end Truncation

namespace PoissonWeights

variable {V W : Type} [Arithmetic V]

/-- The weights of `count` numbers of jumps below `j`, the least one first, in front of the given
ones; `last` is the weight of `j` jumps. -/
def descend (rate : V) : Nat → Nat → V → List V → List V
  | 0, _, _, above => above
  | count + 1, j, last, above =>
    let weight := Arithmetic.ofNat j / rate * last
    descend rate count (j - 1) weight (weight :: above)

/-- The weights of `count` numbers of jumps above `j`, whose weight is `last`. -/
def ascend (rate : V) : Nat → Nat → V → List V
  | 0, _, _ => []
  | count + 1, j, last =>
    let weight := rate / Arithmetic.ofNat (j + 1) * last
    weight :: ascend rate count (j + 1) weight

/-- The weights from `left` to `right` jumps, computed outwards from that of the mode. -/
def outwards (rate modeWeight : V) (left mode right : Nat) : List V :=
  descend rate (mode - left) mode modeWeight
    (modeWeight :: ascend rate (right - mode) mode modeWeight)

/-- The sum of `gap + 1` weights from place `first` on, of which the smaller one of the two ends
is always added next. -/
def sumFromEnds (weights : Array V) : Nat → Nat → V → V
  | 0, first, total => total + weights[first]?.getD 0
  | gap + 1, first, total =>
    let low := weights[first]?.getD 0
    let high := weights[first + gap + 1]?.getD 0
    if low ≤ high then sumFromEnds weights gap (first + 1) (total + low)
    else sumFromEnds weights gap first (total + high)

/-- The factor between the overflow threshold and the weight of the mode. -/
def headroom : Nat := 10000000000

/-- The weight of the mode for the given width. -/
def modeWeight (overflow : V) (width : Nat) : V :=
  Arithmetic.capped overflow / Arithmetic.ofNat (headroom * width)

/-- The weights between given truncation points. -/
def truncated (rate overflow : V) (left mode right : Nat) : PoissonWeights V :=
  let weights := (outwards rate (modeWeight overflow (right - left)) left mode right).toArray
  ⟨left, weights, sumFromEnds weights (weights.size - 1) 0 0⟩

variable [Wide W] [Precision V W]

/-- The rate from which on tail bounds are used. -/
def directLimit : W := Arithmetic.ofNat 400

/-- The finest accuracy that the tail bounds can deliver. -/
def finestAccuracy : W := Arithmetic.decimal 1 10

/-- The weights for a rate from `directLimit` on.  A left truncation point that is the last index
there is leaves none for the weights above it. -/
def tailBounded (rate overflow accuracy : V) : Except (CheckError V W) (PoissonWeights V) :=
  let wideRate := Precision.widen rate
  let wideAccuracy := Precision.widen accuracy
  if wideAccuracy < finestAccuracy then .error (.poissonOverflow (.tooFine accuracy))
  else
    let left := Truncation.left wideRate wideAccuracy
    if indexLimit ≤ left then .error .indexOutOfRange
    else
      .ok (truncated rate overflow left (Truncation.mode wideRate)
        (Truncation.right wideRate wideAccuracy))

/-- The rate and the accuracy must be positive and finite, the thresholds numbers, and the
underflow threshold must not be negative. -/
def validate (rate underflow overflow accuracy : V) : Except (PoissonFault V) Unit :=
  if Arithmetic.isFinite rate = false ∨ rate ≤ 0 then .error (.rate rate)
  else if Arithmetic.isFinite accuracy = false ∨ accuracy ≤ 0 then .error (.accuracy accuracy)
  else if Arithmetic.isNaN underflow ∨ Arithmetic.isNaN overflow ∨ underflow < 0 then
    .error (.thresholds underflow overflow)
  else .ok ()

/-- The weights for a rate, such that the probability of the numbers of jumps without weight is
at most the accuracy. -/
def compute (rate underflow overflow accuracy : V) :
    Except (CheckError V W) (PoissonWeights V) := do
  (validate rate underflow overflow accuracy).mapError .poissonOverflow
  if Precision.widen rate < directLimit then
    (direct rate underflow accuracy).mapError .poissonOverflow
  else tailBounded rate overflow accuracy

end PoissonWeights

end Reachability
