import Mathlib
import Reachability.Proofs.Rounding

/-!
# Weights in place

The weights between truncation points can be computed in one array that has a place for each of them:
the mode's first, then those below it downwards and those above it upwards, each from its neighbour,
and then their sum with one mark that moves up from the first place and one that moves down from the
last.  `PoissonWeights.inPlace?` does so, and has no result if a place is used that the array does not
have, or if no index is left above the left truncation point.

If the mode is between the truncation points, then all places exist, and the array and the sum are
the same as those of `PoissonWeights.truncated` (`PoissonWeights.inPlace?_eq`), in any arithmetic.
The sum takes every weight once (`PoissonWeights.exists_perm_sumFromEnds`).  If the arithmetic obeys
the laws of `Rounding`, then the mode is there for all rates from the limit of the direct method on,
but for the largest of them the truncation points are both the last index, and there are no weights
(`PoissonWeights.tailBounded_eq_inPlace`).
-/

namespace Reachability

namespace PoissonWeights

variable {V : Type} [Arithmetic V]

/-! ### The loops in one array -/

/-- The weight of `i` jumps in an array that starts with that of `left` jumps. -/
def read? (left : Nat) (weights : Array V) (i : Nat) : Option V :=
  if left ≤ i then weights[i - left]? else none

/-- Writes the weight of `i` jumps into its place in an array that starts with that of `left`
jumps. -/
def write? (left : Nat) (weights : Array V) (i : Nat) (x : V) : Option (Array V) :=
  if left ≤ i ∧ i - left < weights.size then some (weights.setIfInBounds (i - left) x) else none

/-- Computes the weight below that of `j` jumps. -/
def stepDown? (rate : V) (left : Nat) (weights : Array V) (j : Nat) : Option (Array V) := do
  let last ← read? left weights j
  write? left weights (j - 1) (Arithmetic.ofNat j / rate * last)

/-- Computes the weight above that of `j` jumps. -/
def stepUp? (rate : V) (left : Nat) (weights : Array V) (j : Nat) : Option (Array V) := do
  let last ← read? left weights j
  write? left weights (j + 1) (rate / Arithmetic.ofNat (j + 1) * last)

/-- Computes all weights, from zeros. -/
def fill? (rate overflow : V) (left mode right : Nat) : Option (Array V) := do
  let blank := Array.replicate (right - left + 1) 0
  let start ← write? left blank mode (modeWeight overflow (right - left))
  let lower ← (List.range' (left + 1) (mode - left)).reverse.foldlM (stepDown? rate left) start
  (List.range' mode (right - mode)).foldlM (stepUp? rate left) lower

/-- Adds the weights from place `first` on, up to the one that is `gap` places further, the smaller
end first. -/
def addUp? (weights : Array V) : Nat → Nat → V → Option V
  | 0, first, total => do
    let last ← weights[first]?
    some (total + last)
  | gap + 1, first, total => do
    let low ← weights[first]?
    let high ← weights[first + gap + 1]?
    if low ≤ high then addUp? weights gap (first + 1) (total + low)
    else addUp? weights gap first (total + high)

/-- The weights between truncation points and their sum, computed in one array. -/
def inPlace? (rate overflow : V) (left mode right : Nat) : Option (PoissonWeights V) := do
  guard (left ≤ right ∧ left < indexLimit)
  let weights ← fill? rate overflow left mode right
  let total ← addUp? weights (right - left) 0 0
  some ⟨left, weights, total⟩

/-! ### What is in the array -/

variable (rate : V)

/-- The weights below the mode are put in front of the others. -/
theorem descend_append (count j : Nat) (last : V) (above : List V) :
  descend rate count j last above = descend rate count j last [] ++ above
  := by
  induction count generalizing j last above with
  | zero => rfl
  | succ count ih =>
      rw [descend, descend, ih, ih (j - 1) _ [_], List.append_assoc, List.singleton_append]

/-- There are as many weights below the mode as are asked for. -/
theorem length_descend (count j : Nat) (last : V) :
  (descend rate count j last []).length = count
  := by
  induction count generalizing j last with
  | zero => rfl
  | succ count ih =>
      rw [descend, descend_append, List.length_append, ih, List.length_singleton]

/-- There are as many weights above the mode as are asked for. -/
theorem length_ascend (count j : Nat) (last : V) :
  (ascend rate count j last).length = count
  := by
  induction count generalizing j last with
  | zero => rfl
  | succ count ih => rw [ascend, List.length_cons, ih]

/-- There is a weight for every number of jumps between the truncation points. -/
theorem length_outwards (x : V) {left mode right : Nat} (hleft : left ≤ mode)
    (hright : mode ≤ right) :
  (outwards rate x left mode right).length = right - left + 1
  := by
  rw [outwards, descend_append, List.length_append, length_descend, List.length_cons, length_ascend]
  omega

omit [Arithmetic V] in
/-- The place after the first ones of an array holds what comes next in it. -/
theorem read?_append {front back : List V} {left i : Nat} {x : V}
    (hi : i = left + front.length) :
  read? left (front ++ x :: back).toArray i = some x
  := by
  subst hi
  simp [read?]

omit [Arithmetic V] in
/-- Writing into the place after the first ones of an array replaces what comes next in it. -/
theorem write?_append {front back : List V} {left i : Nat} {x y : V}
    (hi : i = left + front.length) :
  write? left (front ++ x :: back).toArray i y = some (front ++ y :: back).toArray
  := by
  subst hi
  simp [write?]

/-- From an array with zeros below a weight, the loop downwards makes one with all weights below
it. -/
theorem foldlM_stepDown? (left count : Nat) (last : V) (above : List V) :
  (List.range' (left + 1) count).reverse.foldlM (stepDown? rate left)
      (List.replicate count 0 ++ last :: above).toArray
    = some (descend rate count (left + count) last (last :: above)).toArray
  := by
  induction count generalizing last above with
  | zero => rfl
  | succ count ih =>
      have hstep : stepDown? rate left (List.replicate (count + 1) 0 ++ last :: above).toArray
            (left + 1 + 1 * count)
          = some (List.replicate count 0
            ++ Arithmetic.ofNat (left + (count + 1)) / rate * last :: last :: above).toArray := by
        rw [stepDown?, read?_append (by simp; omega), Option.bind_eq_bind, Option.bind_some,
          List.replicate_succ', List.append_assoc, List.singleton_append, write?_append (by simp)]
        have hj : left + 1 + 1 * count = left + (count + 1) := by omega
        rw [hj]
      have hj : left + (count + 1) - 1 = left + count := by omega
      rw [List.range'_concat, List.reverse_append, List.reverse_singleton, List.singleton_append,
        List.foldlM_cons, hstep, Option.bind_eq_bind, Option.bind_some, ih, descend, hj]

/-- From an array with zeros above a weight, the loop upwards makes one with all weights above
it. -/
theorem foldlM_stepUp? (left count : Nat) {j : Nat} (front : List V) (last : V)
    (hj : j = left + front.length) :
  (List.range' j count).foldlM (stepUp? rate left)
      (front ++ last :: List.replicate count 0).toArray
    = some (front ++ last :: ascend rate count j last).toArray
  := by
  induction count generalizing j front last with
  | zero => rfl
  | succ count ih =>
      have hstep : stepUp? rate left (front ++ last :: List.replicate (count + 1) 0).toArray j
          = some ((front ++ [last]) ++ rate / Arithmetic.ofNat (j + 1) * last
            :: List.replicate count 0).toArray := by
        rw [stepUp?, read?_append hj, Option.bind_eq_bind, Option.bind_some, List.replicate_succ,
          List.append_cons, write?_append (by simp; omega)]
      rw [List.range'_succ, List.foldlM_cons, hstep, Option.bind_eq_bind, Option.bind_some,
        ih _ _ (by simp; omega), ascend, List.append_assoc, List.singleton_append]

/-- If the mode is between the truncation points, then all places exist, and the array ends up with
the weights outwards from the mode. -/
theorem fill?_eq (overflow : V) {left mode right : Nat} (hleft : left ≤ mode)
    (hright : mode ≤ right) :
  fill? rate overflow left mode right
    = some (outwards rate (modeWeight overflow (right - left)) left mode right).toArray
  := by
  have hsize : right - left + 1 = mode - left + (right - mode + 1) := by omega
  have hblank : Array.replicate (right - left + 1) (0 : V)
      = (List.replicate (mode - left) (0 : V) ++ 0 :: List.replicate (right - mode) 0).toArray := by
    rw [← List.replicate_succ, List.replicate_append_replicate, List.toArray_replicate, hsize]
  have hmode : left + (mode - left) = mode := by omega
  rw [fill?, hblank, write?_append (by simp; omega), Option.bind_eq_bind, Option.bind_some,
    foldlM_stepDown?, Option.bind_some, descend_append, hmode,
    foldlM_stepUp? _ _ _ _ _ (by rw [length_descend, hmode]), ← descend_append, outwards]

/-! ### The sum -/

/-- If all places exist, then the sum in place is the sum from both ends. -/
theorem addUp?_eq (weights : Array V) (gap first : Nat) (total : V)
    (h : first + gap < weights.size) :
  addUp? weights gap first total = some (sumFromEnds weights gap first total)
  := by
  have hget : ∀ i < weights.size, weights[i]? = some (weights[i]?.getD 0) := by
    intro i hi
    rw [Array.getElem?_eq_getElem hi, Option.getD_some]
  induction gap generalizing first total with
  | zero =>
      rw [addUp?, hget first h]
      rfl
  | succ gap ih =>
      rw [addUp?, hget first (by omega), hget (first + gap + 1) (by omega), sumFromEnds]
      simp only [Option.bind_eq_bind, Option.bind_some]
      split
      · apply ih
        omega
      · apply ih
        omega

/-- The sum from both ends adds every one of the weights once, in some order. -/
theorem exists_perm_sumFromEnds (weights : Array V) (gap first : Nat) (total : V) :
  ∃ places : List Nat, places.Perm (List.range' first (gap + 1))
    ∧ sumFromEnds weights gap first total
      = places.foldl (fun total i => total + weights[i]?.getD 0) total
  := by
  induction gap generalizing first total with
  | zero => exact ⟨[first], List.Perm.refl _, rfl⟩
  | succ gap ih =>
      rw [sumFromEnds]
      split
      · obtain ⟨places, hperm, hsum⟩ := ih (first + 1) (total + weights[first]?.getD 0)
        use first :: places
        rw [List.range'_succ]
        exact ⟨hperm.cons first, hsum⟩
      · obtain ⟨places, hperm, hsum⟩ := ih first (total + weights[first + gap + 1]?.getD 0)
        use (first + gap + 1) :: places
        rw [List.range'_concat, Nat.one_mul]
        exact ⟨(hperm.cons _).trans (List.perm_append_singleton _ _).symm, hsum⟩

/-- If the mode is between the truncation points, then the weights in place are those between the
truncation points, and they exist unless the left truncation point is the last index. -/
theorem inPlace?_eq (overflow : V) {left mode right : Nat} (hleft : left ≤ mode)
    (hright : mode ≤ right) :
  inPlace? rate overflow left mode right
    = if left < indexLimit then some (truncated rate overflow left mode right) else none
  := by
  rw [inPlace?, guard, fill?_eq rate overflow hleft hright]
  by_cases hindex : left < indexLimit
  · have hguard : left ≤ right ∧ left < indexLimit := ⟨le_trans hleft hright, hindex⟩
    have hwidth : (outwards rate (modeWeight overflow (right - left)) left mode right).toArray.size
        = right - left + 1 := by
      rw [List.size_toArray, length_outwards rate _ hleft hright]
    rw [if_pos hguard, if_pos hindex, truncated, hwidth]
    simp only [pure, Option.bind_eq_bind, Option.bind_some, Nat.add_sub_cancel]
    rw [addUp?_eq _ _ _ _ (by rw [hwidth]; omega), Option.bind_some]
  · have hguard : ¬ (left ≤ right ∧ left < indexLimit) := fun h => hindex h.2
    rw [if_neg hguard, if_neg hindex]
    rfl

/-! ### The weights from tail bounds -/

section TailBounded

variable {W : Type} [Wide W] [Precision V W] [Rounding W] {rate accuracy : V}

/-- The mode is between the truncation points from the limit of the direct method on.  It is below
the right one if and only if the rate is below the last index, and the left one is so if and only if
it is not the last index itself.  Then the loops in place find all their places, the weight of the
mode is divided by a positive number, and the weights are those that the loops make; otherwise there
are none. -/
theorem tailBounded_eq_inPlace (hrate : directLimit ≤ Precision.widen rate)
    (haccuracy : ¬ Precision.widen accuracy < finestAccuracy) (overflow : V) :
  let left := Truncation.left (Precision.widen rate) (Precision.widen accuracy)
  let mode := Truncation.mode (Precision.widen rate)
  let right := Truncation.right (Precision.widen rate) (Precision.widen accuracy)
  left ≤ mode ∧ mode ≤ right
    ∧ (mode < right ↔ ¬ Rounding.Reaches (Precision.widen rate) indexLimit)
    ∧ (left < right ↔ left < indexLimit)
    ∧ (0 < headroom * (right - left) ↔ left < indexLimit)
    ∧ ((inPlace? rate overflow left mode right).isSome = true ↔ left < indexLimit)
    ∧ (tailBounded rate overflow accuracy : Except (CheckError V W) _)
      = match inPlace? rate overflow left mode right with
        | some w => .ok w
        | none => .error .indexOutOfRange
  := by
  intro left mode right
  have hlarge : Rounding.Reaches (Precision.widen rate) 400 := by
    exact_mod_cast Rounding.of_ofNat_le (by norm_num) hrate
  have hleft : left ≤ mode := Truncation.left_le_mode _ hlarge
  have hright : mode ≤ right := Truncation.mode_le_right _ hlarge
  have hwidth : left < right ↔ left < indexLimit := Truncation.left_lt_right_iff _ hlarge
  refine ⟨hleft, hright, ?_, hwidth, ?_, ?_, ?_⟩
  · rw [Truncation.mode_lt_right_iff _ hlarge, ← not_le, Truncation.le_mode_iff]
    simp [indexLimit]
  · rw [← hwidth, Nat.mul_pos_iff_of_pos_left (by decide), Nat.sub_pos_iff_lt]
  · rw [inPlace?_eq rate overflow hleft hright]
    split
    · next hindex => simp [hindex]
    · next hindex => simp [hindex]
  · rw [inPlace?_eq rate overflow hleft hright, tailBounded, if_neg haccuracy]
    by_cases hindex : left < indexLimit
    · rw [if_neg (Nat.not_le_of_lt hindex), if_pos hindex]
    · rw [if_pos (Nat.le_of_not_lt hindex), if_neg hindex]

end TailBounded

end PoissonWeights

/-- The left truncation point for a rate of `2 ^ 65` is the last index. -/
theorem Truncation.left_two_pow (accuracy : ℝ) :
  left (2 ^ 65) accuracy = indexLimit
  := by
  let k := firstBelow (leftTail (2 ^ 65)) (accuracy / Arithmetic.ofNat 2) deviationLimit 3
  have hle : k ≤ 67 := firstBelow_le _ _ deviationLimit 3
  have hk : (k : ℝ) ≤ 67 := by exact_mod_cast hle
  have hroot : √(2 ^ 65 : ℝ) ≤ 2 ^ 33 := Real.sqrt_le_iff.mpr ⟨by norm_num, by norm_num⟩
  have hdeviation : k * √(2 ^ 65 : ℝ) ≤ 67 * 2 ^ 33 := by gcongr
  have hfloor : (2 : ℝ) ^ 65 - 1 < ⌊(2 : ℝ) ^ 65⌋ := Int.sub_one_lt_floor _
  have hbelow : ((indexLimit : ℤ) : ℝ)
      ≤ (⌊(⌊(2 : ℝ) ^ 65⌋ - k * √(2 ^ 65 : ℝ) - (15 : Nat) / 10 ^ 1 : ℝ)⌋ : ℝ) := by
    apply Int.cast_le.mpr
    apply Int.le_floor.mpr
    norm_num [indexLimit] at hfloor hdeviation ⊢
    linarith
  apply le_antisymm Rounding.toIndex_le
  apply Rounding.le_toIndex_iff.mpr
  refine Or.inr ⟨le_refl _, le_of_not_gt fun h => ?_⟩
  apply not_le_of_gt (Arithmetic.larger_lt_iff.mp h).1
  apply hbelow

/-- For a rate of five hundred, the loops in place make the weights.  For a rate of `2 ^ 65` there are
none. -/
theorem PoissonWeights.tailBounded_eq_inPlace_ends :
  (∃ w, inPlace? 500 1 (Truncation.left (500 : ℝ) (1 / 10 ^ 6)) (Truncation.mode (500 : ℝ))
        (Truncation.right (500 : ℝ) (1 / 10 ^ 6)) = some w
      ∧ (tailBounded 500 1 (1 / 10 ^ 6) : Except (CheckError ℝ ℝ) _) = .ok w)
    ∧ (tailBounded (2 ^ 65) 1 (1 / 10 ^ 6) : Except (CheckError ℝ ℝ) _) = .error .indexOutOfRange
  := by
  have haccuracy : ¬ (Precision.widen (1 / 10 ^ 6 : ℝ) : ℝ) < finestAccuracy := by
    change ¬ (1 / 10 ^ 6 : ℝ) < (1 : Nat) / 10 ^ 10
    norm_num
  have hlow : (directLimit : ℝ) ≤ Precision.widen (500 : ℝ) := by
    change ((400 : Nat) : ℝ) ≤ 500
    norm_num
  have hhigh : (directLimit : ℝ) ≤ Precision.widen (2 ^ 65 : ℝ) := by
    change ((400 : Nat) : ℝ) ≤ 2 ^ 65
    norm_num
  have hbelow : ¬ Rounding.Reaches (Precision.widen (500 : ℝ) : ℝ) indexLimit := by
    change ¬ ((indexLimit : Nat) : ℝ) ≤ 500
    norm_num [indexLimit]
  constructor
  · obtain ⟨hleft, -, hmode, -, -, hsome, htail⟩ := tailBounded_eq_inPlace hlow haccuracy 1
    have hindex := lt_of_le_of_lt hleft
      (lt_of_lt_of_le (hmode.mpr hbelow) Truncation.right_le_indexLimit)
    obtain ⟨w, hw⟩ := Option.isSome_iff_exists.mp (hsome.mpr hindex)
    rw [hw] at htail
    exact ⟨w, hw, htail⟩
  · obtain ⟨-, -, -, -, -, hsome, htail⟩ := tailBounded_eq_inPlace hhigh haccuracy 1
    have hindex : Truncation.left (Precision.widen (2 ^ 65 : ℝ) : ℝ) (Precision.widen (1 / 10 ^ 6 : ℝ))
        = indexLimit :=
      Truncation.left_two_pow _
    rw [hindex, lt_self_iff_false, iff_false, Bool.not_eq_true, Option.isSome_eq_false_iff,
      Option.isNone_iff_eq_none] at hsome
    rw [hindex, hsome] at htail
    apply htail

end Reachability
