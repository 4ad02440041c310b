import Mathlib
import Reachability.Arithmetic

/-!
# Exact arithmetic

The real numbers as an instance of `Arithmetic` and of `Wide`.  Exact values need no
conversion to the wider numbers, a sum that is added from the left is the sum of the list, and
the largest of some values is compared as all of them are.
-/

namespace Reachability

noncomputable instance : Wide ℝ where
  toZero := inferInstance
  toOne := inferInstance
  toAdd := inferInstance
  toSub := inferInstance
  toMul := inferInstance
  toDiv := inferInstance
  toNeg := inferInstance
  toLT := inferInstance
  toLE := inferInstance
  beq x y := decide (x = y)
  decidableLT := inferInstance
  decidableLE := inferInstance
  ofNat n := n
  decimal digits places := digits / 10 ^ places
  abs x := |x|
  exp := Real.exp
  isFinite _ := true
  capped x := x
  ceilNat x := ⌈x⌉₊
  sqrt := Real.sqrt
  floor x := ⌊x⌋
  ceil x := ⌈x⌉
  pi := Real.pi
  toIndex x := min indexLimit ⌊x⌋₊

instance : Precision ℝ ℝ where
  widen := id
  narrow := id

namespace Arithmetic

/-- An exact sum is that of the list, since the zero that it starts from has no sign. -/
@[simp]
theorem sum_real (terms : List ℝ) :
  sum terms = terms.sum
  := by
  rw [sum, List.sum_eq_foldl, neg_zero]

/-- Exact values are numbers. -/
@[simp]
theorem isNaN_real (x : ℝ) :
  isNaN x = false
  := by
  change (!decide (x = x)) = false
  rw [decide_eq_true rfl, Bool.not_true]

/-- The larger of two exact values is below a bound if both are. -/
theorem larger_lt_iff {x y z : ℝ} :
  larger y z < x ↔ y < x ∧ z < x
  := by
  rw [larger, isNaN_real, if_neg Bool.false_ne_true]
  split
  · next h => exact ⟨fun hz => ⟨lt_trans h hz, hz⟩, fun h => h.2⟩
  · next h => exact ⟨fun hy => ⟨hy, lt_of_le_of_lt (not_lt.mp h) hy⟩, fun h => h.1⟩

/-- The largest of exact values and zero is below a positive bound if all of them are. -/
theorem maximum_lt_iff {values : List ℝ} {x : ℝ} :
  maximum values < x ↔ 0 < x ∧ ∀ y ∈ values, y < x
  := by
  rw [maximum]
  generalize (0 : ℝ) = start
  induction values generalizing start with
  | nil => simp
  | cons y values ih => rw [List.foldl_cons, ih, larger_lt_iff, List.forall_mem_cons, and_assoc]

end Arithmetic

end Reachability
