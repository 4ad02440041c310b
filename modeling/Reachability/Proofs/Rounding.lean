import Mathlib
import Reachability.Poisson
import Reachability.Proofs.Exact

/-!
# Truncation points in rounded arithmetic

The truncation points are computed from numbers of very different sizes, each of which is rounded,
and are then cut down to an index.  `Rounding` are the laws of rounding that their order depends on.
They bound numbers from below only, so that they allow for numbers which are too large to be finite.

Exact numbers obey the laws.  They are made for binary floating point numbers of 64 bits, too, but
that these obey them is not proved: `Float.floor` and `Float.ceil` have no definition that a proof
can open.  So what follows from the laws is known of such numbers only if the laws are granted.

Whatever the rate and the accuracy are, the mode is between the truncation points
(`Truncation.left_le_mode`, `Truncation.mode_le_right`).  It is below the right one unless it is the
last index itself (`Truncation.mode_lt_right_iff`), and so is the left one
(`Truncation.left_lt_right_iff`): the deviations from the mode are much larger than what rounding
can take away from them.
-/

namespace Reachability

/-- The part of a number that rounding leaves of it at least. -/
noncomputable def roundedPart : ℝ := 1 - 1 / (2 ^ 53 : Nat)

/-- The laws of a rounded arithmetic, in terms of which of its numbers are at least a given real one.
What is not a number is not at least any.  Whole numbers up to `2 ^ 53` are exact, and so are the
steps from a number to the whole ones around it. -/
class Rounding (W : Type) [Wide W] where
  /-- Whether a number is at least a real number. -/
  Reaches : W → ℝ → Prop
  of_le {x : W} {r t : ℝ} : Reaches x t → r ≤ t → Reaches x r
  nonpos_of_zero {r : ℝ} : Reaches 0 r → r ≤ 0
  ofNat {n : Nat} : n ≤ 2 ^ 53 → Reaches (Arithmetic.ofNat n) n
  of_ofNat_le {n : Nat} {x : W} : n ≤ 2 ^ 53 → Arithmetic.ofNat n ≤ x → Reaches x n
  decimal (digits places : Nat) : Reaches (Arithmetic.decimal digits places) 0
  floor_iff {x : W} {r : ℝ} : Reaches (Wide.floor x) r ↔ Reaches x ⌈r⌉
  ceil {x : W} {r : ℝ} : Reaches x r → Reaches (Wide.ceil x) r
  of_sub {x y : W} {r : ℝ} : Reaches y 0 → Reaches (x - y) r → Reaches x r
  add {x y : W} {r t : ℝ} :
    0 ≤ r → 0 ≤ t → Reaches x r → Reaches y t → Reaches (x + y) (roundedPart * (r + t))
  mul {x y : W} {r t : ℝ} :
    1 ≤ r → 1 ≤ t → Reaches x r → Reaches y t → Reaches (x * y) (roundedPart * (r * t))
  sqrt {x : W} {r : ℝ} : 1 ≤ r → Reaches x r → Reaches (Wide.sqrt x) (roundedPart * √r)
  le_toIndex_iff {x : W} {n : Nat} :
    n ≤ Wide.toIndex x ↔ n = 0 ∨ n ≤ indexLimit ∧ Reaches x n

/-- What is left of a number is not negative. -/
theorem roundedPart_nonneg :
  0 ≤ roundedPart
  := by
  rw [roundedPart]
  norm_num

/-- What is left of a number that is not negative is at most that number. -/
theorem roundedPart_mul_le {r : ℝ} (hr : 0 ≤ r) :
  roundedPart * r ≤ r
  := by
  apply mul_le_of_le_one_left hr
  rw [roundedPart, sub_le_self_iff]
  positivity

namespace Rounding

variable {W : Type} [Wide W] [Rounding W] {x y : W} {r : ℝ}

/-- The larger of two numbers is one of them. -/
theorem of_larger (h : Reaches (Arithmetic.larger x y) r) :
  Reaches x r ∨ Reaches y r
  := by
  rw [Arithmetic.larger] at h
  split at h
  · exact Or.inr h
  · split at h
    · exact Or.inr h
    · exact Or.inl h

/-- A number is at least a whole one if that is so for its whole part. -/
theorem floor_natCast_iff {n : Nat} :
  Reaches (Wide.floor x) n ↔ Reaches x n
  := by
  rw [floor_iff, Int.ceil_natCast, Int.cast_natCast]

/-- What is cut down to an index is one. -/
theorem toIndex_le :
  Wide.toIndex x ≤ indexLimit
  := by
  obtain hzero | ⟨hle, -⟩ := le_toIndex_iff.mp (le_refl (Wide.toIndex x))
  · rw [hzero]
    apply Nat.zero_le
  · apply hle

end Rounding

/-- Exact numbers are not rounded. -/
instance : Rounding ℝ where
  Reaches x r := r ≤ x
  of_le h hr := le_trans hr h
  nonpos_of_zero h := h
  ofNat _ := le_refl _
  of_ofNat_le _ h := h
  decimal digits places := by
    change (0 : ℝ) ≤ digits / 10 ^ places
    positivity
  floor_iff := by
    intro x r
    change r ≤ (⌊x⌋ : ℝ) ↔ (⌈r⌉ : ℝ) ≤ x
    rw [← Int.ceil_le, Int.le_floor]
  ceil h := le_trans h (Int.le_ceil _)
  of_sub hy h := le_trans h (sub_le_self _ hy)
  add hr ht hx hy := le_trans (roundedPart_mul_le (add_nonneg hr ht)) (add_le_add hx hy)
  mul hr ht hx hy := by
    have hr := le_trans zero_le_one hr
    have ht := le_trans zero_le_one ht
    apply le_trans (roundedPart_mul_le (mul_nonneg hr ht))
    apply mul_le_mul hx hy ht (le_trans hr hx)
  sqrt _ hx := le_trans (roundedPart_mul_le (Real.sqrt_nonneg _)) (Real.sqrt_le_sqrt hx)
  le_toIndex_iff := by
    intro x n
    change n ≤ min indexLimit ⌊x⌋₊ ↔ _
    obtain rfl | hn := eq_or_ne n 0
    · simp
    · rw [le_min_iff, Nat.le_floor_iff' hn]
      simp [hn]

namespace Truncation

/-! ### Deviations -/

section FirstBelow

variable {W : Type} [Wide W] (tail : W → W) (limit : W)

/-- The search for a number of deviations goes upwards. -/
theorem le_firstBelow (fuel k : Nat) :
  k ≤ firstBelow tail limit fuel k
  := by
  induction fuel generalizing k with
  | zero => apply le_refl
  | succ fuel ih =>
      rw [firstBelow]
      split
      · apply le_refl
      · apply le_trans (Nat.le_succ k) (ih (k + 1))

/-- The search for a number of deviations ends with its last candidate. -/
theorem firstBelow_le (fuel k : Nat) :
  firstBelow tail limit fuel k ≤ k + fuel
  := by
  induction fuel generalizing k with
  | zero => apply le_refl
  | succ fuel ih =>
      rw [firstBelow]
      split
      · apply Nat.le_add_right
      · apply le_trans (ih (k + 1))
        omega

/-- If a candidate of the search is below the limit, then the least one is found. -/
theorem isLeast_firstBelow {fuel k n : Nat} (hlow : k ≤ n) (hhigh : n < k + fuel)
    (hn : tail (Arithmetic.ofNat n) < limit) :
  IsLeast {i | k ≤ i ∧ tail (Arithmetic.ofNat i) < limit} (firstBelow tail limit fuel k)
  := by
  induction fuel generalizing k with
  | zero => omega
  | succ fuel ih =>
      rw [firstBelow]
      split
      · next hk => exact ⟨⟨le_refl k, hk⟩, fun i hi => hi.1⟩
      · next hk =>
          -- the first candidate is not below the limit, so that the others have the same least one
          have hskip : {i | k ≤ i ∧ tail (Arithmetic.ofNat i) < limit}
              = {i | k + 1 ≤ i ∧ tail (Arithmetic.ofNat i) < limit} := by
            ext i
            constructor
            · rintro ⟨hle, hi⟩
              refine ⟨lt_of_le_of_ne hle ?_, hi⟩
              rintro rfl
              exact hk hi
            · rintro ⟨hle, hi⟩
              exact ⟨Nat.le_of_succ_le hle, hi⟩
          have hne : k ≠ n := by
            rintro rfl
            exact hk hn
          rw [hskip]
          apply ih (lt_of_le_of_ne hlow hne) (by omega)

end FirstBelow

variable {W : Type} [Wide W] [Rounding W] {rate accuracy : W}

/-- Every tail starts at three deviations or more. -/
theorem reaches_deviations (tail : W → W) (limit : W) :
  Rounding.Reaches (deviations tail limit) 3
  := by
  have hle := firstBelow_le tail limit deviationLimit 3
  apply Rounding.of_le (Rounding.ofNat _)
  · exact_mod_cast le_firstBelow tail limit deviationLimit 3
  · apply le_trans hle
    decide

/-- The deviation of a tail is at least two roots, of whatever is known to be reached. -/
theorem reaches_deviation (tail : W → W) (limit : W) {x : W} {r : ℝ} (hr : 4 ≤ r)
    (hx : Rounding.Reaches x r) :
  Rounding.Reaches (deviations tail limit * Wide.sqrt x) (2 * √r)
  := by
  have hroot : 2 ≤ √r := Real.le_sqrt_of_sq_le (by linarith)
  have hpart : 9 / 10 ≤ roundedPart := by
    rw [roundedPart]
    norm_num
  have hrounded : 9 / 10 * √r ≤ roundedPart * √r :=
    mul_le_mul_of_nonneg_right hpart (Real.sqrt_nonneg r)
  apply Rounding.of_le (Rounding.mul _ _ (reaches_deviations tail limit) (Rounding.sqrt _ hx))
  · nlinarith
  · norm_num
  · linarith
  · linarith

/-! ### The order of the truncation points -/

/-- The mode is the whole part of the rate, as far as that is an index. -/
theorem le_mode_iff {n : Nat} :
  n ≤ mode rate ↔ n = 0 ∨ n ≤ indexLimit ∧ Rounding.Reaches rate n
  := by
  rw [mode, Rounding.le_toIndex_iff, Rounding.floor_natCast_iff]

/-- The mode is an index. -/
theorem mode_le_indexLimit :
  mode rate ≤ indexLimit
  := Rounding.toIndex_le

/-- The right truncation point is an index. -/
theorem right_le_indexLimit :
  right rate accuracy ≤ indexLimit
  := Rounding.toIndex_le

/-- A deviation of two roots from an index is more than what rounding takes away. -/
theorem add_one_le_rounded {n : ℝ} (hlow : 400 ≤ n) (hhigh : n ≤ 2 ^ 64) :
  n + 1 ≤ roundedPart * (roundedPart * (n + 2 * √n) + 0)
  := by
  have hroot : 1 ≤ √n := Real.le_sqrt_of_sq_le (by linarith)
  have hbound : √n ≤ 2 ^ 32 := Real.sqrt_le_iff.mpr ⟨by norm_num, by norm_num at hhigh ⊢; exact hhigh⟩
  have hsquare : n ≤ 2 ^ 32 * √n := by
    calc
      n = √n * √n := (Real.mul_self_sqrt (by linarith)).symm
      _ ≤ 2 ^ 32 * √n := mul_le_mul_of_nonneg_right hbound (Real.sqrt_nonneg n)
  rw [roundedPart]
  linarith

variable (accuracy) (hrate : Rounding.Reaches rate 400)

include hrate

/-- The left truncation point is not above the mode. -/
theorem left_le_mode :
  left rate accuracy ≤ mode rate
  := by
  rw [le_mode_iff]
  obtain hzero | ⟨hindex, hreaches⟩ := Rounding.le_toIndex_iff.mp (le_refl (left rate accuracy))
  · exact Or.inl hzero
  · obtain hbelow | hzero := Rounding.of_larger hreaches
    · have hdeviation : Rounding.Reaches
          (deviations (leftTail rate) (accuracy / Arithmetic.ofNat 2) * Wide.sqrt rate) 0 :=
        Rounding.of_le (reaches_deviation _ _ (by norm_num) hrate) (by positivity)
      rw [Rounding.floor_natCast_iff] at hbelow
      have hfloor := Rounding.of_sub hdeviation (Rounding.of_sub (Rounding.decimal 15 1) hbelow)
      rw [Rounding.floor_natCast_iff] at hfloor
      exact Or.inr ⟨hindex, hfloor⟩
    · left
      exact_mod_cast le_antisymm (Rounding.nonpos_of_zero hzero) (Nat.cast_nonneg _)

/-- The right truncation point is above the mode, as far as there is an index above it. -/
theorem min_succ_mode_le_right :
  min (mode rate + 1) indexLimit ≤ right rate accuracy
  := by
  have hlarge : 400 ≤ mode rate := le_mode_iff.mpr (Or.inr ⟨by decide, hrate⟩)
  obtain hzero | ⟨hindex, hmode⟩ := le_mode_iff.mp (le_refl (mode rate))
  · omega
  · have hlow : (400 : ℝ) ≤ mode rate := by exact_mod_cast hlarge
    have hhigh : (mode rate : ℝ) ≤ 2 ^ 64 := by
      have hlimit : mode rate ≤ 2 ^ 64 := le_trans hindex (by decide)
      exact_mod_cast hlimit
    -- the factor of two is more than what rounding takes away, so that the root is one of the mode
    have hdouble : Rounding.Reaches (Arithmetic.ofNat 2 * rate) (mode rate) := by
      apply Rounding.of_le (Rounding.mul _ _ (Rounding.ofNat (by norm_num)) hmode)
      · rw [roundedPart]
        push_cast
        linarith
      · norm_num
      · linarith
    have hdeviation := reaches_deviation (rightTail rate) (accuracy / Arithmetic.ofNat 2)
      (by linarith) hdouble
    have hsum := Rounding.add (by positivity) (by positivity)
      (Rounding.floor_natCast_iff.mpr hmode) hdeviation
    have hend := Rounding.add (mul_nonneg roundedPart_nonneg (by positivity)) (le_refl 0) hsum
      (Rounding.decimal 15 1)
    apply Rounding.le_toIndex_iff.mpr
    refine Or.inr ⟨min_le_right _ _, Rounding.ceil (Rounding.of_le hend ?_)⟩
    apply le_trans _ (add_one_le_rounded hlow hhigh)
    exact_mod_cast min_le_left (mode rate + 1) indexLimit

/-- The mode is not above the right truncation point. -/
theorem mode_le_right :
  mode rate ≤ right rate accuracy
  := by
  have hright := min_succ_mode_le_right accuracy hrate
  have hindex : mode rate ≤ indexLimit := mode_le_indexLimit
  omega

/-- The mode is below the right truncation point if and only if it is not the last index. -/
theorem mode_lt_right_iff :
  mode rate < right rate accuracy ↔ mode rate < indexLimit
  := by
  have hright := min_succ_mode_le_right accuracy hrate
  have hindex : right rate accuracy ≤ indexLimit := right_le_indexLimit
  omega

/-- The left truncation point is below the right one if and only if it is not the last index. -/
theorem left_lt_right_iff :
  left rate accuracy < right rate accuracy ↔ left rate accuracy < indexLimit
  := by
  have hleft := left_le_mode accuracy hrate
  have hright := min_succ_mode_le_right accuracy hrate
  have hindex : right rate accuracy ≤ indexLimit := right_le_indexLimit
  omega

end Truncation

end Reachability
