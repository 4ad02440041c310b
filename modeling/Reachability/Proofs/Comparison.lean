import Mathlib
import Reachability.Proofs.Cancellation
import Reachability.Proofs.Choice

/-!
# Comparing binary floating point numbers

An unpacked number has a rank: first come its sign and whether it is infinite, then its exponent and
its mantissa.  A number is below another one if its rank is, and what is not a number is below
nothing and above nothing (`Unpacked.lt_iff`).  Hence the comparison ranks the numbers of 64 and of
32 bits (`IsPackedField.ranksNumbers`), and the first best of some of them is unbeaten.
-/

namespace Reachability

open Float.Model Float.Model.UnpackedFloat

namespace Unpacked

variable {x y : UnpackedFloat}

/-- The rank of an unpacked number.  Below zero, a larger exponent and a larger mantissa rank lower;
zeros rank the same whatever their signs.  The last rank is that of no number. -/
def rank : UnpackedFloat → ℤ ×ₗ ℤ ×ₗ ℤ
  | .infinity .negative => toLex (-2, toLex (0, 0))
  | .finite .negative m e _ => toLex (-1, toLex (-e, -m))
  | .zero _ => toLex (0, toLex (0, 0))
  | .finite .positive m e _ => toLex (1, toLex (e, m))
  | .infinity .positive => toLex (2, toLex (0, 0))
  | .notANumber => toLex (3, toLex (0, 0))

/-- Exponents are compared before mantissas. -/
theorem then_eq_lt_iff (e e' : ℤ) (m m' : ℕ) :
  (compare e e').then (compare m m') = .lt ↔ toLex (e, (m : ℤ)) < toLex (e', (m' : ℤ))
  := by
  simp [Prod.Lex.toLex_lt_toLex, Ordering.then_eq_lt, compare_lt_iff_lt]

/-- Below zero, exponents and mantissas are compared the other way. -/
theorem then_eq_gt_iff (e e' : ℤ) (m m' : ℕ) :
  (compare e e').then (compare m m') = .gt ↔ toLex (-e, -(m : ℤ)) < toLex (-e', -(m' : ℤ))
  := by
  simp [Prod.Lex.toLex_lt_toLex, Ordering.then_eq_gt, compare_gt_iff_gt]

/-- A number compares below another one if its rank is below. -/
theorem lt_iff_of_ne (hx : x ≠ .notANumber) (hy : y ≠ .notANumber) :
  UnpackedFloat.lt x y = true ↔ rank x < rank y
  := by
  rw [UnpackedFloat.lt, beq_iff_eq]
  cases x with
  | notANumber => exact absurd rfl hx
  | infinity sign =>
      cases y with
      | notANumber => exact absurd rfl hy
      | infinity sign' => cases sign <;> cases sign' <;> decide
      | zero sign' => cases sign <;> simp [UnpackedFloat.compare, rank, Prod.Lex.toLex_lt_toLex]
      | finite sign' m' e' hm' =>
          cases sign <;> cases sign' <;>
            simp [UnpackedFloat.compare, rank, Prod.Lex.toLex_lt_toLex]
  | zero sign =>
      cases y with
      | notANumber => exact absurd rfl hy
      | infinity sign' =>
          cases sign' <;> simp [UnpackedFloat.compare, rank, Prod.Lex.toLex_lt_toLex]
      | zero sign' => simp [UnpackedFloat.compare, rank]
      | finite sign' m' e' hm' =>
          cases sign' <;> simp [UnpackedFloat.compare, rank, Prod.Lex.toLex_lt_toLex]
  | finite sign m e hm =>
      cases y with
      | notANumber => exact absurd rfl hy
      | infinity sign' =>
          cases sign <;> cases sign' <;>
            simp [UnpackedFloat.compare, rank, Prod.Lex.toLex_lt_toLex]
      | zero sign' => cases sign <;> simp [UnpackedFloat.compare, rank, Prod.Lex.toLex_lt_toLex]
      | finite sign' m' e' hm' =>
          -- exponents and mantissas matter only if the signs are equal
          cases sign with
          | negative =>
              cases sign' with
              | negative =>
                  rw [rank, rank, Prod.Lex.toLex_lt_toLex]
                  simp [UnpackedFloat.compare, then_eq_gt_iff]
              | positive => simp [UnpackedFloat.compare, rank, Prod.Lex.toLex_lt_toLex]
          | positive =>
              cases sign' with
              | negative => simp [UnpackedFloat.compare, rank, Prod.Lex.toLex_lt_toLex]
              | positive =>
                  rw [rank, rank, Prod.Lex.toLex_lt_toLex]
                  simp [UnpackedFloat.compare, then_eq_lt_iff]

/-- An unpacked number is below another one if both are numbers and its rank is below. -/
theorem lt_iff :
  UnpackedFloat.lt x y = true ↔ x ≠ .notANumber ∧ y ≠ .notANumber ∧ rank x < rank y
  := by
  by_cases hx : x = .notANumber
  · subst hx
    simp [UnpackedFloat.lt, UnpackedFloat.compare]
  · by_cases hy : y = .notANumber
    · subst hy
      cases x <;> simp [UnpackedFloat.lt, UnpackedFloat.compare]
    · rw [lt_iff_of_ne hx hy]
      simp only [ne_eq, hx, hy, not_false_eq_true, true_and]

/-- An unpacked number equals itself unless it is none. -/
theorem beq_self_iff :
  UnpackedFloat.beq x x = true ↔ x ≠ .notANumber
  := by
  rw [UnpackedFloat.beq_iff_ne_notANumber_and_eq]
  simp only [true_or, and_true, and_self]

end Unpacked

namespace IsPackedField

variable {V : Type} [Arithmetic V] {spec : Format} {unpack : V → UnpackedFloat}
  {pack : UnpackedFloat → V} (hpacked : IsPackedField V spec unpack pack)

include hpacked

/-- A value is a number if it is one unpacked. -/
theorem isNaN_eq_false_iff (x : V) :
  Arithmetic.isNaN x = false ↔ unpack x ≠ .notANumber
  := by
  rw [Arithmetic.isNaN, hpacked.beq, Bool.not_eq_false', Unpacked.beq_self_iff]

/-- The comparison of packed numbers ranks them. -/
theorem ranksNumbers :
  RanksNumbers V
  := by
  constructor
  · intro x y h h'
    rw [hpacked.lt, Unpacked.lt_iff] at h h'
    exact lt_asymm h.2.2 h'.2.2
  · intro x y z hy h
    rw [hpacked.isNaN_eq_false_iff] at hy
    rw [hpacked.lt, Unpacked.lt_iff] at h ⊢
    rw [hpacked.lt, Unpacked.lt_iff]
    obtain ⟨hx, hz, h⟩ := h
    obtain hxy | hyx := lt_or_ge (Unpacked.rank (unpack x)) (Unpacked.rank (unpack y))
    · exact Or.inl ⟨hx, hy, hxy⟩
    · exact Or.inr ⟨hy, hz, lt_of_le_of_lt hyx h⟩
  · intro x y h
    rw [hpacked.lt, Unpacked.lt_iff] at h
    rw [hpacked.isNaN_eq_false_iff]
    apply h.2.1
  · rw [hpacked.isNaN_eq_false_iff, hpacked.unpack_zero]
    exact UnpackedFloat.noConfusion

end IsPackedField

instance : RanksNumbers Float := isPackedField_double.ranksNumbers

instance : RanksNumbers Float32 := isPackedField_single.ranksNumbers

end Reachability
