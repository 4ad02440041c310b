import Mathlib
import Reachability.Proofs.Binary
import Reachability.Sweep

/-!
# Changes of nothing

A value that stays as it is has not changed: its difference to itself is zero, and so is zero divided
by its size.  Rounding does not matter here, but a value that is infinite or not a number has no such
difference.  `Cancels` are these two laws, which exact numbers and the binary floating point numbers
of both widths obey, and under which no measure sees a change where there is none
(`ChangeMeasure.change_self`).
-/

namespace Reachability

/-- The laws of a finite value that is compared with itself. -/
class Cancels (V : Type) [Arithmetic V] : Prop where
  abs_sub_self : ∀ x : V, Arithmetic.isFinite x = true → Arithmetic.abs (x - x) = 0
  zero_div_abs : ∀ x : V, Arithmetic.isFinite x = true → (x == 0) = false → 0 / Arithmetic.abs x = 0

/-- A finite value that stays as it is has not changed by any measure. -/
theorem ChangeMeasure.change_self {V : Type} [Arithmetic V] [Cancels V] (measure : ChangeMeasure)
    {x : V} (hx : Arithmetic.isFinite x = true) :
  measure.change x x = 0
  := by
  simp only [change, Cancels.abs_sub_self x hx]
  cases measure with
  | absolute => rfl
  | relative =>
      cases hzero : x == 0 with
      | true => rfl
      | false => apply Cancels.zero_div_abs x hx hzero

instance : Cancels ℝ where
  abs_sub_self x _ := by
    change |x - x| = 0
    rw [sub_self, abs_zero]
  zero_div_abs x _ _ := zero_div _

/-! ### Binary floating point numbers -/

open Float.Model Float.Model.UnpackedFloat

namespace Unpacked

variable {spec : Format} {x : UnpackedFloat}

/-- The difference of a finite number to itself is the positive zero. -/
theorem sub_self (hfinite : x.isFinite = true) :
  UnpackedFloat.sub spec x x = .zero .positive
  := by
  cases x with
  | infinity sign => cases hfinite
  | notANumber => cases hfinite
  | zero sign =>
      cases sign with
      | negative => rfl
      | positive => rfl
  | finite sign m e hm =>
      rw [UnpackedFloat.sub]
      dsimp only
      rw [Int.sub_self]
      rfl

/-- A finite number that does not compare equal to zero is above zero without its sign. -/
theorem isAbove_abs (hfinite : x.isFinite = true)
    (hne : UnpackedFloat.beq x (.zero .positive) = false) :
  IsAbove x.abs
  := by
  cases x with
  | infinity sign => cases hfinite
  | notANumber => cases hfinite
  | zero sign => cases hne
  | finite sign m e hm => exact .finite hm

/-- The positive zero divided by a number above zero is the positive zero. -/
theorem IsAbove.zero_div (hx : IsAbove x) :
  UnpackedFloat.div spec (.zero .positive) x = .zero .positive
  := by
  obtain ⟨⟩ | ⟨hx⟩ := hx
  · rfl
  · rfl

/-- Without its sign, an unpacked number is the one that is unpacked from the same bits without
theirs. -/
theorem abs_unpack (bits : BitVec spec.numBits) :
  (UnpackedFloat.unpack spec bits).abs
    = UnpackedFloat.unpack spec
      (packComponents spec .positive (unpackExponent bits) (unpackMantissa bits))
  := by
  unfold UnpackedFloat.unpack
  simp only [unpackMantissa_packComponents, unpackExponent_packComponents, unpackSign_packComponents]
  split
  · split
    · rfl
    · rfl
  · split
    · split
      · rfl
      · rfl
    · rfl

/-- What is unpacked does not change when it is packed and unpacked again. -/
theorem unpack_pack_unpack (hspec : 2 ≤ spec.exponentBits) (bits : BitVec spec.numBits) :
  UnpackedFloat.unpack spec (UnpackedFloat.pack spec (UnpackedFloat.unpack spec bits))
    = UnpackedFloat.unpack spec bits
  := by
  rw [pack_unpack bits hspec]
  split
  · next hnan =>
      obtain ⟨hexponent, hmantissa⟩ := of_decide_eq_true hnan
      rw [unpack_packedNaN, UnpackedFloat.unpack]
      simp only [hexponent, hmantissa, if_true, if_false]
  · rfl

end Unpacked

/-- The numbers of a type are packed, and so are their quotients, their sizes and the comparison for
equality. -/
structure IsPackedField (V : Type) [Arithmetic V] (spec : Format) (unpack : V → UnpackedFloat)
    (pack : UnpackedFloat → V) : Prop extends IsPacked V spec unpack pack where
  exponentBits : 2 ≤ spec.exponentBits
  exists_bits : ∀ x, ∃ bits, unpack x = UnpackedFloat.unpack spec bits
  div : ∀ x y, x / y = pack (UnpackedFloat.div spec (unpack x) (unpack y))
  abs : ∀ x, Arithmetic.abs x = pack (unpack x).abs
  beq : ∀ x y, (x == y) = (unpack x).beq (unpack y)

namespace IsPackedField

variable {V : Type} [Arithmetic V] {spec : Format} {unpack : V → UnpackedFloat}
  {pack : UnpackedFloat → V} (hpacked : IsPackedField V spec unpack pack)

include hpacked

/-- The size of a value is that of the unpacked number. -/
theorem unpack_abs (x : V) :
  unpack (Arithmetic.abs x) = (unpack x).abs
  := by
  obtain ⟨bits, hbits⟩ := hpacked.exists_bits x
  rw [hpacked.abs, hpacked.unpack_pack, hbits, Unpacked.abs_unpack,
    Unpacked.unpack_pack_unpack hpacked.exponentBits]

/-- What is packed from the positive zero is zero. -/
theorem pack_zero :
  pack (.zero .positive) = 0
  := hpacked.pack_eq_zero _ rfl

/-- Values of a type of packed numbers cancel. -/
theorem cancels :
  Cancels V
  := by
  constructor
  · intro x hx
    rw [hpacked.isFinite] at hx
    rw [hpacked.sub, Unpacked.sub_self hx, hpacked.pack_zero, hpacked.abs, hpacked.unpack_zero]
    apply hpacked.pack_zero
  · intro x hx hne
    rw [hpacked.isFinite] at hx
    rw [hpacked.beq, hpacked.unpack_zero] at hne
    rw [hpacked.div, hpacked.unpack_zero, hpacked.unpack_abs,
      (Unpacked.isAbove_abs hx hne).zero_div, hpacked.pack_zero]

end IsPackedField

/-- The numbers of 64 bits are packed in the format of that width. -/
theorem isPackedField_double :
  IsPackedField Float .binary64 (fun x => x.toModel.unpack) (fun x => .ofModel (.pack x))
  where
  toIsPacked := isPacked_double
  exponentBits := by decide
  exists_bits _ := ⟨_, rfl⟩
  div _ _ := rfl
  abs _ := rfl
  beq _ _ := rfl

/-- The numbers of 32 bits are packed in the format of that width. -/
theorem isPackedField_single :
  IsPackedField Float32 .binary32 (fun x => x.toModel.unpack) (fun x => .ofModel (.pack x))
  where
  toIsPacked := isPacked_single
  exponentBits := by decide
  exists_bits _ := ⟨_, rfl⟩
  div _ _ := rfl
  abs _ := rfl
  beq _ _ := rfl

instance : Cancels Float := isPackedField_double.cancels

instance : Cancels Float32 := isPackedField_single.cancels

end Reachability
