import Mathlib
import Reachability.Arithmetic.Binary
import Reachability.Proofs.Signs

/-!
# Signs of binary floating point numbers

A binary number is stored packed, and the operations unpack their arguments, round an exact result
and pack it again.  No step of this makes a number without a negative sign into one with it
(`Unpacked.IsNonneg`), and a zero stays the zero with the positive sign.

`IsPacked` says of a type that its numbers are stored in this way.  Such a type obeys the laws of
signs, provided that zero is not within the tolerance of one (`IsPacked.signLaws`).  The numbers of
64 bits do; of those of 32 bits, the tolerance is known only to be that of the wider type, rounded.
-/

namespace Reachability

open Float.Model Float.Model.UnpackedFloat

/-! ### Unpacked numbers -/

namespace Unpacked

/-- The unpacked numbers that are above zero. -/
inductive IsAbove : UnpackedFloat → Prop where
  | infinity : IsAbove (.infinity .positive)
  | finite {m : Nat} {e : Int} (h : 0 < m) : IsAbove (.finite .positive m e h)

/-- An unpacked number is not negative if it is the positive zero or above zero. -/
def IsNonneg (x : UnpackedFloat) : Prop := x = .zero .positive ∨ IsAbove x

variable {spec : Format} {x y : UnpackedFloat}

/-- The numbers above zero are those that compare so with the positive zero. -/
theorem isAbove_iff :
  IsAbove x ↔ UnpackedFloat.lt (.zero .positive) x = true
  := by
  constructor
  · rintro (⟨⟩ | ⟨h⟩)
    · rfl
    · rfl
  · intro h
    cases x with
    | infinity sign =>
        cases sign with
        | negative => cases h
        | positive => exact .infinity
    | notANumber => cases h
    | zero sign => cases h
    | finite sign m e hm =>
        cases sign with
        | negative => cases h
        | positive => exact .finite hm

/-- No number that is not negative compares below the positive zero. -/
theorem IsNonneg.lt_eq_false (hx : IsNonneg x) :
  UnpackedFloat.lt x (.zero .positive) = false
  := by
  obtain rfl | ⟨⟨⟩ | ⟨hx⟩⟩ := hx
  · rfl
  · rfl
  · rfl

/-- Rounding keeps a positive sign. -/
theorem isNonneg_roundWithAccuracy (m : Nat) (e : Int) (accuracy : Accuracy) :
  IsNonneg (roundWithAccuracy spec .positive m e accuracy)
  := by
  unfold roundWithAccuracy
  dsimp only
  split
  · exact Or.inl rfl
  · exact Or.inr (.finite _)

/-- A sum of numbers that are not negative is not negative. -/
theorem IsNonneg.add (hx : IsNonneg x) (hy : IsNonneg y) :
  IsNonneg (UnpackedFloat.add spec x y)
  := by
  obtain rfl | ⟨⟨⟩ | ⟨hx⟩⟩ := hx
  · obtain rfl | ⟨⟨⟩ | ⟨hy⟩⟩ := hy
    · exact Or.inl rfl
    · exact Or.inr .infinity
    · exact Or.inr (.finite hy)
  · obtain rfl | ⟨⟨⟩ | ⟨hy⟩⟩ := hy
    · exact Or.inr .infinity
    · exact Or.inr .infinity
    · exact Or.inr .infinity
  · obtain rfl | ⟨⟨⟩ | ⟨hy⟩⟩ := hy
    · exact Or.inr (.finite hx)
    · exact Or.inr .infinity
    · rw [UnpackedFloat.add]
      dsimp only [Sign.apply]
      rw [← Int.natCast_add, UnpackedFloat.normalize]
      split
      · next h =>
          rw [Int.compare_eq_lt] at h
          omega
      · exact Or.inl rfl
      · apply isNonneg_roundWithAccuracy

/-- Adding a number that is not negative to a zero of either sign gives one that is not
negative. -/
theorem IsNonneg.zero_add (sign : Sign) (hx : IsNonneg x) :
  IsNonneg (UnpackedFloat.add spec (.zero sign) x)
  := by
  obtain rfl | ⟨⟨⟩ | ⟨hx⟩⟩ := hx
  · cases sign with
    | negative => exact Or.inl rfl
    | positive => exact Or.inl rfl
  · exact Or.inr .infinity
  · exact Or.inr (.finite hx)

/-- A finite number above zero times one that is not negative is not negative. -/
theorem IsAbove.mul (hx : IsAbove x) (hfinite : x.isFinite = true) (hy : IsNonneg y) :
  IsNonneg (UnpackedFloat.mul spec x y)
  := by
  obtain ⟨⟩ | ⟨hx⟩ := hx
  · cases hfinite
  · obtain rfl | ⟨⟨⟩ | ⟨hy⟩⟩ := hy
    · exact Or.inl rfl
    · exact Or.inr .infinity
    · apply isNonneg_roundWithAccuracy

/-- A finite number above zero times the positive zero is that zero. -/
theorem IsAbove.mul_zero (hx : IsAbove x) (hfinite : x.isFinite = true) :
  UnpackedFloat.mul spec x (.zero .positive) = .zero .positive
  := by
  obtain ⟨⟩ | ⟨hx⟩ := hx
  · cases hfinite
  · rfl

/-- A finite number that compares neither above nor below the positive zero is a zero. -/
theorem exists_eq_zero (hfinite : x.isFinite = true)
    (habove : ¬ UnpackedFloat.lt (.zero .positive) x = true)
    (hbelow : ¬ UnpackedFloat.lt x (.zero .positive) = true) :
  ∃ sign, x = .zero sign
  := by
  cases x with
  | infinity sign => cases hfinite
  | notANumber => cases hfinite
  | zero sign => exact ⟨sign, rfl⟩
  | finite sign m e hm =>
      cases sign with
      | negative => exact absurd rfl hbelow
      | positive => exact absurd rfl habove

/-- A sum of zeros is a zero. -/
theorem exists_zero_add_zero (spec : Format) (sign sign' : Sign) :
  ∃ sign'', UnpackedFloat.add spec (.zero sign) (.zero sign') = .zero sign''
  := by
  cases sign with
  | negative =>
      cases sign' with
      | negative => exact ⟨_, rfl⟩
      | positive => exact ⟨_, rfl⟩
  | positive =>
      cases sign' with
      | negative => exact ⟨_, rfl⟩
      | positive => exact ⟨_, rfl⟩

/-- Taking a number above zero off a zero does not depend on the sign of that zero. -/
theorem IsAbove.zero_sub (hx : IsAbove x) (sign : Sign) :
  UnpackedFloat.sub spec (.zero sign) x = UnpackedFloat.sub spec (.zero .positive) x
  := by
  obtain ⟨⟩ | ⟨hx⟩ := hx
  · rfl
  · rfl

/-! ### Packing -/

/-- An exponent that is not too large is not that of infinity. -/
theorem ofNat_ne_neg_one {n : Nat} (h : n + 1 < 2 ^ spec.exponentBits) :
  BitVec.ofNat spec.exponentBits n ≠ -1#_
  := by
  intro heq
  have hnat := congrArg BitVec.toNat heq
  rw [BitVec.neg_one_eq_allOnes, BitVec.toNat_allOnes, BitVec.toNat_ofNat,
    Nat.mod_eq_of_lt (by omega)] at hnat
  omega

/-- Components with the positive sign that are not those of no number are the positive zero or
those of a number above zero. -/
theorem unpack_packComponents {exponent : BitVec spec.exponentBits}
    {mantissa : BitVec spec.mantissaBitsWithoutImplicit} (h : exponent = -1#_ → mantissa = 0#_) :
  packComponents spec .positive exponent mantissa = packedZero spec .positive
    ∨ IsAbove (UnpackedFloat.unpack spec (packComponents spec .positive exponent mantissa))
  := by
  unfold UnpackedFloat.unpack
  simp only [unpackMantissa_packComponents, unpackExponent_packComponents,
    unpackSign_packComponents]
  split
  · next hexponent =>
      rw [if_pos (h hexponent)]
      exact Or.inr .infinity
  · split
    · next hexponent =>
        split
        · next hmantissa =>
            rw [hexponent, hmantissa]
            exact Or.inl rfl
        · exact Or.inr (.finite _)
    · exact Or.inr (.finite _)

/-- A number that is not negative is packed as the positive zero or as a number above zero. -/
theorem IsNonneg.unpack_pack (hx : IsNonneg x) :
  UnpackedFloat.pack spec x = packedZero spec .positive
    ∨ IsAbove (UnpackedFloat.unpack spec (UnpackedFloat.pack spec x))
  := by
  obtain rfl | ⟨⟨⟩ | ⟨hx⟩⟩ := hx
  · exact Or.inl rfl
  · apply unpack_packComponents fun _ => rfl
  · unfold UnpackedFloat.pack
    dsimp only
    split
    · apply unpack_packComponents fun _ => rfl
    · next hlt =>
        split
        · apply unpack_packComponents
          intro h
          exact absurd h (ofNat_ne_neg_one (Nat.lt_of_not_le hlt))
        · apply unpack_packComponents
          intro h
          exact absurd h (ofNat_ne_neg_one (Nat.one_lt_two_pow spec.he.ne'))

end Unpacked

/-! ### Types of packed numbers -/

/-- The numbers of a type are packed in a format, and the operations on them unpack their
arguments and pack their results. -/
structure IsPacked (V : Type) [Arithmetic V] (spec : Format) (unpack : V → UnpackedFloat)
    (pack : UnpackedFloat → V) : Prop where
  unpack_pack : ∀ x, unpack (pack x) = UnpackedFloat.unpack spec (UnpackedFloat.pack spec x)
  pack_eq_zero : ∀ x, UnpackedFloat.pack spec x = packedZero spec .positive → pack x = 0
  unpack_zero : unpack 0 = .zero .positive
  unpack_neg_zero : unpack (-0) = .zero .negative
  unpack_one : Unpacked.IsAbove (unpack 1)
  add : ∀ x y, x + y = pack (UnpackedFloat.add spec (unpack x) (unpack y))
  sub : ∀ x y, x - y = pack (UnpackedFloat.sub spec (unpack x) (unpack y))
  mul : ∀ x y, x * y = pack (UnpackedFloat.mul spec (unpack x) (unpack y))
  lt : ∀ x y, x < y ↔ (unpack x).lt (unpack y) = true
  isFinite : ∀ x, Arithmetic.isFinite x = (unpack x).isFinite

namespace IsPacked

variable {V : Type} [Arithmetic V] {spec : Format} {unpack : V → UnpackedFloat}
  {pack : UnpackedFloat → V} (hpacked : IsPacked V spec unpack pack)

include hpacked

/-- A value is above zero if it is so unpacked. -/
theorem zero_lt_iff (x : V) :
  0 < x ↔ Unpacked.IsAbove (unpack x)
  := by
  rw [hpacked.lt, hpacked.unpack_zero, Unpacked.isAbove_iff]

/-- A value that is not negative is not negative unpacked. -/
theorem isNonneg_unpack {x : V} (hx : Nonneg x) :
  Unpacked.IsNonneg (unpack x)
  := by
  obtain rfl | hx := hx
  · exact Or.inl hpacked.unpack_zero
  · exact Or.inr ((hpacked.zero_lt_iff x).mp hx)

/-- Packing a number that is not negative gives a value that is not negative. -/
theorem nonneg_pack {x : UnpackedFloat} (hx : Unpacked.IsNonneg x) :
  Nonneg (pack x)
  := by
  obtain hzero | habove : UnpackedFloat.pack spec x = packedZero spec .positive ∨ _ :=
    hx.unpack_pack
  · exact Or.inl (hpacked.pack_eq_zero x hzero)
  · rw [← hpacked.unpack_pack] at habove
    exact Or.inr ((hpacked.zero_lt_iff _).mpr habove)

/-- A sum of zeros, of whatever signs, is a zero. -/
theorem exists_unpack_sum {terms : List V} (h : ∀ x ∈ terms, ∃ sign, unpack x = .zero sign) :
  ∃ sign, unpack (Arithmetic.sum terms) = .zero sign
  := by
  induction terms using List.reverseRecOn with
  | nil => exact ⟨_, hpacked.unpack_neg_zero⟩
  | append_singleton terms x ih =>
      obtain ⟨sign, hsum⟩ := ih fun y hy => h y (List.mem_append_left [x] hy)
      obtain ⟨sign', hx⟩ := h x (List.mem_append_right terms List.mem_cons_self)
      obtain ⟨sign'', hzero⟩ := Unpacked.exists_zero_add_zero spec sign sign'
      use sign''
      rw [Arithmetic.sum_append_singleton, hpacked.add, hpacked.unpack_pack, hsum, hx, hzero]
      apply unpack_packedZero

/-- Types of packed numbers obey the laws of signs if zero is not within the tolerance of one. -/
theorem signLaws (htolerance : Distribution.tolerance < Arithmetic.abs (0 - 1 : V)) :
  SignLaws V
  := by
  constructor
  · exact Or.inr ((hpacked.zero_lt_iff 1).mpr hpacked.unpack_one)
  · intro x hx hlt
    rw [hpacked.lt, hpacked.unpack_zero, (hpacked.isNonneg_unpack hx).lt_eq_false] at hlt
    cases hlt
  · rw [hpacked.add, hpacked.unpack_zero]
    apply hpacked.pack_eq_zero _ rfl
  · intro x y hx hy
    rw [hpacked.add]
    apply hpacked.nonneg_pack ((hpacked.isNonneg_unpack hx).add (hpacked.isNonneg_unpack hy))
  · rw [hpacked.add, hpacked.unpack_neg_zero, hpacked.unpack_zero]
    apply hpacked.pack_eq_zero _ rfl
  · intro x hx
    rw [hpacked.add, hpacked.unpack_neg_zero]
    apply hpacked.nonneg_pack ((hpacked.isNonneg_unpack hx).zero_add .negative)
  · rintro p ⟨hpos, hfinite⟩
    rw [hpacked.zero_lt_iff] at hpos
    rw [hpacked.isFinite] at hfinite
    rw [hpacked.mul, hpacked.unpack_zero, hpos.mul_zero hfinite]
    apply hpacked.pack_eq_zero _ rfl
  · rintro p x ⟨hpos, hfinite⟩ hx
    rw [hpacked.zero_lt_iff] at hpos
    rw [hpacked.isFinite] at hfinite
    rw [hpacked.mul]
    apply hpacked.nonneg_pack (hpos.mul hfinite (hpacked.isNonneg_unpack hx))
  · intro masses hmasses htotal
    by_contra hnone
    have hzeros : ∀ p ∈ masses, ∃ sign, unpack p = .zero sign := by
      intro p hp
      obtain ⟨hfinite, hneg⟩ := hmasses p hp
      rw [hpacked.isFinite] at hfinite
      rw [hpacked.lt, hpacked.unpack_zero] at hneg
      apply Unpacked.exists_eq_zero hfinite _ hneg
      rw [← hpacked.unpack_zero, ← hpacked.lt]
      intro hpos
      exact hnone ⟨p, hp, hpos⟩
    obtain ⟨sign, hsum⟩ := hpacked.exists_unpack_sum hzeros
    apply htotal
    rw [hpacked.sub, hsum, hpacked.unpack_one.zero_sub, ← hpacked.unpack_zero, ← hpacked.sub]
    apply htolerance

end IsPacked

/-- The numbers of 64 bits are packed in the format of that width. -/
theorem isPacked_double :
  IsPacked Float .binary64 (fun x => x.toModel.unpack) (fun x => .ofModel (.pack x))
  where
  unpack_pack _ := rfl
  pack_eq_zero x h := by
    change Float.ofModel (.pack x) = Float.ofModel (.pack (.zero .positive))
    congr 1
    unfold Float.Model.pack
    congr 2
  unpack_zero := rfl
  unpack_neg_zero := rfl
  unpack_one := .finite _
  add _ _ := rfl
  sub _ _ := rfl
  mul _ _ := rfl
  lt x y := by
    change decide _ = true ↔ _
    rw [decide_eq_true_iff]
    rfl
  isFinite _ := rfl

/-- The numbers of 32 bits are packed in the format of that width. -/
theorem isPacked_single :
  IsPacked Float32 .binary32 (fun x => x.toModel.unpack) (fun x => .ofModel (.pack x))
  where
  unpack_pack _ := rfl
  pack_eq_zero x h := by
    change Float32.ofModel (.pack x) = Float32.ofModel (.pack (.zero .positive))
    congr 1
    unfold Float32.Model.pack
    congr 2
  unpack_zero := rfl
  unpack_neg_zero := rfl
  unpack_one := .finite _
  add _ _ := rfl
  sub _ _ := rfl
  mul _ _ := rfl
  lt x y := by
    change decide _ = true ↔ _
    rw [decide_eq_true_iff]
    rfl
  isFinite _ := rfl

instance : SignLaws Float := isPacked_double.signLaws (by decide +kernel)

/-- The numbers of 32 bits obey the laws of signs if their tolerance is below one. -/
theorem signLaws_single (h : (Distribution.tolerance : Float32) < Arithmetic.abs (0 - 1)) :
  SignLaws Float32
  := isPacked_single.signLaws h

end Reachability
