import Mathlib
import Reachability.Json.Number
import Reachability.Proofs.Comparison
import Reachability.Proofs.Documents

/-!
# Numbers of 64 bits in documents

A number of 64 bits has a numeral if and only if it is finite (`numeral?_double_eq_none_iff`), which
the bits of its exponent tell.  It reads back if this numeral names it (`Numeric.ReadsBack`).  The
documents of numbers that read back, and of those that are not finite, are themselves read back from
their texts (`isPlain_ofNumeric`).
-/

namespace Reachability

open Float.Model (Format UnpackedFloat)

/-- An unpacked number is finite unless all bits of its exponent are set. -/
theorem Unpacked.isFinite_unpack_iff {spec : Format} (bits : BitVec spec.numBits) :
  (UnpackedFloat.unpack spec bits).isFinite = true ↔ UnpackedFloat.unpackExponent bits ≠ -1#_
  := by
  rw [UnpackedFloat.unpack]
  split_ifs with hexponent hinfinite hsmall hzero
  · exact iff_of_false Bool.false_ne_true (not_not_intro hexponent)
  · exact iff_of_false Bool.false_ne_true (not_not_intro hexponent)
  · exact iff_of_true rfl hexponent
  · exact iff_of_true rfl hexponent
  · exact iff_of_true rfl hexponent

/-- A number of 64 bits is finite unless all bits of its exponent are set. -/
theorem isFinite_double_iff (x : Float) :
  x.isFinite = true ↔ x.toBits.toNat / 2 ^ 52 % 2 ^ 11 ≠ 2 ^ 11 - 1
  := by
  have hfield : (@UnpackedFloat.unpackExponent .binary64 x.toBits.toBitVec).toNat
      = x.toBits.toNat / 2 ^ 52 % 2 ^ 11 := by
    rw [UnpackedFloat.unpackExponent, BitVec.toNat_cast, BitVec.extractLsb_toNat,
      Nat.shiftRight_eq_div_pow]
    rfl
  change (UnpackedFloat.unpack .binary64 x.toBits.toBitVec).isFinite = true ↔ _
  rw [Unpacked.isFinite_unpack_iff, ← hfield, Ne, ← BitVec.toNat_inj]
  rfl

/-- A bit pattern has no numeral if all bits of its exponent are set. -/
theorem BinaryFormat.numeral?_decimal_eq_none_iff (f : BinaryFormat) (bits : Nat) :
  (f.decimal bits).numeral? = none
    ↔ bits / 2 ^ f.fractionBits % 2 ^ f.exponentBits = 2 ^ f.exponentBits - 1
  := by
  change Decimal.numeral? (if bits / 2 ^ f.fractionBits % 2 ^ f.exponentBits
    = 2 ^ f.exponentBits - 1 then _ else _) = none ↔ _
  split
  · next hfield =>
      apply iff_of_true _ hfield
      split
      · rfl
      · rfl
  · next hfield =>
      apply iff_of_false _ hfield
      split
      · exact Option.some_ne_none _
      · exact Option.some_ne_none _

/-- A number of 64 bits has no numeral if and only if it is not finite. -/
theorem numeral?_double_eq_none_iff (x : Float) :
  Numeric.numeral? x = none ↔ x.isFinite = false
  := by
  rw [← Bool.not_eq_true, isFinite_double_iff, not_not]
  exact BinaryFormat.double.numeral?_decimal_eq_none_iff x.toBits.toNat

/-- A finite number equals itself. -/
theorem beq_self_of_isFinite {x : Float} (hx : x.isFinite = true) :
  (x == x) = true
  := by
  rw [isPackedField_double.beq, Unpacked.beq_self_iff]
  intro h
  change x.toModel.unpack.isFinite = true at hx
  rw [h] at hx
  cases hx

/-- The numeral of a decimal number is not that of a whole number. -/
theorem Decimal.whole_of_numeral? {d : Decimal} {n : Numeral} (h : d.numeral? = some n) :
  n.whole = false
  := by
  cases d with
  | nan => cases h
  | infinite negative => cases h
  | finite negative digits exponent =>
      cases h
      rfl

/-- A numeral whose digits are all zero names a zero. -/
theorem Numeral.toDouble_of_digits_eq_zero {n : Numeral} (h : n.digits = 0) :
  n.toDouble = if n.negative then -0.0 else 0.0
  := by
  rw [toDouble]
  simp only [h, if_true]

/-- A value reads back if it has a numeral, which names it. -/
def Numeric.ReadsBack {W : Type} [Numeric W] (x : W) : Prop :=
  ∃ n, numeral? x = some n ∧ ofNumeral n = x

instance {W : Type} [Numeric W] [DecidableEq W] (x : W) : Decidable (Numeric.ReadsBack x) :=
  inferInstanceAs (Decidable (∃ n ∈ Numeric.numeral? x, Numeric.ofNumeral n = x))

/-- The numeral of a number that reads back is plain: if all of its digits are zero, then it names a
zero, and the numerals of zeros have exponent zero. -/
theorem isPlain_ofNumeric {x : Float} (hx : x.isFinite = true → Numeric.ReadsBack x) :
  (Json.ofNumeric x).IsPlain
  := by
  have hzeros : ∀ negative : Bool, Numeric.numeral? (if negative then -0.0 else 0.0 : Float)
      = some ⟨negative, 0, 0, false⟩ := by
    decide +kernel
  cases hfinite : x.isFinite with
  | false =>
      rw [Json.ofNumeric, (numeral?_double_eq_none_iff x).mpr hfinite]
      exact .null
  | true =>
      obtain ⟨n, hn, hnames⟩ := hx hfinite
      simp only [Json.ofNumeric, hn]
      apply Json.IsPlain.number
      rintro (hwhole | hdigits)
      · rw [Decimal.whole_of_numeral? hn] at hwhole
        cases hwhole
      · rw [← hnames] at hn
        change Numeric.numeral? n.toDouble = some n at hn
        rw [Numeral.toDouble_of_digits_eq_zero hdigits, hzeros] at hn
        rw [← Option.some_inj.mp hn]

end Reachability
