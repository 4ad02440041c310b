import Reachability.Arithmetic

/-!
# Binary floating point numbers

The numbers of 64 and of 32 bits as instances of `Arithmetic`.  The numbers of 64 bits are
also the wider numbers that go with both.  A constant of the narrower type is the constant of
the wider type, rounded once more.
-/

namespace Reachability

/-- The largest finite number of 64 bits. -/
def largestDouble : Float := Float.ofBits 0x7FEFFFFFFFFFFFFF

/-- The largest finite number of 32 bits. -/
def largestSingle : Float32 := Float32.ofBits 0x7F7FFFFF

instance : Wide Float where
  zero := 0.0
  one := 1.0
  add := Float.add
  sub := Float.sub
  mul := Float.mul
  div := Float.div
  neg := Float.neg
  lt := fun x y => x < y
  le := fun x y => x ≤ y
  beq := Float.beq
  decidableLT := fun x y => inferInstanceAs (Decidable (x < y))
  decidableLE := fun x y => inferInstanceAs (Decidable (x ≤ y))
  ofNat := Float.ofNat
  decimal := fun digits places => Float.ofScientific digits true places
  abs := Float.abs
  exp := Float.exp
  isFinite := Float.isFinite
  capped := fun x => if largestDouble < x then largestDouble else x
  ceilNat := fun x => x.ceil.toUInt64.toNat
  sqrt := Float.sqrt
  floor := Float.floor
  ceil := Float.ceil
  pi := 3.141592653589793
  toIndex := fun x => x.toUInt64.toNat

instance : Arithmetic Float32 where
  zero := 0.0
  one := 1.0
  add := Float32.add
  sub := Float32.sub
  mul := Float32.mul
  div := Float32.div
  neg := Float32.neg
  lt := fun x y => x < y
  le := fun x y => x ≤ y
  beq := Float32.beq
  decidableLT := fun x y => inferInstanceAs (Decidable (x < y))
  decidableLE := fun x y => inferInstanceAs (Decidable (x ≤ y))
  ofNat := fun n => (Float.ofNat n).toFloat32
  decimal := fun digits places => (Float.ofScientific digits true places).toFloat32
  abs := Float32.abs
  exp := Float32.exp
  isFinite := Float32.isFinite
  capped := fun x => if largestSingle < x then largestSingle else x
  ceilNat := fun x => x.ceil.toUInt64.toNat

instance : Precision Float Float where
  widen := id
  narrow := id

instance : Precision Float32 Float where
  widen := Float32.toFloat
  narrow := Float.toFloat32

end Reachability
