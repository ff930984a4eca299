import PlanReplay.Bounds

/-!
# Binary floating-point values, taken apart

A float is a sign, a natural number and a power of two. `Value` holds these parts, `decodeBits` reads them
from the bits of a format, and the conversions to whole numbers are defined on them in exact arithmetic.
-/

namespace PlanReplay.Decimal

/-- The parts of a binary format: bits of the fraction and bits of the exponent. -/
structure BinaryFormat where
  fractionBits : Nat
  exponentBits : Nat

/-- Numbers of 64 bits. -/
def binary64 : BinaryFormat := ⟨52, 11⟩

/-- Numbers of 32 bits. -/
def binary32 : BinaryFormat := ⟨23, 8⟩

/-- A float taken apart. The finite value is `mantissa * 2 ^ exponent`, negated on demand; `edge` says
that the next smaller magnitude is nearer than the next larger one. -/
inductive Value where
  | nan
  | infinite (negative : Bool)
  | finite (negative : Bool) (mantissa : Nat) (exponent : Int) (edge : Bool)
deriving DecidableEq

/-- Reads the bits of a number of the given format. -/
def decodeBits (format : BinaryFormat) (bits : Nat) : Value :=
  let fraction := bits % twoTo format.fractionBits
  let biased := bits / twoTo format.fractionBits % twoTo format.exponentBits
  let negative := bits / twoTo (format.fractionBits + format.exponentBits) % 2 == 1
  let bias : Int := twoTo (format.exponentBits - 1) - 1 + format.fractionBits
  if biased = twoTo format.exponentBits - 1 then
    if fraction = 0 then .infinite negative else .nan
  else if biased = 0 then
    .finite negative fraction (1 - bias) false
  else
    .finite negative (twoTo format.fractionBits + fraction) (biased - bias) (fraction == 0 && biased != 1)

/-- A double taken apart. -/
def ofFloat (x : Float) : Value := decodeBits binary64 x.toBits.toNat

/-- A single-precision number taken apart. -/
def ofFloat32 (x : Float32) : Value := decodeBits binary32 x.toBits.toNat

/-- A whole number brought into the range from `low` to `high`. -/
def clampInt (low high n : Int) : Int := if n < low then low else if high < n then high else n

/-- The magnitude of `mantissa * 2 ^ exponent` without its fraction. -/
def wholePart (mantissa : Nat) (exponent : Int) : Nat :=
  mantissa * twoTo exponent.toNat / twoTo (-exponent).toNat

/-- The magnitude of `mantissa * 2 ^ exponent` to the nearest whole number, a half going up. -/
def nearestWhole (mantissa : Nat) (exponent : Int) : Nat :=
  (2 * (mantissa * twoTo exponent.toNat) + twoTo (-exponent).toNat) / (2 * twoTo (-exponent).toNat)

/-- A value as a whole number of 64 bits with sign: `whole` turns the magnitude into a whole number, what
is too large is the nearest bound, and what is no number is zero. -/
def Value.toInt64 (whole : Nat → Int → Nat) : Value → Int
  | .nan => 0
  | .infinite negative => if negative then minInt64 else maxInt64
  | .finite negative mantissa exponent _ =>
    let magnitude : Int := whole mantissa exponent
    clampInt minInt64 maxInt64 (if negative then -magnitude else magnitude)

/-- A value as a whole number of 64 bits without sign: the fraction is dropped, negative values and what
is no number are zero, and what is too large is the largest number. -/
def Value.toIndex : Value → Nat
  | .nan => 0
  | .infinite negative => if negative then 0 else maxUInt64
  | .finite negative mantissa exponent _ =>
    if negative then 0 else min maxUInt64 (wholePart mantissa exponent)

end PlanReplay.Decimal
