import PlanReplay.Decimal.Binary

/-!
# Scalars

Times, distances and levels are scalars. The simulation is defined over any type with the operations
below; it runs on doubles, and the same definitions can be read over exact numbers.

On doubles every operation is the rounded one of the format. A double may be no number or infinite; the
operations say what they make of such a value, and `isFinite` tells the others apart.
-/

namespace PlanReplay

/-- The operations that the simulation uses on times, distances and levels. -/
class Scalar (α : Type) extends Zero α, One α, Add α, Sub α, Mul α, Div α, Neg α, LT α, LE α where
  decidableLT : DecidableLT α
  decidableLE : DecidableLE α
  /-- The larger of two values; one that is no number gives way to the other. -/
  larger : α → α → α
  /-- The smaller of two values; one that is no number gives way to the other. -/
  smaller : α → α → α
  /-- Whether a value is a number and not infinite. -/
  isFinite : α → Bool
  /-- The exponential function. -/
  exp : α → α
  /-- A whole number as a scalar. -/
  ofInt : Int → α
  /-- A scalar without its fraction, as a number of 64 bits with sign. -/
  truncate : α → Int
  /-- The nearest number of 64 bits with sign, a half going away from zero. -/
  nearest : α → Int
  /-- A scalar without its fraction, as a position in a list; negative values are the first one. -/
  position : α → Nat
  /-- Whether a sum of whole numbers is one of those that can be counted with. -/
  fits : Int → Bool

namespace Scalar

variable {α : Type} [Scalar α]

instance : DecidableLT α := Scalar.decidableLT

instance : DecidableLE α := Scalar.decidableLE

/-- A value that is not below zero as it is, any other one as zero. -/
def nonNegative (x : α) : α := larger x 0

/-- A value brought between two bounds. -/
def clamp (low high x : α) : α := if x < low then low else if high < x then high else x

end Scalar

/-- The larger of two doubles. Of the two zeros the one without sign is the larger. -/
def Scalar.largerFloat (x y : Float) : Float :=
  if x.isNaN then y
  else if y.isNaN then x
  else if x < y then y
  else if y < x then x
  else if x.toBits = 0 then x else y

/-- The smaller of two doubles. Of the two zeros the one with a sign is the smaller. -/
def Scalar.smallerFloat (x y : Float) : Float :=
  if x.isNaN then y
  else if y.isNaN then x
  else if x < y then x
  else if y < x then y
  else if x.toBits = 0 then y else x

instance : Scalar Float where
  zero := 0
  one := 1
  decidableLT := inferInstance
  decidableLE := inferInstance
  larger := Scalar.largerFloat
  smaller := Scalar.smallerFloat
  isFinite := Float.isFinite
  exp := Float.exp
  ofInt := Float.ofInt
  truncate x := (Decimal.ofFloat x).toInt64 Decimal.wholePart
  nearest x := (Decimal.ofFloat x).toInt64 Decimal.nearestWhole
  position x := (Decimal.ofFloat x).toIndex
  fits n := decide (minInt64 ≤ n ∧ n ≤ maxInt64)

example : Scalar.truncate (-2.9 : Float) = -2 ∧ Scalar.nearest (-2.5 : Float) = -3 := by decide

example : Scalar.nearest (1e300 : Float) = maxInt64 ∧ Scalar.position (-1.0 : Float) = 0 := by decide +kernel

end PlanReplay
