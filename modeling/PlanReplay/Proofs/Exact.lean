import Mathlib.Algebra.Order.Field.Rat
import Mathlib.Algebra.Order.Ring.Rat
import Mathlib.Data.Rat.Floor
import PlanReplay.Scalar

/-!
# Exact numbers

The simulation can be read over the rational numbers, where no operation is rounded and no sum overflows. The
exponential function is the one operation that leads out of them, and so it is a parameter: what is proved over
`Exact exp` holds whatever function stands in for it.

* `Exact` — the rational numbers as scalars.
-/

namespace PlanReplay

/-- The rational numbers, with a function in the place of the exponential function. -/
def Exact (_exp : ℚ → ℚ) : Type := ℚ

namespace Exact

variable {exp : ℚ → ℚ}

instance : Field (Exact exp) := inferInstanceAs (Field ℚ)

instance : LinearOrder (Exact exp) := inferInstanceAs (LinearOrder ℚ)

instance : IsStrictOrderedRing (Exact exp) := inferInstanceAs (IsStrictOrderedRing ℚ)

instance : Scalar (Exact exp) where
  decidableLT := inferInstance
  decidableLE := inferInstance
  larger := max
  smaller := min
  isFinite _ := true
  exp := exp
  ofInt n := (n : ℚ)
  truncate (x : ℚ) := Decimal.clampInt minInt64 maxInt64 (if 0 ≤ x then ⌊x⌋ else ⌈x⌉)
  nearest (x : ℚ) := Decimal.clampInt minInt64 maxInt64 (if 0 ≤ x then ⌊x + 1 / 2⌋ else ⌈x - 1 / 2⌉)
  position (x : ℚ) := min maxUInt64 ⌊x⌋.toNat
  fits _ := true

example : Scalar.nearest (-5 / 2 : Exact fun _ => 1) = -3 ∧ Scalar.truncate (-5 / 2 : Exact fun _ => 1) = -2 := by
  decide +kernel

end Exact

end PlanReplay
