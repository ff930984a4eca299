import Mathlib
import PlanReplay.Decimal.Fixed

/-!
# The nearest whole number, halves to the even one

Both the doubles and their decimal texts are rounded in the same way: to the nearest whole number of units, and from
halfway between two of them to the even one.

* `Decimal.IsHalfEven` — a whole number that a rational number is rounded to.
* `Decimal.IsHalfEven.mono`, `Decimal.IsHalfEven.unique` — rounding keeps the order, and there is one result.
* `Decimal.IsHalfEven.of_nearer` — what is no farther from the result is rounded to it as well.
* `Decimal.isHalfEven_roundHalfEven` — fractions are rounded in this way.
-/

namespace PlanReplay.Decimal

/-- The whole number that `r` is rounded to. -/
structure IsHalfEven (r : ℚ) (t : ℤ) : Prop where
  near : |r - t| ≤ 1 / 2
  even : |r - t| = 1 / 2 → Even t

variable {r r' : ℚ} {t t' : ℤ}

/-- Rounding keeps the order: of two results that are one apart only one is even. -/
theorem IsHalfEven.mono (h : IsHalfEven r t) (h' : IsHalfEven r' t') (hLe : r ≤ r') : t ≤ t' := by
  by_contra hNot
  have hStep : t' + 1 ≤ t := by omega
  have hStepRat : (t' : ℚ) + 1 ≤ t := by exact_mod_cast hStep
  obtain ⟨hLow, hHigh⟩ := abs_le.mp h.near
  obtain ⟨hLow', hHigh'⟩ := abs_le.mp h'.near
  have hHalf : r - t = -(1 / 2) := by linarith
  have hHalf' : r' - t' = 1 / 2 := by linarith
  have hNext : t = t' + 1 := by
    have hRat : (t : ℚ) = t' + 1 := by linarith
    exact_mod_cast hRat
  have hEven : Even t := h.even (by rw [hHalf, abs_neg, abs_of_pos (by norm_num)])
  have hEven' : Even t' := h'.even (by rw [hHalf', abs_of_pos (by norm_num)])
  rw [hNext] at hEven
  exact Int.even_add_one.mp hEven hEven'

theorem IsHalfEven.unique (h : IsHalfEven r t) (h' : IsHalfEven r t') : t = t' :=
  le_antisymm (h.mono h' le_rfl) (h'.mono h le_rfl)

theorem isHalfEven_of_lt (h : |r - t| < 1 / 2) : IsHalfEven r t :=
  ⟨h.le, fun hHalf => absurd hHalf h.ne⟩

/-- Below zero numbers are rounded as above. -/
theorem IsHalfEven.neg (h : IsHalfEven r t) : IsHalfEven (-r) (-t) := by
  have hSame : |-r - ((-t : ℤ) : ℚ)| = |r - t| := by
    rw [Int.cast_neg, neg_sub_neg, abs_sub_comm]
  refine ⟨hSame ▸ h.near, ?_⟩
  intro hHalf
  exact (h.even (hSame ▸ hHalf)).neg

/-- What is no farther from the result is rounded to it as well. -/
theorem IsHalfEven.of_nearer (h : IsHalfEven r t) (hNear : |r' - t| ≤ |r - t|) : IsHalfEven r' t := by
  refine ⟨hNear.trans h.near, ?_⟩
  intro hHalf
  exact h.even (le_antisymm h.near (hHalf ▸ hNear))

/-- No whole number is nearer than the result. -/
theorem IsHalfEven.nearest (h : IsHalfEven r t) (k : ℤ) : |t - r| ≤ |k - r| := by
  rcases eq_or_ne k t with rfl | hOther
  · exact le_rfl
  · have hOne : (1 : ℚ) ≤ |(k : ℚ) - t| := by exact_mod_cast Int.one_le_abs (sub_ne_zero.mpr hOther)
    have hThrough : |(k : ℚ) - t| ≤ |k - r| + |r - t| := abs_sub_le _ _ _
    have hNear := h.near
    rw [abs_sub_comm]
    linarith

/-- Only a remainder of half the denominator puts a fraction halfway between two whole numbers. -/
theorem remainder_of_halfway {num den : Nat} {t : ℤ} (pos : 0 < den) (h : |(num : ℚ) - t * den| = 1 / 2 * den) :
    2 * (num % den) = den := by
  obtain ⟨j, hOdd, hTwice⟩ : ∃ j : ℤ, Odd j ∧ 2 * (num : ℤ) = j * den := by
    rcases eq_or_eq_neg_of_abs_eq h with hAbove | hBelow
    · refine ⟨2 * t + 1, odd_two_mul_add_one t, ?_⟩
      have hRat : 2 * (num : ℚ) = (2 * t + 1) * den := by linarith
      exact_mod_cast hRat
    · refine ⟨2 * t - 1, ⟨t - 1, by ring⟩, ?_⟩
      have hRat : 2 * (num : ℚ) = (2 * t - 1) * den := by linarith
      exact_mod_cast hRat
  have hSplit : (den : ℤ) * (num / den : Nat) + (num % den : Nat) = num := by exact_mod_cast Nat.div_add_mod num den
  have hSmall : ((num % den : Nat) : ℤ) < den := by exact_mod_cast Nat.mod_lt num pos
  have hDen : (0 : ℤ) < den := by exact_mod_cast pos
  have hRest : 2 * ((num % den : Nat) : ℤ) = (j - 2 * (num / den : Nat)) * den := by linarith
  -- twice the remainder is an odd multiple of the denominator, and less than its double
  have hLow : 0 ≤ j - 2 * (num / den : Nat) := nonneg_of_mul_nonneg_left (hRest ▸ by positivity) hDen
  have hHigh : j - 2 * (num / den : Nat) < 2 := lt_of_mul_lt_mul_right (hRest ▸ by linarith) hDen.le
  obtain ⟨k, rfl⟩ := hOdd
  have hOne : 2 * k + 1 - 2 * ((num / den : Nat) : ℤ) = 1 := by omega
  rw [hOne, one_mul] at hRest
  exact_mod_cast hRest

/-- A fraction is rounded to the nearest whole number, from halfway to the even one. -/
theorem isHalfEven_roundHalfEven (num : Nat) {den : Nat} (pos : 0 < den) :
    IsHalfEven ((num : ℚ) / den) (roundHalfEven num den) := by
  obtain ⟨hHigh, hLow⟩ := roundHalfEven_near num pos
  have hDen : (0 : ℚ) < den := Nat.cast_pos.mpr pos
  have hHighRat : 2 * (num : ℚ) ≤ (2 * roundHalfEven num den + 1) * den := by exact_mod_cast hHigh
  have hLowRat : 2 * ((roundHalfEven num den : ℚ) * den) ≤ 2 * num + den := by exact_mod_cast hLow
  have hDistance : |(num : ℚ) / den - (roundHalfEven num den : ℤ)| =
      |(num : ℚ) - (roundHalfEven num den : ℤ) * den| / den := by
    rw [← abs_of_pos hDen, ← abs_div, abs_of_pos hDen, sub_div, mul_div_cancel_right₀ _ hDen.ne']
  constructor
  · rw [hDistance, div_le_iff₀ hDen, abs_le, Int.cast_natCast]
    constructor <;> linarith
  · intro hHalf
    rw [hDistance, div_eq_iff hDen.ne'] at hHalf
    have hEven := Nat.even_iff.mpr (roundHalfEven_tie (remainder_of_halfway pos hHalf))
    exact_mod_cast hEven

end PlanReplay.Decimal
