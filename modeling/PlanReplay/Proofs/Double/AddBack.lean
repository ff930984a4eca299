import PlanReplay.Proofs.Double.Rounding

/-!
# A difference that is added back

What is missing from one double to a larger one is rounded, and so is the sum with it. Mostly the sum is the larger
double again. It is one place below it where both are rounded down from halfway; it is nowhere lower, and what is missing
then is exact, so that the same done again arrives.

* `Double.FallsShort` — the pairs of doubles for which the sum is too small.
* `Double.addBack_of_full` — the two roundings in units of the last place of the larger double.
* `Double.fallsShort_of_lt`, `Double.lt_of_fallsShort` — the sum is too small exactly for these pairs.
* `Double.add_sub_cases` — the same, said of doubles.
-/

namespace PlanReplay.Double

open Decimal (IsHalfEven)
open Float.Model.UnpackedFloat

/-- What is missing from `start` to `goal` has all the places of `goal`, and half a place more: the last bit of `goal` is
odd, and `start` is one more than a multiple of four in units of half that place. -/
def FallsShort (goal start : ℚ) : Prop :=
  ∃ (m i : Nat) (place : ℤ), Fits m place ∧ Odd m ∧ goal = m * 2 ^ place ∧
    start = (4 * i + 1) * 2 ^ (place - 1) ∧ 2 ^ 52 * 2 ^ place ≤ goal - start

variable {goal start missing total : ℚ} {m : Nat} {place : ℤ}

-- ---------------------------------------------------------------------------
-- Units of the last place
-- ---------------------------------------------------------------------------

/-- A number has one mantissa and one exponent. -/
theorem Fits.unique {m' : Nat} {place' : ℤ} (h : Fits m place) (h' : Fits m' place')
    (hSame : (m : ℚ) * 2 ^ place = m' * 2 ^ place') : m = m' ∧ place = place' := by
  rcases lt_trichotomy place place' with hLess | rfl | hMore
  · exact absurd hSame (magnitude_lt h h' (Or.inl hLess)).ne
  · exact ⟨by exact_mod_cast mul_right_cancel₀ (zpow_pos two_pos place).ne' hSame, rfl⟩
  · exact absurd hSame (magnitude_lt h' h (Or.inl hMore)).ne'

theorem Fits.cast_le (h : Fits m place) : (m : ℚ) ≤ 2 ^ 53 - 1 := by
  have hCast : ((m + 1 : Nat) : ℚ) ≤ (2 ^ 53 : Nat) := Nat.cast_le.mpr h.1
  push_cast at hCast
  linarith

/-- Half a place is the unit of the place before it. -/
theorem two_zpow_pred (place : ℤ) : (2 : ℚ) ^ (place - 1) = 2 ^ place / 2 := by
  rw [zpow_sub_one₀ two_ne_zero, div_eq_mul_inv]

/-- A canonical number is a whole number of the smallest units. -/
theorem exists_units {u : Float.Model.UnpackedFloat} (hu : IsCanonical u) : ∃ k : ℤ, value u = k * 2 ^ (-1074 : ℤ) := by
  cases u with
  | notANumber | infinity s => exact hu.elim
  | zero s => exact ⟨0, by rw [value_zero, Int.cast_zero, zero_mul]⟩
  | finite s m e hm => exact ⟨_, units_at_smaller (s.apply m) hu.2.1⟩

-- ---------------------------------------------------------------------------
-- Where all places count
-- ---------------------------------------------------------------------------

/-- Where the difference has all the places of the larger double, both roundings are to these places. The second one is
that of the larger double with the error of the first one. -/
theorem addBack_of_full (hFits : Fits m place) (hGoal : goal = m * 2 ^ place) (hStart : 0 ≤ start)
    (hFull : 2 ^ 52 * 2 ^ place ≤ goal - start) (hMissing : Rounded (goal - start) missing)
    (hTotal : Rounded (start + missing) total) :
    ∃ t t' : ℤ, IsHalfEven ((goal - start) / 2 ^ place) t ∧
      IsHalfEven (m + (t - (goal - start) / 2 ^ place)) t' ∧ total = t' * 2 ^ place := by
  have hUnit : (0 : ℚ) < 2 ^ place := zpow_pos two_pos place
  have hBits : (m : ℚ) * 2 ^ place < 2 ^ 53 * 2 ^ place := mul_lt_mul_of_pos_right (mod_cast hFits.1) hUnit
  obtain ⟨first, hFirst⟩ := hMissing
  obtain rfl := hFirst.place_eq hFits.2.1 (by linarith) (Or.inr hFull)
  obtain ⟨t, hNear, rfl⟩ := hFirst.near
  have hSum : start + t * 2 ^ first = (m + (t - (goal - start) / 2 ^ first)) * 2 ^ first := by
    rw [add_mul, sub_mul, div_mul_cancel₀ _ hUnit.ne', ← hGoal]
    ring
  have hLeading : ((2 ^ 52 : ℤ) : ℚ) ≤ (goal - start) / 2 ^ first :=
    (le_div_iff₀ hUnit).mpr (by exact_mod_cast hFull)
  have hReached : ((2 ^ 52 : ℤ) : ℚ) ≤ t := Int.cast_le.mpr ((isHalfEven_int _).mono hNear hLeading)
  have hError := (abs_le.mp hNear.near).1
  have hHigh : start + t * 2 ^ first < 2 ^ 53 * 2 ^ first := by
    rw [hSum]
    exact mul_lt_mul_of_pos_right (by linarith [hFits.cast_le]) hUnit
  have hFull' : 2 ^ 52 * 2 ^ first ≤ start + t * 2 ^ first := by
    have hScaled := mul_le_mul_of_nonneg_right hReached hUnit.le
    push_cast at hScaled
    linarith
  obtain ⟨second, hSecond⟩ := hTotal
  obtain rfl := hSecond.place_eq hFits.2.1 hHigh (Or.inr hFull')
  obtain ⟨t', hNear', rfl⟩ := hSecond.near
  rw [hSum, mul_div_cancel_right₀ _ hUnit.ne'] at hNear'
  exact ⟨t, t', hNear, hNear', rfl⟩

/-- A sum that is too small although all places count is rounded down from halfway, twice. -/
theorem fallsShort_of_full (hFits : Fits m place) (hGoal : goal = m * 2 ^ place) (hStart : 0 ≤ start)
    (hFull : 2 ^ 52 * 2 ^ place ≤ goal - start) (hMissing : Rounded (goal - start) missing)
    (hTotal : Rounded (start + missing) total) (hShort : total < goal) : FallsShort goal start := by
  have hUnit : (0 : ℚ) < 2 ^ place := zpow_pos two_pos place
  obtain ⟨t, t', hNear, hNear', rfl⟩ := addBack_of_full hFits hGoal hStart hFull hMissing hTotal
  have hPlaces : (goal - start) / 2 ^ place = m - start / 2 ^ place := by
    rw [sub_div, hGoal, mul_div_cancel_right₀ _ hUnit.ne']
  rw [hPlaces] at hNear hNear'
  have hBelow : t' + 1 ≤ m := by
    rw [hGoal] at hShort
    have hLess : (t' : ℚ) < m := lt_of_mul_lt_mul_right hShort hUnit.le
    exact_mod_cast hLess
  have hBelowRat : (t' : ℚ) + 1 ≤ m := by exact_mod_cast hBelow
  have hUp := (abs_le.mp hNear.near).2
  have hUp' := (abs_le.mp hNear'.near).2
  -- neither rounding could be farther, so both are from halfway
  have hStartPlaces : start / 2 ^ place = m - t - 1 / 2 := by linarith
  have hNext : t' + 1 = m := by
    have hRat : (t' : ℚ) + 1 = m := by linarith
    exact_mod_cast hRat
  have hHalf : (m : ℚ) - start / 2 ^ place - t = 1 / 2 := by linarith
  have hHalf' : (m : ℚ) + (t - (m - start / 2 ^ place)) - t' = 1 / 2 := by linarith
  have hEven : Even t := hNear.even (by rw [hHalf, abs_of_pos one_half_pos])
  have hEven' : Even t' := hNear'.even (by rw [hHalf', abs_of_pos one_half_pos])
  have hStartNonneg : 0 ≤ start / 2 ^ place := div_nonneg hStart hUnit.le
  obtain ⟨i, hi⟩ : ∃ i : Nat, (m : ℤ) - t = 2 * i + 1 := by
    have hAbove : (0 : ℚ) < (m - t : ℤ) := by
      push_cast
      linarith
    have hAboveInt : 0 < (m : ℤ) - t := Int.cast_pos.mp hAbove
    obtain ⟨a, ha⟩ := hEven
    obtain ⟨b, hb⟩ := hEven'
    exact ⟨(b - a).toNat, by omega⟩
  refine ⟨m, i, place, hFits, ?_, hGoal, ?_, hFull⟩
  · obtain ⟨b, hb⟩ := hEven'
    exact ⟨b.toNat, by omega⟩
  · have hiRat : (m : ℚ) - t = 2 * i + 1 := by exact_mod_cast hi
    have hHalves : start = (2 * i + 1 / 2) * 2 ^ place := by
      rw [← div_eq_iff hUnit.ne', hStartPlaces]
      linarith
    rw [hHalves, two_zpow_pred]
    ring

/-- **Falling short.** For these pairs the sum is one place below the larger double, and what is then missing does not fall
short. -/
theorem lt_of_fallsShort (h : FallsShort goal start) (hMissing : Rounded (goal - start) missing)
    (hTotal : Rounded (start + missing) total) : total < goal ∧ ¬ FallsShort goal total := by
  obtain ⟨m, i, place, hFits, hOdd, hGoal, hStart, hFull⟩ := h
  have hUnit : (0 : ℚ) < 2 ^ place := zpow_pos two_pos place
  have hStartNonneg : 0 ≤ start := by
    rw [hStart]
    positivity
  obtain ⟨t, t', hNear, hNear', rfl⟩ := addBack_of_full hFits hGoal hStartNonneg hFull hMissing hTotal
  have hPlaces : (goal - start) / 2 ^ place = m - (2 * i + 1 / 2) := by
    rw [two_zpow_pred] at hStart
    rw [div_eq_iff hUnit.ne', hGoal, hStart]
    ring
  rw [hPlaces] at hNear hNear'
  obtain ⟨k, rfl⟩ := hOdd
  -- the results are the even neighbours
  have hFirst : IsHalfEven ((2 * k + 1 : Nat) - (2 * i + 1 / 2) : ℚ) (2 * (k - i) : ℤ) := by
    refine ⟨?_, fun _ => even_two_mul _⟩
    rw [abs_le]
    push_cast
    constructor <;> linarith
  obtain rfl := hNear.unique hFirst
  have hSecond : IsHalfEven ((2 * k + 1 : Nat) + (((2 * (k - i) : ℤ) : ℚ) - ((2 * k + 1 : Nat) - (2 * i + 1 / 2))))
      (2 * k : ℤ) := by
    refine ⟨?_, fun _ => even_two_mul _⟩
    rw [abs_le]
    push_cast
    constructor <;> linarith
  obtain rfl := hNear'.unique hSecond
  constructor
  · rw [hGoal]
    refine mul_lt_mul_of_pos_right ?_ hUnit
    push_cast
    linarith
  · rintro ⟨m', i', place', hFits', -, hGoal', hTotal', -⟩
    obtain ⟨-, rfl⟩ := hFits.unique hFits' (hGoal.symm.trans hGoal')
    -- an even number of places is no odd number of half places
    have hHalves : 2 * (2 * (k : ℚ)) = 4 * i' + 1 := by
      rw [two_zpow_pred] at hTotal'
      refine mul_right_cancel₀ hUnit.ne' ?_
      push_cast at hTotal'
      linarith
    have hHalvesNat : 2 * (2 * k) = 4 * i' + 1 := by exact_mod_cast hHalves
    omega

-- ---------------------------------------------------------------------------
-- Where fewer places count
-- ---------------------------------------------------------------------------

/-- A difference with fewer places than the larger double has an error of a quarter of its last place at most. -/
theorem error_le_quarter (hLow : -1074 < place) (hFewer : goal - start < 2 ^ 52 * 2 ^ place)
    (hMissing : Rounded (goal - start) missing) : goal - 2 ^ place / 4 ≤ start + missing := by
  obtain ⟨first, hFirst⟩ := hMissing
  obtain ⟨t, hNear, rfl⟩ := hFirst.near
  have hUnit : (0 : ℚ) < 2 ^ first := zpow_pos two_pos first
  have hSmaller : first ≤ place - 1 := by
    by_contra hLarger
    have hLeading := hFirst.full.resolve_left (by omega)
    have hUnits : (2 : ℚ) ^ place ≤ 2 ^ first := zpow_le_zpow_right₀ one_le_two (by omega)
    linarith
  have hUnits : (2 : ℚ) ^ first ≤ 2 ^ place / 2 := by
    rw [← two_zpow_pred]
    exact zpow_le_zpow_right₀ one_le_two hSmaller
  have hError := (abs_le.mp hNear.near).2
  rw [sub_le_iff_le_add, div_le_iff₀ hUnit, add_mul] at hError
  linarith

/-- A number that is at most a quarter of the last place below a double is not rounded to less. -/
theorem Rounded.ge_of_quarter (h : Rounded start total) (hFits : Fits m place) (hLeading : 2 ^ 52 ≤ m)
    (hQuarter : m * 2 ^ place - 2 ^ place / 4 ≤ start) : m * 2 ^ place ≤ total := by
  have hUnit : (0 : ℚ) < 2 ^ place := zpow_pos two_pos place
  have hBits : ((m : ℤ) : ℚ) < 2 ^ 53 := by exact_mod_cast hFits.1
  have hLeadingRat : (2 : ℚ) ^ 52 ≤ m := by exact_mod_cast hLeading
  rcases le_or_gt (m * 2 ^ place : ℚ) start with hReached | hBelow
  · exact_mod_cast h.ge hBits (by exact_mod_cast hReached) hFits.2.1
  · obtain ⟨second, hSecond⟩ := h
    obtain ⟨t, hNear, rfl⟩ := hSecond.near
    have hUnit' : (0 : ℚ) < 2 ^ second := zpow_pos two_pos second
    have hAll : (m : ℚ) * 2 ^ place < 2 ^ 53 * 2 ^ place := mul_lt_mul_of_pos_right (mod_cast hFits.1) hUnit
    have hLeast : (2 : ℚ) ^ 52 * 2 ^ place ≤ m * 2 ^ place := mul_le_mul_of_nonneg_right hLeadingRat hUnit.le
    have hNotLarger : second ≤ place := by
      by_contra hLarger
      have hFull := hSecond.full.resolve_left (by have := hFits.2.1; omega)
      have hStep := bits_le_leading (not_le.mp hLarger)
      linarith
    have hNotSmaller : place - 1 ≤ second := by
      by_contra hSmaller
      have hStep := bits_le_leading (not_le.mp hSmaller)
      rw [two_zpow_pred] at hStep
      linarith [hSecond.high]
    obtain rfl | rfl : second = place ∨ second = place - 1 := by omega
    · -- in units of the last place, the number is a quarter below at most
      refine mul_le_mul_of_nonneg_right ?_ hUnit.le
      have hUnits : (m : ℚ) - 1 / 4 ≤ start / 2 ^ second := by
        rw [le_div_iff₀ hUnit]
        linarith
      have hError := (abs_le.mp hNear.near).2
      have hMore : (m : ℚ) - 1 < t := by linarith
      have hMoreInt : (m : ℤ) - 1 < t := by exact_mod_cast hMore
      exact_mod_cast Int.sub_one_lt_iff.mp hMoreInt
    · -- in units of half of it, a half below at most, and the double is even
      rw [two_zpow_pred] at hNear ⊢
      have hUnits : 2 * (m : ℚ) - 1 / 2 ≤ start / (2 ^ place / 2) := by
        rw [le_div_iff₀ (by positivity)]
        linarith
      have hError := (abs_le.mp hNear.near).2
      have hNotLess : 2 * (m : ℤ) ≤ t := by
        by_contra hLess
        have hLessRat : (t : ℚ) + 1 ≤ 2 * m := by exact_mod_cast not_le.mp hLess
        have hOdd : t = 2 * m - 1 := by
          have hRat : (t : ℚ) = 2 * m - 1 := by linarith
          exact_mod_cast hRat
        have hHalf : start / (2 ^ place / 2) - t = 1 / 2 := by linarith
        obtain ⟨a, ha⟩ := hNear.even (by rw [hHalf, abs_of_pos (by norm_num)])
        omega
      have hNotLessRat : 2 * (m : ℚ) ≤ t := by exact_mod_cast hNotLess
      have hScaled := mul_le_mul_of_nonneg_right hNotLessRat (half_pos hUnit).le
      linarith

/-- A sum that is too small falls short. -/
theorem fallsShort_of_lt {k : ℤ} (hFits : Fits m place) (hGoal : goal = m * 2 ^ place)
    (hUnits : start = k * 2 ^ (-1074 : ℤ)) (hStart : 0 ≤ start) (hMissing : Rounded (goal - start) missing)
    (hTotal : Rounded (start + missing) total) (hShort : total < goal) : FallsShort goal start := by
  rcases le_or_gt (2 ^ 52 * 2 ^ place) (goal - start) with hFull | hFewer
  · exact fallsShort_of_full hFits hGoal hStart hFull hMissing hTotal hShort
  · exfalso
    have hBits : ((m : ℤ) : ℚ) < 2 ^ 53 := by exact_mod_cast hFits.1
    rcases hFits.2.1.eq_or_lt with rfl | hLow
    · -- all is in the smallest units, and nothing is rounded
      have hUnit : (0 : ℚ) < 2 ^ (-1074 : ℤ) := zpow_pos two_pos _
      have hkNonneg : (0 : ℚ) ≤ k := by
        rw [hUnits] at hStart
        exact nonneg_of_mul_nonneg_left hStart hUnit
      have hExact : goal - start = (m - k : ℤ) * 2 ^ (-1074 : ℤ) := by
        rw [hGoal, hUnits, ← sub_mul, Int.cast_sub, Int.cast_natCast]
      have hMissingSame : missing = goal - start := by
        refine hMissing.eq_of_fits le_rfl ?_ hExact
        push_cast at hBits ⊢
        linarith
      have hSum : start + missing = (m : ℤ) * 2 ^ (-1074 : ℤ) := by
        rw [hMissingSame, add_sub_cancel, hGoal, Int.cast_natCast]
      rw [hTotal.eq_of_fits le_rfl hBits hSum, hMissingSame, add_sub_cancel] at hShort
      exact lt_irrefl goal hShort
    · have hLeading : 2 ^ 52 ≤ m := hFits.2.2.resolve_left hLow.ne'
      have hQuarter := error_le_quarter hLow hFewer hMissing
      rw [hGoal] at hQuarter hShort
      exact not_le.mpr hShort (hTotal.ge_of_quarter hFits hLeading hQuarter)

-- ---------------------------------------------------------------------------
-- Doubles
-- ---------------------------------------------------------------------------

/-- What is missing between different doubles is one of the smallest units at least. -/
theorem unit_le_sub {u v : Float.Model.UnpackedFloat} (hu : IsCanonical u) (hv : IsCanonical v)
    (hLess : value v < value u) : (1 : ℤ) * 2 ^ (-1074 : ℤ) ≤ value u - value v := by
  have hUnit : (0 : ℚ) < 2 ^ (-1074 : ℤ) := zpow_pos two_pos _
  obtain ⟨a, ha⟩ := exists_units hu
  obtain ⟨b, hb⟩ := exists_units hv
  rw [ha, hb] at hLess ⊢
  have hUnits : b < a := Int.cast_lt.mp (lt_of_mul_lt_mul_right hLess hUnit.le)
  rw [← sub_mul, ← Int.cast_sub]
  exact mul_le_mul_of_nonneg_right (Int.cast_le.mpr (by omega)) hUnit.le

section

variable {x y : Float} (hx : x.isFinite = true) (hyZero : 0 ≤ y)

include hx hyZero

/-- **Between different doubles something is missing**, although the difference is rounded. -/
theorem zero_lt_sub (hy : y.isFinite = true) (hLess : y < x) : 0 < x - y := by
  have hStart := value_nonneg hy hyZero
  have hLessValue := (lt_iff_value hy hx).mp hLess
  have hxZero : 0 ≤ x := (le_iff_value rfl hx).mpr (hStart.trans hLessValue.le)
  rw [lt_iff_value rfl (finite_sub hx hy hxZero hyZero)]
  refine lt_of_lt_of_le (by positivity) ((rounded_sub hx hy hxZero hyZero hLessValue).ge (by norm_num)
    (unit_le_sub (isCanonical_parts hx) (isCanonical_parts hy) hLessValue) le_rfl)

/-- **A difference is added back.** The sum reaches the larger double, or it falls short of it. Where it falls short, what
is then missing does not. -/
theorem add_sub_cases (hy : y.isFinite = true) (hLess : y < x) :
    x ≤ y + (x - y) ∧ ¬ FallsShort (value (parts x)) (value (parts y)) ∨
      (y + (x - y)).isFinite = true ∧ y + (x - y) < x ∧ FallsShort (value (parts x)) (value (parts y)) ∧
        ¬ FallsShort (value (parts x)) (value (parts (y + (x - y)))) := by
  have hxFits := isCanonical_parts hx
  have hyFits := isCanonical_parts hy
  have hStart := value_nonneg hy hyZero
  have hLessValue := (lt_iff_value hy hx).mp hLess
  have hxZero : 0 ≤ x := (le_iff_value rfl hx).mpr (hStart.trans hLessValue.le)
  have hRest := finite_sub hx hy hxZero hyZero
  have hMissing := rounded_sub hx hy hxZero hyZero hLessValue
  have hPos : 0 < value (parts y) + value (parts (x - y)) :=
    add_pos_of_nonneg_of_pos hStart ((lt_iff_value rfl hRest).mp (zero_lt_sub hx hyZero hy hLess))
  have hTotal := rounded_add hyFits (isCanonical_parts hRest) hPos
  have hTotalNonneg := hTotal.nonneg hPos.le
  obtain ⟨m, e, hm, hxParts, hFits⟩ := exists_positive hxFits (hStart.trans_lt hLessValue)
  have hGoal : value (parts x) = m * 2 ^ e := by rw [hxParts, value_positive]
  obtain ⟨k, hUnits⟩ := exists_units hyFits
  by_cases hFalls : FallsShort (value (parts x)) (value (parts y))
  · obtain ⟨hShort, hThen⟩ := lt_of_fallsShort hFalls hMissing hTotal
    have hSame := parts_add_of_lt hy hRest hx hTotalNonneg hShort
    have hFinite : (y + (x - y)).isFinite = true := by
      rw [isFinite_iff, hSame]
      exact (upTo_of_value_lt hx (canonical_add hyFits (isCanonical_parts hRest)) hTotalNonneg hShort).isFinite
    refine Or.inr ⟨hFinite, ?_, hFalls, ?_⟩
    · rw [lt_iff_value hFinite hx, hSame]
      exact hShort
    · rw [hSame]
      exact hThen
  · refine Or.inl ⟨?_, hFalls⟩
    rw [le_add_iff_value hy hRest hx hxZero hTotalNonneg]
    by_contra hShort
    exact hFalls (fallsShort_of_lt hFits hGoal hUnits hStart hMissing hTotal (not_le.mp hShort))

/-- Where nothing is missing, nothing falls short. An infinite double reaches everything. -/
theorem not_fallsShort_of_le (h : x ≤ y) : ¬ FallsShort (value (parts x)) (value (parts y)) := by
  rintro ⟨m, i, place, -, -, -, hStart, hFull⟩
  have hUnit : (0 : ℚ) < 2 ^ place := zpow_pos two_pos place
  rcases finite_or_largest hyZero with hy | hy
  · have hReached := (le_iff_value hx hy).mp h
    linarith
  · rw [hy] at hStart
    have hPos : (0 : ℚ) < (4 * i + 1) * 2 ^ (place - 1) := by positivity
    exact hPos.ne hStart

end

end PlanReplay.Double
