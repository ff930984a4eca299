import PlanReplay.Proofs.Double.Whole

/-!
# Doubles at the ends of the numbers of 64 bits

A double is brought to a whole number of 64 bits, and a double that is too large for that to the last one. The doubles
below `2 ^ 63` end 1024 below it. So a number next to one that a double was brought to is a number of 64 bits again,
unless the double was at the end or beyond it, and the double of that number is not at the end either.

* `Double.nearest_cases` — a double at either end or beyond it, or between the ends.
* `Double.ofNat_below_end` — the double of a number that is not too close to the end is below it.
* `Double.zero_le_value_ofNat` — the double of a count is not below zero, with any number of digits.
-/

namespace PlanReplay.Double

open Float.Model (Format)
open Float.Model.UnpackedFloat

-- ---------------------------------------------------------------------------
-- The gap below the end
-- ---------------------------------------------------------------------------

theorem value_end : value (parts 9223372036854775808) = 2 ^ 63 := by
  have hParts : parts 9223372036854775808 = .finite .positive (2 ^ 52) 11 (by decide) := rfl
  rw [hParts, value_positive]
  norm_num

theorem value_negative_end : value (parts (-9223372036854775808)) = -2 ^ 63 := by
  have hParts : parts (-9223372036854775808) = .finite .negative (2 ^ 52) 11 (by decide) := rfl
  rw [hParts, value_negative]
  norm_num

/-- A magnitude below a power of two ends one unit of 53 bits below it: its mantissa has no more bits. -/
theorem Fits.le_of_lt_power {m : Nat} {e : Int} (h : Fits m e) (k : Nat) (hBelow : (m : ℚ) * 2 ^ e < 2 ^ (53 + k)) :
    (m : ℚ) * 2 ^ e ≤ 2 ^ (53 + k) - 2 ^ k := by
  obtain ⟨hBits, -, hLeading⟩ := h
  have hMantissa : (m : ℚ) ≤ 2 ^ 53 - 1 := by
    have hCast : ((m + 1 : Nat) : ℚ) ≤ (2 ^ 53 : Nat) := Nat.cast_le.mpr hBits
    push_cast at hCast
    linarith
  rcases lt_or_ge (k : ℤ) e with hHigh | hLow
  · -- with a leading bit the magnitude is at the power of two
    have hHalf : (2 : ℚ) ^ 52 ≤ m := by
      have hCast : ((2 ^ 52 : Nat) : ℚ) ≤ m := Nat.cast_le.mpr (hLeading.resolve_left (by omega))
      exact_mod_cast hCast
    have hPower : (2 : ℚ) ^ (k + 1) ≤ 2 ^ e := by
      rw [← zpow_natCast]
      exact zpow_le_zpow_right₀ one_le_two (by omega)
    have hEnd : (2 : ℚ) ^ (53 + k) ≤ m * 2 ^ e := by
      calc (2 : ℚ) ^ (53 + k) = 2 ^ 52 * 2 ^ (k + 1) := by ring
        _ ≤ (m : ℚ) * 2 ^ e := mul_le_mul hHalf hPower (by positivity) (by positivity)
    exact absurd hBelow (not_lt.mpr hEnd)
  · have hPower : (2 : ℚ) ^ e ≤ 2 ^ k := by
      rw [← zpow_natCast]
      exact zpow_le_zpow_right₀ one_le_two hLow
    calc (m : ℚ) * 2 ^ e ≤ (2 ^ 53 - 1) * 2 ^ k := mul_le_mul hMantissa hPower (by positivity) (by norm_num)
      _ = 2 ^ (53 + k) - 2 ^ k := by ring

-- ---------------------------------------------------------------------------
-- Brought to a number of 64 bits
-- ---------------------------------------------------------------------------

/-- A finite double is brought to its magnitude rounded, with its sign, unless that is out of range. -/
theorem nearest_eq_clampInt {x : Float} (h : x.isFinite = true) :
    ∃ (s : Sign) (m : Nat) (e : Int), Fits m e ∧ value (parts x) = (s.apply m : ℤ) * 2 ^ e ∧
      Scalar.nearest x = Decimal.clampInt minInt64 maxInt64 (s.apply ⌊(m : ℚ) * 2 ^ e + 1 / 2⌋₊) := by
  obtain ⟨s, m, e, edge, hDecoded, -, hFits, -, hValue⟩ := exists_ofFloat h
  refine ⟨s, m, e, hFits, hValue, ?_⟩
  change (Decimal.ofFloat x).toInt64 Decimal.nearestWhole = _
  rw [hDecoded, ← nearestWhole_eq]
  cases s <;> rfl

/-- **The ends.** A finite double at an end or beyond it is brought to the last number there; one between the ends is
brought to a number that is 1024 from both, or more. -/
theorem nearest_cases {x : Float} (h : x.isFinite = true) :
    (2 ^ 63 ≤ value (parts x) ∧ Scalar.nearest x = maxInt64) ∨
      (value (parts x) ≤ -2 ^ 63 ∧ Scalar.nearest x = minInt64) ∨
      ((-2 ^ 63 < value (parts x) ∧ value (parts x) < 2 ^ 63) ∧
        -(2 ^ 63 - 1024) ≤ Scalar.nearest x ∧ Scalar.nearest x ≤ 2 ^ 63 - 1024) := by
  obtain ⟨s, m, e, hFits, hValue, hNearest⟩ := nearest_eq_clampInt h
  rw [hValue, hNearest]
  have hNonneg : (0 : ℚ) ≤ m * 2 ^ e := by positivity
  rcases lt_or_ge ((m : ℚ) * 2 ^ e) (2 ^ 63) with hBelow | hEnd
  · have hGap := hFits.le_of_lt_power 10 hBelow
    have hRounded : ⌊(m : ℚ) * 2 ^ e + 1 / 2⌋₊ ≤ 2 ^ 63 - 1024 := by
      refine Nat.lt_succ_iff.mp ((Nat.floor_lt (by positivity)).mpr ?_)
      norm_num at hGap ⊢
      linarith
    generalize ⌊(m : ℚ) * 2 ^ e + 1 / 2⌋₊ = rounded at hRounded
    refine Or.inr (Or.inr ?_)
    unfold Decimal.clampInt minInt64 maxInt64
    cases s with
    | positive =>
      simp only [Sign.apply, Int.cast_natCast]
      exact ⟨⟨by linarith, hBelow⟩, by omega, by omega⟩
    | negative =>
      simp only [Sign.apply, Int.cast_neg, Int.cast_natCast, neg_mul]
      exact ⟨⟨by linarith, by linarith⟩, by omega, by omega⟩
  · have hRounded : 2 ^ 63 ≤ ⌊(m : ℚ) * 2 ^ e + 1 / 2⌋₊ := by
      refine Nat.le_floor ?_
      push_cast
      linarith
    generalize ⌊(m : ℚ) * 2 ^ e + 1 / 2⌋₊ = rounded at hRounded
    unfold Decimal.clampInt minInt64 maxInt64
    cases s with
    | positive =>
      simp only [Sign.apply, Int.cast_natCast]
      exact Or.inl ⟨hEnd, by omega⟩
    | negative =>
      simp only [Sign.apply, Int.cast_neg, Int.cast_natCast, neg_mul]
      exact Or.inr (Or.inl ⟨by linarith, by omega⟩)

-- ---------------------------------------------------------------------------
-- The double of a number of 64 bits
-- ---------------------------------------------------------------------------

/-- A count that is too long to be its own double is rounded. -/
theorem parts_ofNat_of_long {n : Nat} (hLong : 2 ^ 53 ≤ n) (hCount : n ≤ maxUInt64) :
    parts (Float.ofNat n) = roundWithAccuracy .binary64 .positive (n * 2 ^ 53) (-53) .exact := by
  have hPos : 0 < n := by omega
  have hCanonical : IsCanonical (roundWithAccuracy .binary64 .positive (n * 2 ^ 53) (-53) .exact) := by
    refine canonical_roundWithAccuracy .positive .exact ?_
    have hLog := log2_mul_two_pow hPos 53
    omega
  change parts (Float.ofScientific n false 0) = _
  unfold Float.ofScientific
  rw [dif_neg (by omega)]
  change repack (ofScientific .binary64 n 0) = _
  rw [ofScientific_count hPos, repack_canonical hCanonical ((upTo_count hCount).mono (by decide))]

/-- The double of a count stands for a number that is not below zero. -/
theorem zero_le_value_ofNat {n : Nat} (hCount : n ≤ maxUInt64) : 0 ≤ value (parts (Float.ofNat n)) := by
  rcases Nat.lt_or_ge n (2 ^ 53) with hShort | hLong
  · exact value_nonneg (finite_ofNat hCount) (zero_le_ofNat hShort)
  · have hSign := hasSign_round .positive (n * 2 ^ 53) (-53) .exact
    rw [← parts_ofNat_of_long hLong hCount] at hSign
    have hFinite := finite_ofNat hCount
    refine value_nonneg hFinite (zero_le_of_upright ?_ (upright_iff.mpr hSign))
    rintro hNone
    rw [isFinite_iff, hNone] at hFinite
    cases hFinite

/-- The double of a number next to one that is 1024 below the end is below the end. -/
theorem ofNat_below_end {n : Nat} (h : n ≤ 2 ^ 63 - 1023) : value (parts (Float.ofNat n)) < 2 ^ 63 := by
  rcases Nat.lt_or_ge n (2 ^ 53) with hShort | hLong
  · have hNearest := nearest_ofNat hShort
    rcases nearest_cases (finite_ofNat (hShort.le.trans (by decide))) with ⟨-, hEnd⟩ | ⟨hEnd, -⟩ | ⟨⟨-, hBelow⟩, -⟩
    · rw [hNearest, maxInt64] at hEnd
      omega
    · linarith
    · exact hBelow
  · rcases Nat.lt_or_ge (2 ^ 63 - 1024) n with hLast | hBelow
    · -- the first number after the last double rounds back to it
      obtain rfl : n = 2 ^ 63 - 1023 := by omega
      have hParts : parts (Float.ofNat (2 ^ 63 - 1023)) = .finite .positive (2 ^ 53 - 1) 10 (by decide) := rfl
      rw [hParts, value_positive]
      norm_num
    · have hGap : ((2 ^ 53 - 1 : Nat) : ℚ) * 2 ^ ((-53 : ℤ) + (63 : Nat)) < 2 ^ 63 := by norm_num
      have hBound : n * 2 ^ 53 ≤ (2 ^ 53 - 1) * 2 ^ 63 := by omega
      rw [parts_ofNat_of_long hLong (hBelow.trans (by decide))]
      exact (value_roundWithAccuracy_le (by decide) hBound (by decide)).trans_lt hGap

end PlanReplay.Double
