import PlanReplay.Proofs.Decimal.HalfEven
import PlanReplay.Proofs.Double.Value

/-!
# The nearest double

Division of doubles is rounded: of the quotient as many places are kept as a double has, and two bits say how the rest
compares with a half. These bits are exact, and so the result is a double that is nearest to the quotient.

* `Double.Keeps` — what a mantissa with its two bits says about a number.
* `Double.Keeps.rounded` — the mantissa is rounded to the nearest one, from halfway to the even one.
* `Double.value_roundWithAccuracy` — the value of a rounded number.
* `Double.nearest_roundWithAccuracy`, `Double.nearest_div` — no double is nearer than the rounded one.
-/

namespace PlanReplay.Double

open Decimal (IsHalfEven isHalfEven_of_lt)
open Float.Model (Format totalExponent)
open Float.Model.UnpackedFloat

-- ---------------------------------------------------------------------------
-- Places that are dropped
-- ---------------------------------------------------------------------------

/-- The mantissa is the whole part of `q`, and the bits tell how the rest compares with zero and with a half. -/
def Keeps : ExtendedMantissa → ℚ → Prop
  | ⟨m, false, false⟩, q => q = m
  | ⟨m, false, true⟩, q => m < q ∧ q < m + 1 / 2
  | ⟨m, true, false⟩, q => q = m + 1 / 2
  | ⟨m, true, true⟩, q => m + 1 / 2 < q ∧ q < m + 1

variable {em : ExtendedMantissa} {q : ℚ}

theorem Keeps.le (h : Keeps em q) : em.mantissa ≤ q := by
  obtain ⟨m, roundBit, stickyBit⟩ := em
  cases roundBit <;> cases stickyBit <;> simp only [Keeps] at h ⊢ <;> linarith

/-- Dropping a place halves the number. -/
theorem Keeps.shiftRightOne (h : Keeps em q) : Keeps em.shiftRightOne (q / 2) := by
  obtain ⟨m, roundBit, stickyBit⟩ := em
  obtain ⟨k, rfl | rfl⟩ : ∃ k, m = 2 * k ∨ m = 2 * k + 1 := ⟨m / 2, by omega⟩
  · have hHalf : 2 * k / 2 = k := by omega
    have hBit : (2 * k % 2 != 0) = false := by simp
    unfold ExtendedMantissa.shiftRightOne
    rw [hHalf, hBit]
    cases roundBit <;> cases stickyBit <;> simp only [Keeps, Bool.or_true, Bool.or_false] at h ⊢ <;> push_cast at h
    · linarith
    · constructor <;> linarith
    · constructor <;> linarith
    · constructor <;> linarith
  · have hHalf : (2 * k + 1) / 2 = k := by omega
    have hBit : ((2 * k + 1) % 2 != 0) = true := by simp
    unfold ExtendedMantissa.shiftRightOne
    rw [hHalf, hBit]
    cases roundBit <;> cases stickyBit <;> simp only [Keeps, Bool.or_true, Bool.or_false] at h ⊢ <;> push_cast at h
    · linarith
    · constructor <;> linarith
    · constructor <;> linarith
    · constructor <;> linarith

theorem Keeps.shiftRight (h : Keeps em q) (n : Nat) : Keeps (em >>> n) (q / 2 ^ n) := by
  induction n with
  | zero =>
    rw [pow_zero, div_one]
    exact h
  | succ n ih =>
    rw [pow_succ, ← div_div]
    exact ih.shiftRightOne

/-- The places of a fraction. -/
theorem keeps_fraction (n : Nat) {d : Nat} (hPos : 0 < d) :
    Keeps (.ofMantissaAndAccuracy (n / d) (accuracyOfFraction (n % d) d)) ((n : ℚ) / d) := by
  have hDen : (0 : ℚ) < d := Nat.cast_pos.mpr hPos
  have hSplit : (n : ℚ) / d = (n / d : Nat) + (n % d : Nat) / d := by
    rw [eq_comm, eq_div_iff hDen.ne', add_mul, div_mul_cancel₀ _ hDen.ne', mul_comm]
    exact_mod_cast Nat.div_add_mod n d
  have hSmall : ((n % d : Nat) : ℚ) / d < 1 := (div_lt_one hDen).mpr (Nat.cast_lt.mpr (Nat.mod_lt n hPos))
  rw [hSplit]
  generalize n % d = rest at hSmall ⊢
  unfold accuracyOfFraction
  split
  · rename_i hNone
    rw [hNone, Nat.cast_zero, zero_div, add_zero]
    rfl
  · rename_i hSome
    have hRest : (0 : ℚ) < (rest : ℚ) / d := div_pos (Nat.cast_pos.mpr (Nat.pos_of_ne_zero hSome)) hDen
    rcases lt_trichotomy (2 * rest) d with hLess | hSame | hMore
    · have hHalf : (rest : ℚ) / d < 1 / 2 := by
        rw [div_lt_iff₀ hDen]
        have : 2 * (rest : ℚ) < d := by exact_mod_cast hLess
        linarith
      rw [Nat.compare_eq_lt.mpr hLess]
      exact ⟨by linarith, by linarith⟩
    · have hHalf : (rest : ℚ) / d = 1 / 2 := by
        rw [div_eq_iff hDen.ne']
        have : 2 * (rest : ℚ) = d := by exact_mod_cast hSame
        linarith
      rw [Nat.compare_eq_eq.mpr hSame, hHalf]
      rfl
    · have hHalf : 1 / 2 < (rest : ℚ) / d := by
        rw [lt_div_iff₀ hDen]
        have : (d : ℚ) < 2 * rest := by exact_mod_cast hMore
        linarith
      rw [Nat.compare_eq_gt.mpr hMore]
      exact ⟨by linarith, by linarith⟩

/-- **A mantissa is rounded to the nearest one**, from halfway to the even one. -/
theorem Keeps.rounded (h : Keeps em q) : IsHalfEven q em.roundedMantissa := by
  obtain ⟨m, roundBit, stickyBit⟩ := em
  cases roundBit <;> cases stickyBit
  · -- nothing is dropped
    obtain rfl : q = m := h
    refine isHalfEven_of_lt ?_
    change |(m : ℚ) - ((m : Nat) : ℤ)| < 1 / 2
    rw [Int.cast_natCast, sub_self, abs_zero]
    norm_num
  · obtain ⟨hLow, hHigh⟩ := h
    refine isHalfEven_of_lt ?_
    change |q - ((m : Nat) : ℤ)| < 1 / 2
    rw [Int.cast_natCast, abs_lt]
    constructor <;> linarith
  · -- halfway, so that the parity of the mantissa counts
    obtain rfl : q = m + 1 / 2 := h
    have hEven : Even ((m + m % 2 : Nat) : ℤ) := by
      rw [Int.even_iff]
      omega
    refine ⟨?_, fun _ => hEven⟩
    change |(m : ℚ) + 1 / 2 - ((m + m % 2 : Nat) : ℤ)| ≤ 1 / 2
    rcases Nat.mod_two_eq_zero_or_one m with hZero | hOne
    · rw [hZero, abs_le]
      push_cast
      constructor <;> linarith
    · rw [hOne, abs_le]
      push_cast
      constructor <;> linarith
  · obtain ⟨hLow, hHigh⟩ := h
    refine isHalfEven_of_lt ?_
    change |q - ((m + 1 : Nat) : ℤ)| < 1 / 2
    rw [abs_lt]
    push_cast
    constructor <;> linarith

-- ---------------------------------------------------------------------------
-- Rounding
-- ---------------------------------------------------------------------------

/-- A mantissa of 53 bits, or one more, fits at its exponent or is brought to the next one without loss. -/
theorem value_shift_rounded {m : Nat} {e : Int} (hm : m ≤ 2 ^ 53) (hLow : -1074 ≤ e)
    (hLeading : e = -1074 ∨ 2 ^ 52 ≤ m) :
    ((shiftToTargetExponent .binary64 m e .exact).1.mantissa : ℚ) *
      2 ^ (shiftToTargetExponent .binary64 m e .exact).2 = m * 2 ^ e := by
  rcases m.eq_zero_or_pos with rfl | hPos
  · unfold shiftToTargetExponent shiftToExponent
    dsimp only
    rw [mantissa_shiftRight, mantissa_ofMantissaAndAccuracy, Nat.zero_div, Nat.cast_zero, zero_mul, zero_mul]
  · rcases hm.lt_or_eq with hBits | hNext
    · have hExact := shiftToTargetExponent_exact hPos ⟨hBits, hLow, hLeading⟩ 0
      rw [Nat.pow_zero, Nat.mul_one, Int.natCast_zero, Int.sub_zero] at hExact
      rw [hExact]
    · have hPlace : e + 1 - ((1 : Nat) : Int) = e := by omega
      have hExact := shiftToTargetExponent_exact (e := e + 1) (Nat.two_pow_pos 52)
        ⟨Nat.pow_lt_pow_succ one_lt_two, by omega, Or.inr le_rfl⟩ 1
      rw [hPlace, ← Nat.pow_add] at hExact
      rw [hNext, hExact, zpow_add_one₀ two_ne_zero]
      push_cast
      ring

/-- The value of a number that is rounded: its mantissa, rounded, at the exponent to which it is brought. -/
theorem value_roundWithAccuracy {m : Nat} {e : Int} (accuracy : Accuracy)
    (hPlaces : e ≤ max (m.log2 + 1 + e - 53) (-1074 : Int)) :
    value (roundWithAccuracy .binary64 .positive m e accuracy) =
      (shiftToTargetExponent .binary64 m e accuracy).1.roundedMantissa *
        2 ^ (shiftToTargetExponent .binary64 m e accuracy).2 := by
  obtain ⟨hBits, hLow, hLeading⟩ := fits_shiftToTargetExponent hPlaces accuracy
  unfold roundWithAccuracy
  dsimp only
  generalize shiftToTargetExponent .binary64 m e accuracy = first at hBits hLow hLeading ⊢
  have hAgain := value_shift_rounded ((roundedMantissa_le first.1).trans hBits) hLow
    (hLeading.imp_right fun hFull => hFull.trans (le_roundedMantissa first.1))
  rw [← hAgain]
  split
  · rename_i hNone
    rw [hNone, value_zero, Nat.cast_zero, zero_mul]
  · rw [value_positive]

/-- Bringing a number to its exponent keeps what is known about the places that are dropped. -/
theorem Keeps.shiftToTargetExponent {m : Nat} {accuracy : Accuracy}
    (h : Keeps (.ofMantissaAndAccuracy m accuracy) q) (e : Int) :
    ∃ q', Keeps (shiftToTargetExponent .binary64 m e accuracy).1 q' ∧
      q' * 2 ^ (shiftToTargetExponent .binary64 m e accuracy).2 = q * 2 ^ e := by
  unfold Float.Model.UnpackedFloat.shiftToTargetExponent shiftToExponent
  dsimp only
  generalize (Format.targetExponent .binary64 (totalExponent m e) - e).toNat = n
  refine ⟨q / 2 ^ n, h.shiftRight n, ?_⟩
  rw [zpow_add₀ two_ne_zero, zpow_natCast, mul_comm (2 ^ e : ℚ), ← mul_assoc, div_mul_cancel₀ _ (by positivity)]

/-- A double at a larger exponent is a whole number of units of the smaller one. -/
theorem units_of_le {m : Nat} {e e' : Int} (h : e' ≤ e) : ∃ k : ℤ, (m : ℚ) * 2 ^ e = k * 2 ^ e' := by
  obtain ⟨n, hn⟩ := Int.le.dest h
  refine ⟨m * 2 ^ n, ?_⟩
  rw [← hn, zpow_add₀ two_ne_zero, zpow_natCast]
  push_cast
  ring

/-- **No double is nearer** to a number than the one to which it is rounded. -/
theorem nearest_roundWithAccuracy {m : Nat} {e : Int} {accuracy : Accuracy}
    (hKeeps : Keeps (.ofMantissaAndAccuracy m accuracy) q)
    (hPlaces : e ≤ max (m.log2 + 1 + e - 53) (-1074 : Int)) {m' : Nat} {e' : Int} (hFits : Fits m' e') :
    |value (roundWithAccuracy .binary64 .positive m e accuracy) - q * 2 ^ e| ≤ |m' * 2 ^ e' - q * 2 ^ e| := by
  obtain ⟨hBits, hLow, hLeading⟩ := fits_shiftToTargetExponent hPlaces accuracy
  obtain ⟨q', hKept, hValue⟩ := hKeeps.shiftToTargetExponent e
  rw [value_roundWithAccuracy accuracy hPlaces, ← hValue]
  generalize shiftToTargetExponent .binary64 m e accuracy = first at hBits hLow hLeading hKept ⊢
  have hUnit : (0 : ℚ) < 2 ^ first.2 := zpow_pos two_pos _
  have hNearest : ∀ k : ℤ, |(first.1.roundedMantissa : ℚ) * 2 ^ first.2 - q' * 2 ^ first.2| ≤
      |k * 2 ^ first.2 - q' * 2 ^ first.2| := by
    intro k
    rw [← sub_mul, ← sub_mul, abs_mul, abs_mul]
    exact mul_le_mul_of_nonneg_right (hKept.rounded.nearest k) (abs_nonneg _)
  rcases le_or_gt first.2 e' with hAbove | hBelow
  · obtain ⟨k, hk⟩ := units_of_le (m := m') hAbove
    rw [hk]
    exact hNearest k
  · -- a double at a smaller exponent is not above the least mantissa of 53 bits, which is no farther away
    have hFull : 2 ^ 52 ≤ first.1.mantissa := hLeading.resolve_left (by have := hFits.2.1; omega)
    have hFullRat : ((2 ^ 52 : ℤ) : ℚ) ≤ q' := le_trans (by exact_mod_cast hFull) hKept.le
    have hLeast : Fits (2 ^ 52) first.2 := ⟨Nat.pow_lt_pow_succ one_lt_two, hLow, Or.inr le_rfl⟩
    have hLess : (m' : ℚ) * 2 ^ e' ≤ ((2 ^ 52 : ℤ) : ℚ) * 2 ^ first.2 := by
      exact_mod_cast (magnitude_lt hFits hLeast (Or.inl hBelow)).le
    refine (hNearest (2 ^ 52)).trans ?_
    have hBetween : ((2 ^ 52 : ℤ) : ℚ) * 2 ^ first.2 ≤ q' * 2 ^ first.2 := mul_le_mul_of_nonneg_right hFullRat hUnit.le
    rw [abs_sub_comm, abs_sub_comm ((m' : ℚ) * 2 ^ e'), abs_of_nonneg (by linarith), abs_of_nonneg (by linarith)]
    linarith

-- ---------------------------------------------------------------------------
-- Quotients
-- ---------------------------------------------------------------------------

/-- A quotient has enough places to be rounded: 53 of them, or the smallest exponent. -/
theorem places_divCore {m₁ m₂ : Nat} {e₁ e₂ : Int} (hm₁ : 0 < m₁) (hm₂ : 0 < m₂) {t : Int} {n : Nat}
    (hTarget : t = min (e₁ - e₂) (Format.targetExponent .binary64 (totalExponent m₁ e₁ - totalExponent m₂ e₂)))
    (hPlaces : n = (e₁ - e₂ - t).toNat) : t ≤ max ((m₁ <<< n / m₂).log2 + 1 + t - 53) (-1074 : Int) := by
  change t = min (e₁ - e₂) (max (m₁.log2 + 1 + e₁ - (m₂.log2 + 1 + e₂) - 53) (-1074 : Int)) at hTarget
  rcases le_or_gt t (-1074) with hSmallest | hAbove
  · exact hSmallest.trans (le_max_right _ _)
  · refine le_trans ?_ (le_max_left _ _)
    have hEnough : 52 + (m₂.log2 + 1) ≤ m₁.log2 + n := by omega
    have hFull : 2 ^ 52 ≤ m₁ <<< n / m₂ := by
      rw [Nat.le_div_iff_mul_le hm₂, Nat.shiftLeft_eq]
      calc 2 ^ 52 * m₂ ≤ 2 ^ 52 * 2 ^ (m₂.log2 + 1) := Nat.mul_le_mul_left _ Nat.lt_log2_self.le
        _ = 2 ^ (52 + (m₂.log2 + 1)) := (Nat.pow_add 2 52 _).symm
        _ ≤ 2 ^ (m₁.log2 + n) := Nat.pow_le_pow_right two_pos hEnough
        _ = 2 ^ m₁.log2 * 2 ^ n := Nat.pow_add 2 _ n
        _ ≤ m₁ * 2 ^ n := Nat.mul_le_mul_right _ (Nat.log2_self_le hm₁.ne')
    have hLog : 52 ≤ (m₁ <<< n / m₂).log2 := (Nat.le_log2 (by omega)).mpr hFull
    omega

variable {m₁ m₂ : Nat} (e₁ e₂ : Int) (hm₁ : 0 < m₁) (hm₂ : 0 < m₂)

/-- A quotient is canonical. -/
theorem canonical_div :
    IsCanonical (div .binary64 (.finite .positive m₁ e₁ hm₁) (.finite .positive m₂ e₂ hm₂)) :=
  canonical_roundWithAccuracy _ _ (places_divCore hm₁ hm₂ rfl rfl)

/-- A quotient is a number with enough places that is rounded. -/
theorem exists_div_eq_round :
    ∃ (m : Nat) (e : Int) (accuracy : Accuracy) (q : ℚ), Keeps (.ofMantissaAndAccuracy m accuracy) q ∧
      e ≤ max (m.log2 + 1 + e - 53) (-1074 : Int) ∧ (m₁ : ℚ) * 2 ^ e₁ / (m₂ * 2 ^ e₂) = q * 2 ^ e ∧
      div .binary64 (.finite .positive m₁ e₁ hm₁) (.finite .positive m₂ e₂ hm₂) =
        roundWithAccuracy .binary64 .positive m e accuracy := by
  obtain ⟨t, ht⟩ : ∃ t, t = min (e₁ - e₂)
      (Format.targetExponent .binary64 (totalExponent m₁ e₁ - totalExponent m₂ e₂)) := ⟨_, rfl⟩
  obtain ⟨n, hn⟩ : ∃ n, n = (e₁ - e₂ - t).toNat := ⟨_, rfl⟩
  have hQuotient : (m₁ : ℚ) * 2 ^ e₁ / (m₂ * 2 ^ e₂) = (m₁ <<< n : Nat) / m₂ * 2 ^ t := by
    have hPlaces : e₁ = e₂ + (t + n) := by omega
    have hDen : (m₂ : ℚ) ≠ 0 := Nat.cast_ne_zero.mpr hm₂.ne'
    rw [hPlaces, zpow_add₀ two_ne_zero, zpow_add₀ two_ne_zero, zpow_natCast, Nat.shiftLeft_eq]
    push_cast
    field_simp
  refine ⟨_, t, _, _, keeps_fraction _ hm₂, places_divCore hm₁ hm₂ ht hn, hQuotient, ?_⟩
  dsimp only [div, divCore]
  rw [← ht, ← hn, show Sign.positive / Sign.positive = Sign.positive from rfl]

/-- **No double is nearer to a quotient** than its result. -/
theorem nearest_div {m : Nat} {e : Int} (hFits : Fits m e) :
    |value (div .binary64 (.finite .positive m₁ e₁ hm₁) (.finite .positive m₂ e₂ hm₂)) -
        (m₁ : ℚ) * 2 ^ e₁ / (m₂ * 2 ^ e₂)| ≤ |(m : ℚ) * 2 ^ e - (m₁ : ℚ) * 2 ^ e₁ / (m₂ * 2 ^ e₂)| := by
  obtain ⟨m', e', accuracy, q, hKeeps, hPlaces, hQuotient, hRound⟩ := exists_div_eq_round e₁ e₂ hm₁ hm₂
  rw [hRound, hQuotient]
  exact nearest_roundWithAccuracy hKeeps hPlaces hFits

end PlanReplay.Double
