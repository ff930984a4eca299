import PlanReplay.Proofs.Decimal.HalfEven
import PlanReplay.Proofs.Double.Ends
import PlanReplay.Proofs.Double.Rounding
import PlanReplay.Session.Execute

/-!
# Intervals that can be counted

The host counts time in nanoseconds, with a number of 64 bits for the whole seconds. Seconds given as a double are rounded
to the nearest nanosecond, from halfway to the even one; what is below zero, infinite or no number cannot be counted, and
neither can what is too long. A double that is not below zero can be counted exactly if it is below `2 ^ 64`: the doubles
there end 2048 seconds before it, so that none is rounded up to the end.

* `nanosOfSeconds?` — the nanoseconds of a double, where they can be counted.
* `nanosOfSeconds?_eq` — the rounded number, if it is before the end.
* `isSome_nanosOfSeconds?` — which intervals can be counted.
* `isSome_tickLength` — the length of a tick can be counted at every rate.
-/

namespace PlanReplay

open Decimal (IsHalfEven isHalfEven_roundHalfEven roundHalfEven)
open Double

/-- The number of nanoseconds from which on there are no seconds of 64 bits. -/
def uncountableNanos : Nat := twoTo 64 * nanosPerSecond

/-- A number of seconds as nanoseconds, where these can be counted. -/
def nanosOfSeconds? (seconds : Float) : Option Nat :=
  match Decimal.ofFloat seconds with
  | .finite negative mantissa exponent _ =>
    let nanos := roundHalfEven (mantissa * twoTo exponent.toNat * nanosPerSecond) (twoTo (-exponent).toNat)
    if (negative && mantissa != 0) || decide (uncountableNanos ≤ nanos) then none else some nanos
  | .nan | .infinite _ => none

example : nanosOfSeconds? 0.25 = some 250000000 ∧ nanosOfSeconds? (-1) = none ∧ nanosOfSeconds? (-0.0) = some 0 := by
  decide +kernel

/-- The end of what can be counted, in seconds. -/
theorem value_uncountableSeconds : value (parts uncountableSeconds) = 2 ^ 64 := by
  have hParts : parts uncountableSeconds = .finite .positive (2 ^ 52) 12 (by decide) := rfl
  rw [hParts, value_positive]
  norm_num

variable {x : Float}

/-- The nanoseconds of a double that is not below zero are its own, rounded, if they are before the end. -/
theorem nanosOfSeconds?_eq (h : x.isFinite = true) (hNonneg : 0 ≤ x) :
    ∃ nanos : Nat, IsHalfEven (nanosPerSecond * value (parts x)) nanos ∧
      nanosOfSeconds? x = if uncountableNanos ≤ nanos then none else some nanos := by
  obtain ⟨negative, m, e, edge, hDecoded, hValue, hZero⟩ := exists_magnitude h hNonneg
  have hSigned : (negative && m != 0) = false := by
    cases negative with
    | false => rfl
    | true => rw [hZero rfl]; rfl
  refine ⟨roundHalfEven (m * twoTo e.toNat * nanosPerSecond) (twoTo (-e).toNat), ?_, ?_⟩
  · rw [hValue, ← units_quotient]
    exact isHalfEven_roundHalfEven _ (Nat.two_pow_pos _)
  · unfold nanosOfSeconds?
    rw [hDecoded]
    dsimp only
    rw [hSigned, Bool.false_or]
    simp only [decide_eq_true_eq]

/-- Below `2 ^ 64` doubles end 2048 before it. -/
theorem value_le_of_countable (h : x.isFinite = true) (hBelow : value (parts x) < 2 ^ 64) :
    value (parts x) ≤ 2 ^ 64 - 2048 := by
  obtain ⟨s, m, e, -, -, hSign, hFits, -, hValue⟩ := exists_ofFloat h
  cases s with
  | positive =>
    have hMagnitude : value (parts x) = m * 2 ^ e := by simpa [Float.Model.UnpackedFloat.Sign.apply] using hValue
    rw [hMagnitude] at hBelow ⊢
    have hGap := hFits.le_of_lt_power 11 hBelow
    norm_num at hGap ⊢
    exact hGap
  | negative =>
    have hZero : value (parts x) ≤ 0 := value_nonpos hSign
    linarith

/-- **Which intervals can be counted.** An interval that is finite and not below zero can be counted iff it is below
`2 ^ 64` seconds. -/
theorem isSome_nanosOfSeconds? (h : x.isFinite = true) (hNonneg : 0 ≤ x) :
    (nanosOfSeconds? x).isSome = true ↔ x < uncountableSeconds := by
  obtain ⟨nanos, hRound, hNanos⟩ := nanosOfSeconds?_eq h hNonneg
  have hEnd : (uncountableNanos : ℚ) = nanosPerSecond * 2 ^ 64 := by norm_num [uncountableNanos, nanosPerSecond, twoTo]
  have hUnit : (0 : ℚ) < nanosPerSecond := by norm_num [nanosPerSecond]
  rw [lt_iff_value h (by decide), value_uncountableSeconds, hNanos]
  constructor
  · intro hSome
    by_contra hLong
    have hReached : (uncountableNanos : ℚ) ≤ nanosPerSecond * value (parts x) := by
      rw [hEnd]
      exact mul_le_mul_of_nonneg_left (not_lt.mp hLong) hUnit.le
    have hPast : ((uncountableNanos : Nat) : ℤ) ≤ nanos := (isHalfEven_int uncountableNanos).mono hRound hReached
    rw [if_pos (by exact_mod_cast hPast)] at hSome
    cases hSome
  · intro hBelow
    -- what is rounded is at least 2048 seconds before the end
    have hGap : nanosPerSecond * value (parts x) ≤ ((uncountableNanos - 2048 * nanosPerSecond : ℤ) : ℚ) := by
      push_cast
      rw [hEnd, mul_comm 2048, ← mul_sub]
      exact mul_le_mul_of_nonneg_left (value_le_of_countable h hBelow) hUnit.le
    have hBefore := hRound.mono (isHalfEven_int _) hGap
    rw [if_neg]
    · rfl
    · unfold uncountableNanos nanosPerSecond twoTo at hBefore ⊢
      omega

theorem nanosOfSeconds?_eq_none_iff (h : x.isFinite = true) (hNonneg : 0 ≤ x) :
    nanosOfSeconds? x = none ↔ uncountableSeconds ≤ x := by
  rw [← Option.not_isSome_iff_eq_none, isSome_nanosOfSeconds? h hNonneg, not_lt_iff_le (by decide) h]

/-- An interval of a second or less can be counted. -/
theorem isSome_nanosOfSeconds?_of_le_one (hNonneg : 0 ≤ x) (hLe : x ≤ 1) : (nanosOfSeconds? x).isSome = true := by
  have hFinite : x.isFinite = true := by
    rcases finite_or_largest hNonneg with hFinite | hLargest
    · exact hFinite
    · rw [le_iff, hLargest] at hLe
      cases hLe
  rw [isSome_nanosOfSeconds? hFinite hNonneg, lt_iff_value hFinite (by decide), value_uncountableSeconds]
  have hOne : value (parts x) ≤ value (parts 1) := (le_iff_value hFinite (by decide)).mp hLe
  rw [parts_one, value_positive] at hOne
  norm_num at hOne
  linarith

/-- The length of a tick can be counted at every rate; a rate of zero counts as one. -/
theorem isSome_tickLength {rate : Nat} (hRate : rate < 2 ^ 32) :
    (nanosOfSeconds? (1 / Float.ofNat (max rate 1))).isSome = true := by
  rcases Nat.lt_or_ge 1 rate with hMany | hOne
  · have hBits : rate < 2 ^ 53 := hRate.trans (by decide)
    have hPos : 0 < rate := Nat.zero_lt_of_lt hMany
    have hFinite : (Float.ofNat rate).isFinite = true := finite_ofNat (hBits.le.trans (by decide))
    have hValue : value (parts (Float.ofNat rate)) = rate := value_ofNat hPos hBits
    have hAbove : 0 < Float.ofNat rate := by
      rw [lt_iff_value (by decide) hFinite, hValue, parts_zero, value_zero]
      exact_mod_cast hPos
    have hLarger : ¬ Float.ofNat rate ≤ 1 := by
      rw [le_iff_value hFinite (by decide), hValue, parts_one, value_positive, not_le]
      norm_num
      exact hMany
    rw [max_eq_left hPos]
    obtain ⟨hLow, hHigh⟩ := div_mem_unit (upright_of_pos (by decide)) (by decide) hAbove hFinite hLarger
    exact isSome_nanosOfSeconds?_of_le_one hLow hHigh
  · rw [max_eq_right hOne]
    decide

/-- At sixty ticks a second the length of a tick is that of the host loop. -/
theorem nanosOfSeconds?_sixtieth : nanosOfSeconds? (1 / 60) = some tickNanos := by decide

end PlanReplay
