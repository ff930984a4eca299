import PlanReplay.Proofs.Double.Sum
import PlanReplay.Proofs.Double.Whole

/-!
# What a sum is rounded to

A number above zero is rounded by its last place: the place of the last of 53 bits, or the smallest place there is. In
units of this place it is rounded to the nearest whole number, from halfway to the even one. Sums and differences of
doubles are exact before they are rounded, so this says what they are.

* `Double.RoundedAt`, `Double.Rounded` — what a number is rounded to, with its last place and without it.
* `Double.RoundedAt.place_eq` — a number has one last place.
* `Double.Rounded.le`, `Double.Rounded.ge`, `Double.Rounded.eq_of_fits` — rounding does not lead past a double.
* `Double.Rounded.unique` — a number is rounded to one number.
* `Double.rounded_div` — quotients of doubles.
* `Double.rounded_add`, `Double.rounded_sub` — sums and differences of doubles.
* `Double.le_add_iff_value` — a sum reaches a double iff the rounded number does, also beyond the range.
-/

namespace PlanReplay.Double

open Decimal (IsHalfEven isHalfEven_of_lt)
open Float.Model (Format totalExponent)
open Float.Model.UnpackedFloat

-- ---------------------------------------------------------------------------
-- Numbers and their last places
-- ---------------------------------------------------------------------------

/-- The number `q` is rounded to `r`, with `2 ^ e` as the last place. -/
structure RoundedAt (e : ℤ) (q r : ℚ) : Prop where
  low : -1074 ≤ e
  high : q < 2 ^ 53 * 2 ^ e
  full : e = -1074 ∨ 2 ^ 52 * 2 ^ e ≤ q
  near : ∃ t : ℤ, IsHalfEven (q / 2 ^ e) t ∧ r = t * 2 ^ e

/-- The number `q` is rounded to `r`. -/
def Rounded (q r : ℚ) : Prop := ∃ e, RoundedAt e q r

section

variable {e e' : ℤ} {q r : ℚ}

/-- All of 53 bits at one place are below the leading one of them at a larger place. -/
theorem bits_le_leading (h : e < e') : (2 : ℚ) ^ 53 * 2 ^ e ≤ 2 ^ 52 * 2 ^ e' := by
  have hNext : (2 : ℚ) ^ (e + 1) ≤ 2 ^ e' := zpow_le_zpow_right₀ one_le_two h
  rw [zpow_add_one₀ two_ne_zero] at hNext
  linarith

/-- A whole number of units of a place is one of units of a smaller place. -/
theorem units_at_smaller (k : ℤ) (h : e ≤ e') : (k : ℚ) * 2 ^ e' = (k * 2 ^ (e' - e).toNat : ℤ) * 2 ^ e := by
  obtain ⟨n, rfl⟩ := Int.le.dest h
  rw [add_sub_cancel_left, Int.toNat_natCast, zpow_add₀ two_ne_zero, zpow_natCast]
  push_cast
  ring

theorem isHalfEven_int (k : ℤ) : IsHalfEven (k : ℚ) k := by
  refine isHalfEven_of_lt ?_
  rw [sub_self, abs_zero]
  norm_num

/-- **A number has one last place.** -/
theorem RoundedAt.place_eq (h : RoundedAt e q r) (hLow : -1074 ≤ e') (hHigh : q < 2 ^ 53 * 2 ^ e')
    (hFull : e' = -1074 ∨ 2 ^ 52 * 2 ^ e' ≤ q) : e = e' := by
  rcases lt_trichotomy e e' with hLess | hSame | hMore
  · have hLeading := hFull.resolve_left (by have := h.low; omega)
    have hStep := bits_le_leading hLess
    linarith [h.high]
  · exact hSame
  · have hLeading := h.full.resolve_left (by omega)
    have hStep := bits_le_leading hMore
    linarith

-- ---------------------------------------------------------------------------
-- Rounding and the order
-- ---------------------------------------------------------------------------

variable {k : ℤ}

/-- **Rounding does not lead above** a double that is not exceeded. -/
theorem Rounded.le (h : Rounded q r) (hLow : -1074 ≤ e') (hBits : (k : ℚ) < 2 ^ 53) (hLe : q ≤ k * 2 ^ e') :
    r ≤ k * 2 ^ e' := by
  obtain ⟨e, hRounded⟩ := h
  obtain ⟨t, hNear, rfl⟩ := hRounded.near
  have hUnit : (0 : ℚ) < 2 ^ e := zpow_pos two_pos e
  rcases le_or_gt e e' with hSmaller | hLarger
  · rw [units_at_smaller k hSmaller] at hLe ⊢
    have hUnits : q / 2 ^ e ≤ (k * 2 ^ (e' - e).toNat : ℤ) := (div_le_iff₀ hUnit).mpr hLe
    have hMono : t ≤ k * 2 ^ (e' - e).toNat := hNear.mono (isHalfEven_int _) hUnits
    exact mul_le_mul_of_nonneg_right (Int.cast_le.mpr hMono) hUnit.le
  · -- the last place would be too large for the number
    have hLeading := hRounded.full.resolve_left (by omega)
    have hStep := bits_le_leading hLarger
    have hBelow : (k : ℚ) * 2 ^ e' < 2 ^ 53 * 2 ^ e' := mul_lt_mul_of_pos_right hBits (zpow_pos two_pos e')
    linarith

/-- **Rounding does not lead below** a double that is reached. -/
theorem Rounded.ge (h : Rounded q r) (hBits : (k : ℚ) < 2 ^ 53) (hLe : k * 2 ^ e' ≤ q) (hLow : -1074 ≤ e') :
    k * 2 ^ e' ≤ r := by
  obtain ⟨e, hRounded⟩ := h
  obtain ⟨t, hNear, rfl⟩ := hRounded.near
  have hUnit : (0 : ℚ) < 2 ^ e := zpow_pos two_pos e
  rcases le_or_gt e e' with hSmaller | hLarger
  · rw [units_at_smaller k hSmaller] at hLe ⊢
    have hUnits : ((k * 2 ^ (e' - e).toNat : ℤ) : ℚ) ≤ q / 2 ^ e := (le_div_iff₀ hUnit).mpr hLe
    have hMono : k * 2 ^ (e' - e).toNat ≤ t := (isHalfEven_int _).mono hNear hUnits
    exact mul_le_mul_of_nonneg_right (Int.cast_le.mpr hMono) hUnit.le
  · -- the number has its leading bit, which is above the double already
    have hLeading := hRounded.full.resolve_left (by omega)
    have hUnits : (((2 ^ 52 : ℤ)) : ℚ) ≤ q / 2 ^ e := (le_div_iff₀ hUnit).mpr (by exact_mod_cast hLeading)
    have hMono : (2 ^ 52 : ℤ) ≤ t := (isHalfEven_int _).mono hNear hUnits
    have hCast : (2 : ℚ) ^ 52 ≤ t := by exact_mod_cast hMono
    calc (k : ℚ) * 2 ^ e' ≤ 2 ^ 53 * 2 ^ e' := mul_le_mul_of_nonneg_right hBits.le (zpow_pos two_pos e').le
      _ ≤ 2 ^ 52 * 2 ^ e := bits_le_leading hLarger
      _ ≤ t * 2 ^ e := mul_le_mul_of_nonneg_right hCast hUnit.le

theorem Rounded.nonneg (h : Rounded q r) (hNonneg : 0 ≤ q) : 0 ≤ r := by
  have hZero : ((0 : ℤ) : ℚ) * 2 ^ (0 : ℤ) ≤ q := by
    rw [Int.cast_zero, zero_mul]
    exact hNonneg
  simpa using h.ge (by norm_num) hZero (by norm_num)

/-- **A number is rounded to one number.** -/
theorem Rounded.unique {r' : ℚ} (h : Rounded q r) (h' : Rounded q r') : r = r' := by
  obtain ⟨e, hRounded⟩ := h
  obtain ⟨e', hRounded'⟩ := h'
  obtain rfl := hRounded.place_eq hRounded'.low hRounded'.high hRounded'.full
  obtain ⟨t, hNear, rfl⟩ := hRounded.near
  obtain ⟨t', hNear', rfl⟩ := hRounded'.near
  rw [hNear.unique hNear']

/-- What is a double already is not rounded. -/
theorem Rounded.eq_of_fits (h : Rounded q r) (hLow : -1074 ≤ e') (hBits : (k : ℚ) < 2 ^ 53) (hSame : q = k * 2 ^ e') :
    r = q := by
  refine le_antisymm ?_ ?_
  · rw [hSame]
    exact h.le hLow hBits hSame.le
  · rw [hSame]
    exact h.ge hBits hSame.ge hLow

/-- What rounds to a double in units of its place is rounded to it. Just below a power of two the units are half as large,
and there the number has to be twice as near. -/
theorem rounded_of_isHalfEven {m : Nat} (hFits : Fits m e) (hHalf : IsHalfEven (q / 2 ^ e) m)
    (hEdge : m = 2 ^ 52 → -1074 < e → 2 ^ 52 - 1 / 4 ≤ q / 2 ^ e) : Rounded q (m * 2 ^ e) := by
  obtain ⟨units, hUnits⟩ : ∃ units, units = q / 2 ^ e := ⟨_, rfl⟩
  have hUnit : (0 : ℚ) < 2 ^ e := zpow_pos two_pos e
  have hValue : q = units * 2 ^ e := by rw [hUnits, div_mul_cancel₀ _ hUnit.ne']
  rw [← hUnits] at hHalf hEdge
  obtain ⟨hLow, hHigh⟩ := abs_le.mp hHalf.near
  rw [Int.cast_natCast] at hLow hHigh
  have hBits : (m : ℚ) + 1 ≤ 2 ^ 53 := by exact_mod_cast hFits.1
  by_cases hPlace : e = -1074 ∨ 2 ^ 52 ≤ units
  · refine ⟨e, hFits.2.1, ?_, ?_, m, ?_, ?_⟩
    · rw [hValue]
      exact mul_lt_mul_of_pos_right (by linarith) hUnit
    · rw [hValue]
      exact hPlace.imp_right fun hFull => mul_le_mul_of_nonneg_right hFull hUnit.le
    · rwa [← hUnits]
    · rw [Int.cast_natCast]
  · -- the double is the least one of its place, and the number is below it
    obtain ⟨hPlace, hBelow⟩ := not_or.mp hPlace
    rw [not_le] at hBelow
    have hFull : 2 ^ 52 ≤ m := hFits.2.2.resolve_left hPlace
    have hLeast : m ≤ 2 ^ 52 := by
      have hCast : (m : ℚ) < (2 ^ 52 : Nat) + 1 := by
        push_cast
        linarith
      exact Nat.lt_succ_iff.mp (by exact_mod_cast hCast)
    obtain rfl : m = 2 ^ 52 := Nat.le_antisymm hLeast hFull
    have hNear := hEdge rfl (lt_of_le_of_ne hFits.2.1 (Ne.symm hPlace))
    have hHalved : (2 : ℚ) ^ e = 2 * 2 ^ (e - 1) := by
      rw [zpow_sub_one₀ two_ne_zero]
      ring
    have hHalf' : (0 : ℚ) < 2 ^ (e - 1) := zpow_pos two_pos _
    rw [hHalved] at hValue ⊢
    have hDouble : q / 2 ^ (e - 1) = 2 * units := by
      rw [hValue]
      field_simp
    refine ⟨e - 1, by have := hFits.2.1; omega, ?_, Or.inr ?_, 2 ^ 53, ?_, ?_⟩
    · rw [hValue, ← mul_assoc]
      exact mul_lt_mul_of_pos_right (by linarith) hHalf'
    · rw [hValue, ← mul_assoc]
      exact mul_le_mul_of_nonneg_right (by linarith) hHalf'.le
    · rw [hDouble]
      refine ⟨?_, fun _ => by decide⟩
      rw [abs_le]
      push_cast
      constructor <;> linarith
    · push_cast
      ring

/-- A double is rounded to itself. -/
theorem rounded_self {m : Nat} {e : ℤ} (hFits : Fits m e) : Rounded (m * 2 ^ e) (m * 2 ^ e) := by
  have hUnit : (0 : ℚ) < 2 ^ e := zpow_pos two_pos e
  refine ⟨e, hFits.2.1, ?_, ?_, m, ?_, ?_⟩
  · exact mul_lt_mul_of_pos_right (mod_cast hFits.1) hUnit
  · exact hFits.2.2.imp_right fun hLeading => mul_le_mul_of_nonneg_right (mod_cast hLeading) hUnit.le
  · rw [mul_div_cancel_right₀ _ hUnit.ne']
    exact isHalfEven_int m
  · rw [Int.cast_natCast]

end

-- ---------------------------------------------------------------------------
-- Results of the arithmetic
-- ---------------------------------------------------------------------------

theorem Keeps.lt {em : ExtendedMantissa} {q : ℚ} (h : Keeps em q) : q < em.mantissa + 1 := by
  obtain ⟨m, roundBit, stickyBit⟩ := em
  cases roundBit <;> cases stickyBit <;> simp only [Keeps] at h ⊢ <;> linarith

/-- A number with enough places is rounded by its last place. -/
theorem rounded_roundWithAccuracy {m : Nat} {e : ℤ} {accuracy : Accuracy} {q : ℚ}
    (hKeeps : Keeps (.ofMantissaAndAccuracy m accuracy) q)
    (hPlaces : e ≤ max (m.log2 + 1 + e - 53) (-1074 : Int)) :
    Rounded (q * 2 ^ e) (value (roundWithAccuracy .binary64 .positive m e accuracy)) := by
  obtain ⟨hBits, hLow, hLeading⟩ := fits_shiftToTargetExponent hPlaces accuracy
  obtain ⟨q', hKept, hValue⟩ := hKeeps.shiftToTargetExponent e
  rw [value_roundWithAccuracy accuracy hPlaces, ← hValue]
  generalize shiftToTargetExponent .binary64 m e accuracy = first at hBits hLow hLeading hKept ⊢
  have hUnit : (0 : ℚ) < 2 ^ first.2 := zpow_pos two_pos _
  refine ⟨first.2, hLow, ?_, ?_, first.1.roundedMantissa, ?_, ?_⟩
  · have hCast : ((first.1.mantissa + 1 : Nat) : ℚ) ≤ (2 ^ 53 : Nat) := Nat.cast_le.mpr hBits
    push_cast at hCast
    exact mul_lt_mul_of_pos_right (hKept.lt.trans_le hCast) hUnit
  · refine hLeading.imp_right fun hFull => mul_le_mul_of_nonneg_right (le_trans ?_ hKept.le) hUnit.le
    exact_mod_cast hFull
  · rw [mul_div_cancel_right₀ _ hUnit.ne']
    exact hKept.rounded
  · rw [Int.cast_natCast]

/-- **A quotient is rounded** by its last place. -/
theorem rounded_div {m₁ m₂ : Nat} (e₁ e₂ : ℤ) (hm₁ : 0 < m₁) (hm₂ : 0 < m₂) :
    Rounded ((m₁ : ℚ) * 2 ^ e₁ / (m₂ * 2 ^ e₂))
      (value (div .binary64 (.finite .positive m₁ e₁ hm₁) (.finite .positive m₂ e₂ hm₂))) := by
  obtain ⟨m, e, accuracy, q, hKeeps, hPlaces, hQuotient, hRound⟩ := exists_div_eq_round e₁ e₂ hm₁ hm₂
  rw [hRound, hQuotient]
  exact rounded_roundWithAccuracy hKeeps hPlaces

/-- **A whole number of units** above zero is rounded by its last place. -/
theorem rounded_normalize {m : ℤ} (e : ℤ) (zeroSign : Sign) (hPos : 0 < m) :
    Rounded (m * 2 ^ e) (value (Float.Model.UnpackedFloat.normalize .binary64 m e zeroSign)) := by
  obtain ⟨n, rfl⟩ := Int.eq_ofNat_of_zero_le hPos.le
  have hn : 0 < n := Int.natCast_pos.mp hPos
  obtain ⟨j, hj⟩ : ∃ j, j = (e - max (n.log2 + 1 + e - 53) (-1074 : Int)).toNat := ⟨_, rfl⟩
  have hSame : ((n : ℤ) : ℚ) * 2 ^ e = (n * 2 ^ j : Nat) * 2 ^ (e - j) := by
    rw [Int.cast_natCast]
    exact magnitude_shifted n j (e - j) (by omega)
  have hPlaces : e - j ≤ max ((n * 2 ^ j).log2 + 1 + (e - j) - 53) (-1074 : Int) := by
    rw [log2_mul_two_pow hn]
    omega
  have hRound : Float.Model.UnpackedFloat.normalize .binary64 n e zeroSign =
      roundWithAccuracy .binary64 .positive (n * 2 ^ j) (e - j) .exact := by
    unfold Float.Model.UnpackedFloat.normalize Float.Model.UnpackedFloat.round decreaseExponent
    rw [Int.compare_eq_gt.mpr hPos]
    dsimp only
    rw [Int.toNat_natCast, targetExponent_eq, Nat.shiftLeft_eq, ← hj]
  rw [hRound, hSame]
  exact rounded_roundWithAccuracy rfl hPlaces

/-- A mantissa with its sign, in units of a smaller exponent. -/
theorem value_shifted (s : Sign) {m : Nat} {e low : ℤ} (hm : 0 < m) (h : low ≤ e) :
    value (.finite s m e hm) = (s.apply (m <<< (e - low).toNat) : ℤ) * 2 ^ low := by
  have hMagnitude := magnitude_shifted m (e - low).toNat (e := e) low (by omega)
  rw [Nat.shiftLeft_eq]
  cases s with
  | positive => simpa [value, Sign.apply] using hMagnitude
  | negative => simpa [value, Sign.apply] using hMagnitude

/-- A number above zero has a mantissa and an exponent. -/
theorem exists_positive {u : Float.Model.UnpackedFloat} (hu : IsCanonical u) (hPos : 0 < value u) :
    ∃ m e hm, u = .finite .positive m e hm ∧ Fits m e := by
  cases u with
  | notANumber | infinity s => exact hu.elim
  | zero s => exact absurd hPos (lt_irrefl 0)
  | finite s m e hm =>
    cases s with
    | positive => exact ⟨m, e, hm, rfl, hu⟩
    | negative =>
      rw [value_negative] at hPos
      linarith [magnitude_pos e hm]

/-- What the parts of a number above zero are rounded to is the number. -/
theorem rounded_value {u : Float.Model.UnpackedFloat} (hu : IsCanonical u) (hPos : 0 < value u) :
    Rounded (value u) (value u) := by
  obtain ⟨m, e, hm, rfl, hFits⟩ := exists_positive hu hPos
  rw [value_positive]
  exact rounded_self hFits

/-- **A sum is rounded** once, from the exact sum. -/
theorem rounded_add {u v : Float.Model.UnpackedFloat} (hu : IsCanonical u) (hv : IsCanonical v)
    (hPos : 0 < value u + value v) : Rounded (value u + value v) (value (add .binary64 u v)) := by
  cases u with
  | notANumber | infinity s => exact hu.elim
  | zero s =>
    rw [value_zero, zero_add] at hPos ⊢
    cases v with
    | notANumber | infinity s' => exact hv.elim
    | zero s' => exact absurd hPos (lt_irrefl 0)
    | finite s' m' e' hm' => exact rounded_value hv hPos
  | finite s m e hm =>
    cases v with
    | notANumber | infinity s' => exact hv.elim
    | zero s' =>
      rw [value_zero, add_zero] at hPos ⊢
      exact rounded_value hu hPos
    | finite s' m' e' hm' =>
      rw [value_shifted s hm (min_le_left e e'), value_shifted s' hm' (min_le_right e e'), ← add_mul,
        ← Int.cast_add] at hPos ⊢
      have hSum := (mul_pos_iff_of_pos_right (zpow_pos two_pos _)).mp hPos
      exact rounded_normalize (min e e') .positive (Int.cast_pos.mp hSum)

theorem value_neg (u : Float.Model.UnpackedFloat) : value (neg u) = -value u := by
  cases u with
  | notANumber | infinity s | zero s => exact neg_zero.symm
  | finite s m e hm =>
    cases s with
    | positive =>
      rw [value_positive]
      exact value_negative m e hm
    | negative =>
      rw [value_negative, neg_neg]
      exact value_positive m e hm

theorem canonical_neg {u : Float.Model.UnpackedFloat} (hu : IsCanonical u) : IsCanonical (neg u) := by
  cases u with
  | notANumber | infinity s => exact hu.elim
  | zero s => trivial
  | finite s m e hm => exact hu

/-- A difference of doubles that are not below zero is rounded from the exact difference. -/
theorem rounded_sub {x y : Float} (hx : x.isFinite = true) (hy : y.isFinite = true) (hxZero : 0 ≤ x) (hyZero : 0 ≤ y)
    (hLess : value (parts y) < value (parts x)) :
    Rounded (value (parts x) - value (parts y)) (value (parts (x - y))) := by
  rw [parts_sub_of_nonneg hx hy hxZero hyZero, ← add_neg_parts, sub_eq_add_neg, ← value_neg]
  refine rounded_add (isCanonical_parts hx) (canonical_neg (isCanonical_parts hy)) ?_
  rw [value_neg]
  linarith

-- ---------------------------------------------------------------------------
-- Beyond the range
-- ---------------------------------------------------------------------------

/-- What is below a double is within the range. -/
theorem upTo_of_value_lt {u : Float.Model.UnpackedFloat} {x : Float} (hx : x.isFinite = true) (hu : IsCanonical u)
    (hNonneg : 0 ≤ value u) (hLess : value u < value (parts x)) : UpTo 971 u := by
  have hRange := upTo_parts hx
  obtain ⟨m', e', hm', hParts, hFits⟩ := exists_positive (isCanonical_parts hx) (hNonneg.trans_lt hLess)
  rw [hParts] at hRange hLess
  cases u with
  | notANumber | infinity s => exact hu.elim
  | zero s => trivial
  | finite s m e hm =>
    cases s with
    | negative =>
      rw [value_negative] at hNonneg
      linarith [magnitude_pos e hm]
    | positive =>
      rw [value_positive, value_positive] at hLess
      by_contra hBeyond
      have hMore : e' < e := hRange.trans_lt (not_le.mp hBeyond)
      exact absurd hLess (not_lt.mpr (magnitude_lt hFits hu (Or.inl hMore)).le)

variable {x y z : Float}

/-- A sum that is rounded to less than a double is finite, and nothing else happens to it. -/
theorem parts_add_of_lt (hx : x.isFinite = true) (hy : y.isFinite = true) (hz : z.isFinite = true)
    (hNonneg : 0 ≤ value (add .binary64 (parts x) (parts y)))
    (hLess : value (add .binary64 (parts x) (parts y)) < value (parts z)) :
    parts (x + y) = add .binary64 (parts x) (parts y) := by
  have hSum := canonical_add (isCanonical_parts hx) (isCanonical_parts hy)
  rw [parts_add]
  exact repack_canonical hSum (upTo_of_value_lt hz hSum hNonneg hLess)

/-- **A sum reaches a double** iff the rounded number does. It may be infinite. -/
theorem le_add_iff_value (hx : x.isFinite = true) (hy : y.isFinite = true) (hz : z.isFinite = true) (hzZero : 0 ≤ z)
    (hNonneg : 0 ≤ value (add .binary64 (parts x) (parts y))) :
    z ≤ x + y ↔ value (parts z) ≤ value (add .binary64 (parts x) (parts y)) := by
  have hSum := canonical_add (isCanonical_parts hx) (isCanonical_parts hy)
  constructor
  · intro hLe
    by_contra hLess
    rw [le_iff, parts_add_of_lt hx hy hz hNonneg (not_le.mp hLess), compare_eq (isCanonical_parts hz) hSum,
      Option.any_some, Ordering.isLE_iff_ne_gt] at hLe
    exact hLess (compare_le_iff_le.mp hLe)
  · intro hLe
    rw [le_iff, parts_add]
    exact le_repack (isCanonical_parts hz) hSum (value_nonneg hz hzZero) hLe

end PlanReplay.Double
