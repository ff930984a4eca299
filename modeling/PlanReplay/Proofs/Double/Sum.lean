import PlanReplay.Proofs.Double.Nearest
import PlanReplay.Proofs.Double.Order

/-!
# Sums of doubles

A sum of finite doubles is a number, although it may be infinite. Rounding does not lead below a double that the exact
sum reaches, and it does not lead to zero from anywhere else.

* `Double.isNaN_add`, `Double.isNaN_ofNat` — sums and counts are numbers.
* `Double.le_value_round` — rounding does not lead below a double that is not above the number.
* `Double.le_add` — a sum with something that is not below zero.
* `Double.lt_of_sub_pos` — a difference above zero is one of a larger and a smaller double.
* `Double.eq_negZero_of_add` — only the zero with a sign, added to itself, is that zero.
-/

namespace PlanReplay.Double

open Float.Model (Format)
open Float.Model.UnpackedFloat

-- ---------------------------------------------------------------------------
-- Numbers
-- ---------------------------------------------------------------------------

/-- Only the largest exponent is that of what is no number. -/
theorem unpack_ne_notANumber {s : Sign} {exponent : BitVec 11} {mantissa : BitVec 52} (h : exponent ≠ -1#11) :
    unpack .binary64 (packComponents .binary64 s exponent mantissa) ≠ .notANumber := by
  unfold unpack
  simp only [unpackSign_packComponents, unpackExponent_packComponents, unpackMantissa_packComponents]
  rw [if_neg h]
  split
  · split <;> exact nofun
  · exact nofun

/-- What is a number is written as one. -/
theorem repack_ne_notANumber {u : Float.Model.UnpackedFloat} (h : u ≠ .notANumber) : repack u ≠ .notANumber := by
  cases u with
  | notANumber => exact absurd rfl h
  | infinity s =>
    rw [repack_infinity]
    exact nofun
  | zero s =>
    rw [repack_zero]
    exact nofun
  | finite s m e hm =>
    unfold repack
    dsimp only [pack]
    split
    · exact fun hNone => Float.Model.UnpackedFloat.noConfusion ((repack_infinity s).symm.trans hNone)
    · rename_i hFits
      split
      · refine unpack_ne_notANumber fun hOnes => ?_
        have hLargest := congrArg BitVec.toNat hOnes
        rw [BitVec.toNat_ofNat] at hLargest
        change ¬ 2048 ≤ (e + 1023 + 52).toNat + 1 at hFits
        change (e + 1023 + 52).toNat % 2048 = 2047 at hLargest
        omega
      · exact unpack_ne_notANumber (by decide)

theorem round_ne_notANumber (s : Sign) (m : Nat) (e : Int) (accuracy : Accuracy) :
    roundWithAccuracy .binary64 s m e accuracy ≠ .notANumber := by
  unfold roundWithAccuracy
  dsimp only
  split <;> exact nofun

theorem normalize_ne_notANumber (m : Int) (e : Int) (zeroSign : Sign) :
    Float.Model.UnpackedFloat.normalize .binary64 m e zeroSign ≠ .notANumber := by
  unfold Float.Model.UnpackedFloat.normalize
  split
  · exact round_ne_notANumber _ _ _ _
  · exact nofun
  · exact round_ne_notANumber _ _ _ _

theorem normalize_zero (e : Int) (zeroSign : Sign) :
    Float.Model.UnpackedFloat.normalize .binary64 0 e zeroSign = .zero zeroSign := rfl

/-- The sum of finite doubles is a number. -/
theorem isNaN_add {x y : Float} (hx : x.isFinite = true) (hy : y.isFinite = true) : (x + y).isNaN = false := by
  rw [isNaN_iff, parts_add]
  refine repack_ne_notANumber ?_
  have hxFits := isCanonical_parts hx
  have hyFits := isCanonical_parts hy
  cases hxParts : parts x with
  | notANumber | infinity s =>
    rw [hxParts] at hxFits
    exact hxFits.elim
  | zero s =>
    cases hyParts : parts y with
    | notANumber | infinity s' =>
      rw [hyParts] at hyFits
      exact hyFits.elim
    | zero s' => cases s <;> cases s' <;> exact nofun
    | finite s' m' e' hm' =>
      change Float.Model.UnpackedFloat.finite s' m' e' hm' ≠ _
      exact nofun
  | finite s m e hm =>
    cases hyParts : parts y with
    | notANumber | infinity s' =>
      rw [hyParts] at hyFits
      exact hyFits.elim
    | zero s' =>
      change Float.Model.UnpackedFloat.finite s m e hm ≠ _
      exact nofun
    | finite s' m' e' hm' => exact normalize_ne_notANumber _ _ _

/-- A count that is not its own double is rounded. -/
theorem parts_ofNat_of_large {n : Nat} (h : ¬ n < 2 ^ 53) :
    parts (Float.ofNat n) = repack (roundWithAccuracy .binary64 .positive (n * 2 ^ 53) (-53) .exact) := by
  have hParts : parts (Float.ofNat n) = repack (ofScientific .binary64 n 0) := by
    change parts (Float.ofScientific n false 0) = _
    unfold Float.ofScientific
    rw [dif_neg fun hSmall => h hSmall.1]
    rfl
  rw [hParts, ofScientific_count (by omega)]

/-- Any count is a number, also one that is rounded. -/
theorem isNaN_ofNat (n : Nat) : (Float.ofNat n).isNaN = false := by
  by_cases hSmall : n < 2 ^ 53
  · exact isNaN_of_finite (finite_ofNat (by unfold maxUInt64; omega))
  · rw [isNaN_iff, parts_ofNat_of_large hSmall]
    exact repack_ne_notANumber (round_ne_notANumber _ _ _ _)

/-- No count is the zero with a sign. -/
theorem ofNat_ne_negZero (n : Nat) : Float.ofNat n ≠ -0.0 := by
  have hSign : HasSign .positive (parts (Float.ofNat n)) := by
    by_cases hSmall : n < 2 ^ 53
    · rcases n.eq_zero_or_pos with rfl | hPos
      · rfl
      · rw [parts_ofNat hPos hSmall]
        rfl
    · rw [parts_ofNat_of_large hSmall]
      exact hasSign_repack (hasSign_round _ _ _ _)
  intro hSame
  rw [hSame] at hSign
  cases hSign

-- ---------------------------------------------------------------------------
-- Rounding
-- ---------------------------------------------------------------------------

/-- **Rounding does not lead below** a double that is not above the number. -/
theorem le_value_round {m m' : Nat} {e e' : Int} (hm : 0 < m) (hFits : Fits m' e')
    (hLe : (m' : ℚ) * 2 ^ e' ≤ m * 2 ^ e) :
    (m' : ℚ) * 2 ^ e' ≤ value (Float.Model.UnpackedFloat.round .binary64 .positive m e) := by
  obtain ⟨j, hj⟩ : ∃ j, j = (e - max (m.log2 + 1 + e - 53) (-1074 : Int)).toNat := ⟨_, rfl⟩
  have hSame : ((m * 2 ^ j : Nat) : ℚ) * 2 ^ (e - j) = m * 2 ^ e := by
    rw [zpow_sub₀ two_ne_zero, zpow_natCast]
    push_cast
    field_simp
  have hPlaces : e - j ≤ max ((m * 2 ^ j).log2 + 1 + (e - j) - 53) (-1074 : Int) := by
    rw [log2_mul_two_pow hm]
    omega
  have hExact : Keeps (.ofMantissaAndAccuracy (m * 2 ^ j) .exact) (m * 2 ^ j : Nat) := rfl
  have hNearest := nearest_roundWithAccuracy hExact hPlaces hFits
  unfold Float.Model.UnpackedFloat.round decreaseExponent
  dsimp only
  rw [targetExponent_eq, Nat.shiftLeft_eq, ← hj]
  rw [hSame, abs_sub_comm _ (m * 2 ^ e : ℚ), abs_sub_comm _ (m * 2 ^ e : ℚ),
    abs_of_nonneg (sub_nonneg.mpr hLe)] at hNearest
  have hAbove := (le_abs_self _).trans hNearest
  linarith

/-- The sign of a rounded number is that of the number. -/
theorem value_round_negative (m : Nat) (e : Int) :
    value (Float.Model.UnpackedFloat.round .binary64 .negative m e) =
      -value (Float.Model.UnpackedFloat.round .binary64 .positive m e) := by
  unfold Float.Model.UnpackedFloat.round roundWithAccuracy
  dsimp only
  split
  · rw [value_zero, value_zero, neg_zero]
  · rw [value_negative, value_positive]

/-- No number but zero is rounded to zero, if it is a whole number of the smallest units. -/
theorem value_normalize_ne_zero {m : Int} {e : Int} (zeroSign : Sign) (hm : m ≠ 0) (hLow : -1074 ≤ e) :
    value (Float.Model.UnpackedFloat.normalize .binary64 m e zeroSign) ≠ 0 := by
  have hUnit : Fits 1 (-1074) := ⟨by decide, le_rfl, Or.inl rfl⟩
  have hPos (n : Nat) (hn : 0 < n) : 0 < value (Float.Model.UnpackedFloat.round .binary64 .positive n e) := by
    refine lt_of_lt_of_le (magnitude_pos (-1074) Nat.one_pos) (le_value_round hn hUnit ?_)
    exact mul_le_mul (Nat.cast_le.mpr hn) (zpow_le_zpow_right₀ one_le_two hLow) (by positivity) (by positivity)
  unfold Float.Model.UnpackedFloat.normalize
  split
  · rename_i hOrder
    have hBelow := Int.compare_eq_lt.mp hOrder
    rw [value_round_negative]
    exact (neg_lt_zero.mpr (hPos _ (by omega))).ne
  · rename_i hOrder
    exact absurd (compare_eq_iff_eq.mp hOrder) hm
  · rename_i hOrder
    have hAbove := Int.compare_eq_gt.mp hOrder
    exact (hPos _ (by omega)).ne'

/-- A number beyond the range is written as infinite. -/
theorem repack_of_large (s : Sign) {m : Nat} {e : Int} (hm : 0 < m) (h : 971 < e) :
    repack (.finite s m e hm) = .infinity s := by
  unfold repack
  dsimp only [pack]
  have hLarge : 2 ^ Format.binary64.exponentBits ≤
      (e + Format.binary64.exponentBias + Format.binary64.mantissaBitsWithoutImplicit).toNat + 1 := by
    change 2048 ≤ (e + 1023 + 52).toNat + 1
    omega
  rw [if_pos hLarge]
  exact repack_infinity s

/-- What is not zero is not written as zero. -/
theorem repack_ne_zero {u : Float.Model.UnpackedFloat} (hFits : IsCanonical u) (h : value u ≠ 0) (s : Sign) :
    repack u ≠ .zero s := by
  cases u with
  | notANumber | infinity s => exact hFits.elim
  | zero s => exact absurd rfl h
  | finite s m e hm =>
    rcases le_or_gt e 971 with hInside | hBeyond
    · rw [repack_canonical hFits hInside]
      exact nofun
    · rw [repack_of_large s hm hBeyond]
      exact nofun

/-- A magnitude in units of a smaller exponent. -/
theorem magnitude_shifted (m k : Nat) {e : Int} (low : Int) (h : e = k + low) :
    (m : ℚ) * 2 ^ e = (m * 2 ^ k : Nat) * 2 ^ low := by
  rw [h, zpow_add₀ two_ne_zero, zpow_natCast, ← mul_assoc]
  push_cast
  rfl

-- ---------------------------------------------------------------------------
-- Sums
-- ---------------------------------------------------------------------------

/-- A sum of finite parts is canonical. -/
theorem canonical_add {u v : Float.Model.UnpackedFloat} (hu : IsCanonical u) (hv : IsCanonical v) :
    IsCanonical (add .binary64 u v) := by
  cases u with
  | notANumber | infinity s => exact hu.elim
  | zero s =>
    cases v with
    | notANumber | infinity s' => exact hv.elim
    | zero s' => cases s <;> cases s' <;> trivial
    | finite s' m' e' hm' => exact hv
  | finite s m e hm =>
    cases v with
    | notANumber | infinity s' => exact hv.elim
    | zero s' => exact hu
    | finite s' m' e' hm' => exact canonical_normalize _ _ _

/-- A rounded sum of two numbers above zero is not below the first one. -/
theorem le_value_add {m₁ m₂ : Nat} {e₁ e₂ : Int} (hm₁ : 0 < m₁) (hm₂ : 0 < m₂) (hFits : Fits m₁ e₁) :
    (m₁ : ℚ) * 2 ^ e₁ ≤ value (add .binary64 (.finite .positive m₁ e₁ hm₁) (.finite .positive m₂ e₂ hm₂)) := by
  obtain ⟨k₁, hk₁⟩ : ∃ k₁, k₁ = (e₁ - min e₁ e₂).toNat := ⟨_, rfl⟩
  obtain ⟨k₂, hk₂⟩ : ∃ k₂, k₂ = (e₂ - min e₁ e₂).toNat := ⟨_, rfl⟩
  have hPos : 0 < m₁ * 2 ^ k₁ + m₂ * 2 ^ k₂ := Nat.add_pos_left (Nat.mul_pos hm₁ (Nat.two_pow_pos k₁)) _
  have hReached : (m₁ : ℚ) * 2 ^ e₁ ≤ (m₁ * 2 ^ k₁ + m₂ * 2 ^ k₂ : Nat) * 2 ^ min e₁ e₂ := by
    rw [magnitude_shifted m₁ k₁ (min e₁ e₂) (by omega)]
    exact mul_le_mul_of_nonneg_right (Nat.cast_le.mpr (Nat.le_add_right _ _)) (zpow_pos two_pos _).le
  unfold add decreaseExponent Float.Model.UnpackedFloat.normalize
  dsimp only [Sign.apply]
  rw [← hk₁, ← hk₂, Nat.shiftLeft_eq, Nat.shiftLeft_eq, ← Int.natCast_add, Int.compare_eq_gt.mpr (by omega)]
  exact le_value_round hPos hFits hReached

/-- A number that is not below a finite double is written as a double that is not below it. -/
theorem le_repack {u v : Float.Model.UnpackedFloat} (hu : IsCanonical u) (hv : IsCanonical v) (hZero : 0 ≤ value u)
    (h : value u ≤ value v) : (u.compare (repack v)).any (·.isLE) = true := by
  have hWithin {w : Float.Model.UnpackedFloat} (hw : IsCanonical w) (hLe : value u ≤ value w) :
      (u.compare w).any (·.isLE) = true := by
    rw [compare_eq hu hw, Option.any_some, Ordering.isLE_iff_ne_gt]
    exact compare_le_iff_le.mpr hLe
  cases v with
  | notANumber | infinity s => exact hv.elim
  | zero s =>
    rw [repack_zero]
    exact hWithin hv h
  | finite s m e hm =>
    rcases le_or_gt e 971 with hInside | hBeyond
    · rw [repack_canonical hv hInside]
      exact hWithin hv h
    · rw [repack_of_large s hm hBeyond]
      cases s with
      | negative =>
        rw [value_negative] at h
        exact absurd (magnitude_pos e hm) (by linarith)
      | positive =>
        cases u with
        | notANumber | infinity s' => exact hu.elim
        | zero s' | finite s' m' e' hm' => rfl

/-- **With something more, a double does not become less**, although the sum is rounded. It may leave the range. -/
theorem le_add {x y : Float} (hx : x.isFinite = true) (hy : y.isFinite = true) (hxZero : 0 ≤ x) (hyZero : 0 ≤ y) :
    x ≤ x + y := by
  have hxFits := isCanonical_parts hx
  have hyFits := isCanonical_parts hy
  rw [le_iff, parts_add]
  refine le_repack hxFits (canonical_add hxFits hyFits) ?_ ?_
  · exact (le_iff_value rfl hx).mp hxZero
  · rcases zero_le_cases hxZero with ⟨s₁, hxParts⟩ | hxParts | ⟨m₁, e₁, hm₁, hxParts⟩
    · rcases zero_le_cases hyZero with ⟨s₂, hyParts⟩ | hyParts | ⟨m₂, e₂, hm₂, hyParts⟩
      · rw [hxParts, hyParts]
        cases s₁ <;> cases s₂ <;> exact le_rfl
      · rw [hyParts] at hyFits
        exact hyFits.elim
      · rw [hxParts, hyParts]
        change 0 ≤ value (.finite .positive m₂ e₂ hm₂)
        rw [value_positive]
        exact (magnitude_pos e₂ hm₂).le
    · rw [hxParts] at hxFits
      exact hxFits.elim
    · rcases zero_le_cases hyZero with ⟨s₂, hyParts⟩ | hyParts | ⟨m₂, e₂, hm₂, hyParts⟩
      · rw [hxParts, hyParts]
        exact le_rfl
      · rw [hyParts] at hyFits
        exact hyFits.elim
      · rw [hxParts] at hxFits
        rw [hxParts, hyParts, value_positive]
        exact le_value_add hm₁ hm₂ hxFits

/-- What is infinite stays so with something more. -/
theorem parts_add_infinity {x y : Float} (hxZero : 0 ≤ x) (hyZero : 0 ≤ y)
    (h : parts x = .infinity .positive ∨ parts y = .infinity .positive) : parts (x + y) = .infinity .positive := by
  rw [parts_add]
  rcases h with hParts | hParts
  · rcases zero_le_cases hyZero with ⟨s, hOther⟩ | hOther | ⟨m, e, hm, hOther⟩
    all_goals
      rw [hParts, hOther]
      exact repack_infinity .positive
  · rcases zero_le_cases hxZero with ⟨s, hOther⟩ | hOther | ⟨m, e, hm, hOther⟩
    all_goals
      rw [hParts, hOther]
      exact repack_infinity .positive

/-- What a double reaches, it reaches with something more, be it infinite. -/
theorem le_add_of_le {x y z : Float} (h : x ≤ y) (hyZero : 0 ≤ y) (hzZero : 0 ≤ z) : x ≤ y + z := by
  have hNumber := (isNaN_of_le h).1
  rcases finite_or_largest hyZero with hy | hy
  · rcases finite_or_largest hzZero with hz | hz
    · exact le_of_le_of_le h (le_add hy hz hyZero hzZero)
    · exact le_largest hNumber (parts_add_infinity hyZero hzZero (Or.inr hz))
  · exact le_largest hNumber (parts_add_infinity hyZero hzZero (Or.inl hy))

/-- **A difference above zero** is one of a larger and a smaller double. -/
theorem lt_of_sub_pos {x y : Float} (hx : x.isFinite = true) (hyZero : 0 ≤ y) (h : 0 < x - y) : y < x := by
  obtain ⟨hxZero, hy⟩ := of_sub_pos hx hyZero h
  have hSub : ¬ HasSign .negative (sub .binary64 (parts x) (parts y)) := by
    intro hSign
    refine not_pos_of_hasSign ?_ h
    rw [parts_sub]
    exact hasSign_repack hSign
  have hxFits := isCanonical_parts hx
  have hyFits := isCanonical_parts hy
  rcases zero_le_cases hxZero with ⟨s₁, hxParts⟩ | hxParts | ⟨m₁, e₁, hm₁, hxParts⟩
  · rcases zero_le_cases hyZero with ⟨s₂, hyParts⟩ | hyParts | ⟨m₂, e₂, hm₂, hyParts⟩
    · rw [lt_iff, parts_sub, parts_zero, hxParts, hyParts] at h
      cases s₁ <;> cases s₂ <;> cases h
    · rw [hyParts] at hyFits
      exact hyFits.elim
    · rw [hxParts, hyParts] at hSub
      exact absurd rfl hSub
  · rw [hxParts] at hxFits
    exact hxFits.elim
  · rcases zero_le_cases hyZero with ⟨s₂, hyParts⟩ | hyParts | ⟨m₂, e₂, hm₂, hyParts⟩
    · rw [lt_iff, hxParts, hyParts]
      rfl
    · rw [hyParts] at hyFits
      exact hyFits.elim
    · -- the exact difference would be zero or below it
      by_contra hNot
      rw [not_lt_iff_le hx hy, le_iff_value hx hy, hxParts, hyParts, value_positive, value_positive] at hNot
      obtain ⟨k₁, hk₁⟩ : ∃ k₁, k₁ = (e₁ - min e₁ e₂).toNat := ⟨_, rfl⟩
      obtain ⟨k₂, hk₂⟩ : ∃ k₂, k₂ = (e₂ - min e₁ e₂).toNat := ⟨_, rfl⟩
      rw [magnitude_shifted m₁ k₁ (min e₁ e₂) (by omega),
        magnitude_shifted m₂ k₂ (min e₁ e₂) (by omega),
        mul_le_mul_iff_of_pos_right (zpow_pos two_pos _), Nat.cast_le] at hNot
      have hDifference : sub .binary64 (parts x) (parts y) = Float.Model.UnpackedFloat.normalize .binary64
          ((m₁ * 2 ^ k₁ : Nat) - (m₂ * 2 ^ k₂ : Nat)) (min e₁ e₂) .positive := by
        rw [hxParts, hyParts]
        unfold sub decreaseExponent
        dsimp only [Sign.apply]
        rw [← hk₁, ← hk₂, Nat.shiftLeft_eq, Nat.shiftLeft_eq]
      rcases hNot.lt_or_eq with hLess | hSame
      · refine hSub ?_
        rw [hDifference]
        unfold Float.Model.UnpackedFloat.normalize
        rw [Int.compare_eq_lt.mpr (by omega)]
        exact hasSign_round _ _ _ _
      · rw [lt_iff, parts_sub, hDifference, hSame, sub_self, normalize_zero, repack_zero] at h
        cases h

/-- Only the zero with a sign, added to itself, is that zero. -/
theorem eq_negZero_of_add {x y : Float} (hx : x.isFinite = true) (hy : y.isFinite = true) (h : x + y = -0.0) :
    x = -0.0 ∧ y = -0.0 := by
  have hSum : repack (add .binary64 (parts x) (parts y)) = .zero .negative := by
    rw [← parts_add, h]
    rfl
  have hxFits := isCanonical_parts hx
  have hyFits := isCanonical_parts hy
  have hxRange : UpTo 971 (parts x) := upTo_parts hx
  have hyRange : UpTo 971 (parts y) := upTo_parts hy
  cases hxParts : parts x with
  | notANumber | infinity s =>
    rw [hxParts] at hxFits
    exact hxFits.elim
  | zero s =>
    cases hyParts : parts y with
    | notANumber | infinity s' =>
      rw [hyParts] at hyFits
      exact hyFits.elim
    | zero s' =>
      rw [hxParts, hyParts] at hSum
      cases s with
      | positive => cases s' <;> cases hSum
      | negative =>
        cases s' with
        | positive => cases hSum
        | negative => exact ⟨parts_injective hxParts, parts_injective hyParts⟩
    | finite s' m' e' hm' =>
      rw [hyParts] at hyFits hyRange
      rw [hxParts, hyParts] at hSum
      have hSame : repack (.finite s' m' e' hm') = .zero .negative := hSum
      rw [repack_canonical hyFits hyRange] at hSame
      cases hSame
  | finite s m e hm =>
    rw [hxParts] at hxFits hxRange hSum
    cases hyParts : parts y with
    | notANumber | infinity s' =>
      rw [hyParts] at hyFits
      exact hyFits.elim
    | zero s' =>
      rw [hyParts] at hSum
      have hSame : repack (.finite s m e hm) = .zero .negative := hSum
      rw [repack_canonical hxFits hxRange] at hSame
      cases hSame
    | finite s' m' e' hm' =>
      rw [hyParts] at hSum
      obtain ⟨sum, hNormalized⟩ : ∃ sum, add .binary64 (.finite s m e hm) (.finite s' m' e' hm') =
          Float.Model.UnpackedFloat.normalize .binary64 sum (min e e') .positive := ⟨_, rfl⟩
      rw [hNormalized] at hSum
      by_cases hNone : sum = 0
      · rw [hNone, normalize_zero, repack_zero] at hSum
        cases hSum
      · rw [hyParts] at hyFits
        have hLow : -1074 ≤ min e e' := le_min hxFits.2.1 hyFits.2.1
        exact absurd hSum (repack_ne_zero (canonical_normalize _ _ _) (value_normalize_ne_zero .positive hNone hLow) _)

end PlanReplay.Double
