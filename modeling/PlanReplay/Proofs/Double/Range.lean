import PlanReplay.Bounds
import PlanReplay.Proofs.Double

/-!
# The range of doubles

Which results of the arithmetic stay finite. The exponent of a finite double is at most 971, and a number with
a larger one is written as an infinite double; so a result is finite when rounding keeps its exponent within
those of the operands.

* `Double.UpTo` — a number whose exponent is not above a bound.
* `Double.upTo_roundWithAccuracy` — a number below a mantissa at an exponent is rounded to that exponent or one
  below it.
* `Double.finite_sub` — the difference of finite doubles that are not below zero is finite.
* `Double.finite_ofNat` — a number of 64 bits is a finite double.
-/

namespace PlanReplay.Double

open Float.Model (Format totalExponent)
open Float.Model.UnpackedFloat

-- ---------------------------------------------------------------------------
-- Above and below zero
-- ---------------------------------------------------------------------------

theorem zero_le_cases {x : Float} (h : 0 ≤ x) :
    (∃ s, parts x = .zero s) ∨ parts x = .infinity .positive ∨ ∃ m e hm, parts x = .finite .positive m e hm := by
  rw [le_iff, parts_zero] at h
  cases hParts : parts x with
  | notANumber =>
    rw [hParts] at h
    cases h
  | zero s => exact Or.inl ⟨s, rfl⟩
  | infinity s | finite s m e hm =>
    rw [hParts] at h
    cases s
    · cases h
    · first
        | exact Or.inr (Or.inl rfl)
        | exact Or.inr (Or.inr ⟨m, e, hm, rfl⟩)

/-- A number that is not at least zero has the sign bit and is no zero. -/
theorem below_zero_cases {x : Float} (hNumber : parts x ≠ .notANumber) (h : ¬ 0 ≤ x) :
    parts x = .infinity .negative ∨ ∃ m e hm, parts x = .finite .negative m e hm := by
  rw [le_iff, parts_zero] at h
  cases hParts : parts x with
  | notANumber => exact absurd hParts hNumber
  | zero s =>
    rw [hParts] at h
    exact absurd rfl h
  | infinity s | finite s m e hm =>
    rw [hParts] at h
    cases s
    · first
        | exact Or.inl rfl
        | exact Or.inr ⟨m, e, hm, rfl⟩
    · exact absurd rfl h

theorem le_of_lt {x y : Float} (h : x < y) : x ≤ y := by
  rw [lt_iff, beq_iff_eq] at h
  rw [le_iff, h]
  rfl

theorem not_pos_of_hasSign {x : Float} (h : HasSign .negative (parts x)) : ¬ 0 < x := by
  rw [lt_iff, parts_zero]
  intro hPos
  cases hParts : parts x with
  | notANumber =>
    rw [hParts] at hPos
    cases hPos
  | infinity s | zero s | finite s m e hm =>
    rw [hParts] at h hPos
    obtain rfl : s = .negative := h
    cases hPos

-- ---------------------------------------------------------------------------
-- Exponents
-- ---------------------------------------------------------------------------

/-- A finite number whose exponent is at most `bound`. -/
def UpTo (bound : Int) : Float.Model.UnpackedFloat → Prop
  | .zero _ => True
  | .finite _ _ e _ => e ≤ bound
  | .infinity _ | .notANumber => False

theorem UpTo.isFinite {bound : Int} {u : Float.Model.UnpackedFloat} (h : UpTo bound u) : u.isFinite = true := by
  cases u with
  | notANumber | infinity s => exact h.elim
  | zero s | finite s m e hm => rfl

theorem UpTo.mono {bound bound' : Int} {u : Float.Model.UnpackedFloat} (h : UpTo bound u) (hLe : bound ≤ bound') :
    UpTo bound' u := by
  cases u with
  | notANumber | infinity s => exact h
  | zero s => trivial
  | finite s m e hm => exact le_trans (b := bound) h hLe

/-- The exponent of a double is read off its bits. -/
theorem upTo_unpack {bound : Int} {bits : BitVec Format.binary64.numBits} (hLow : -1074 ≤ bound)
    (hHigh : bound ≤ 971) (h : (unpackExponent bits).toNat ≤ (bound + 1075).toNat) :
    UpTo bound (unpack .binary64 bits) := by
  unfold unpack
  dsimp only
  split
  · rename_i hLargest
    rw [hLargest] at h
    have hOnes : 2047 ≤ (bound + 1075).toNat := h
    omega
  · split
    · split
      · trivial
      · rename_i hExponent _
        show ((unpackExponent bits).toNat : Int) - (1023 + 52 : Nat) + 1 ≤ bound
        rw [hExponent]
        exact hLow
    · show ((unpackExponent bits).toNat : Int) - (1023 + 52 : Nat) ≤ bound
      omega

/-- The exponent of a finite double is at most 971. -/
theorem upTo_parts {x : Float} (h : (parts x).isFinite = true) : UpTo 971 (parts x) := by
  refine upTo_unpack (by decide) (by decide) ?_
  -- the largest exponent is that of what is infinite or no number
  have hNotOnes : @unpackExponent Format.binary64 x.toModel.toBits.toBitVec ≠ -1#_ := by
    intro hOnes
    change (unpack .binary64 x.toModel.toBits.toBitVec).isFinite = true at h
    unfold unpack at h
    dsimp only at h
    rw [if_pos hOnes] at h
    split at h <;> cases h
  have hBits : (@unpackExponent Format.binary64 x.toModel.toBits.toBitVec).toNat < 2048 := BitVec.isLt _
  have hNotLargest : (@unpackExponent Format.binary64 x.toModel.toBits.toBitVec).toNat ≠ 2047 :=
    fun hLargest => hNotOnes (BitVec.eq_of_toNat_eq hLargest)
  show _ ≤ 2046
  omega

/-- A number within the range is written as a finite double of no larger exponent. -/
theorem upTo_repack {bound : Int} {u : Float.Model.UnpackedFloat} (hLow : -1074 ≤ bound) (hHigh : bound ≤ 971)
    (h : UpTo bound u) : UpTo bound (repack u) := by
  cases u with
  | notANumber | infinity s => exact h.elim
  | zero s =>
    rw [repack_zero]
    trivial
  | finite s m e hm =>
    have hExponent : e ≤ bound := h
    unfold repack
    dsimp only [pack]
    have hFits : ¬ 2 ^ Format.binary64.exponentBits ≤
        (e + Format.binary64.exponentBias + Format.binary64.mantissaBitsWithoutImplicit).toNat + 1 := by
      change ¬ 2048 ≤ (e + 1023 + 52).toNat + 1
      omega
    rw [if_neg hFits]
    split
    · refine upTo_unpack hLow hHigh ?_
      rw [unpackExponent_packComponents, BitVec.toNat_ofNat]
      change (e + 1023 + 52).toNat % 2048 ≤ _
      omega
    · refine upTo_unpack hLow hHigh ?_
      rw [unpackExponent_packComponents]
      exact Nat.zero_le _

theorem finite_repack {u : Float.Model.UnpackedFloat} (h : UpTo 971 u) : (repack u).isFinite = true :=
  (upTo_repack (by decide) le_rfl h).isFinite

-- ---------------------------------------------------------------------------
-- Rounding
-- ---------------------------------------------------------------------------

/-- Bits are dropped from a number of `53 + k` bits at most down to 53 of them. -/
theorem shiftToTargetExponent_within {m k : Nat} {e : Int} (hLow : -1074 ≤ e + k) (h : m < 2 ^ 53 * 2 ^ k)
    (accuracy : Accuracy) :
    ∃ n ≤ k, (shiftToTargetExponent .binary64 m e accuracy).1.mantissa = m / 2 ^ n ∧
      (shiftToTargetExponent .binary64 m e accuracy).2 = e + n := by
  have hLog : m.log2 < 53 + k := by
    by_cases hZero : m = 0
    · rw [hZero, Nat.log2_zero]
      omega
    · rw [Nat.log2_lt hZero, Nat.pow_add]
      exact h
  obtain ⟨n, hn⟩ : ∃ n, n = (Format.targetExponent .binary64 (totalExponent m e) - e).toNat := ⟨_, rfl⟩
  refine ⟨n, ?_, ?_, ?_⟩
  · rw [hn]
    simp only [Format.targetExponent, totalExponent, Format.mantissaBits, Format.minExponent]
    omega
  · unfold shiftToTargetExponent shiftToExponent
    dsimp only
    rw [mantissa_shiftRight, mantissa_ofMantissaAndAccuracy, hn]
  · unfold shiftToTargetExponent shiftToExponent
    dsimp only
    rw [← hn]

/-- A number below a mantissa at an exponent is rounded to that exponent or one below it. -/
theorem upTo_roundWithAccuracy {m bound k : Nat} {e : Int} (s : Sign) (hBound : bound < 2 ^ 53)
    (hm : m < bound * 2 ^ k) (hLow : -1074 ≤ e + k) (accuracy : Accuracy) :
    UpTo (e + k) (roundWithAccuracy .binary64 s m e accuracy) := by
  have hBits : m < 2 ^ 53 * 2 ^ k := hm.trans_le (Nat.mul_le_mul_right _ hBound.le)
  obtain ⟨n, hn, hMantissa, hExponent⟩ := shiftToTargetExponent_within hLow hBits accuracy
  -- rounding up leads at most to the mantissa that is not reached
  have hBelow : m / 2 ^ n < bound * 2 ^ (k - n) := by
    rw [Nat.div_lt_iff_lt_mul (Nat.two_pow_pos n), Nat.mul_assoc, ← Nat.pow_add, Nat.sub_add_cancel hn]
    exact hm
  have hRounded : (shiftToTargetExponent .binary64 m e accuracy).1.roundedMantissa < 2 ^ 53 * 2 ^ (k - n) := by
    calc (shiftToTargetExponent .binary64 m e accuracy).1.roundedMantissa
        ≤ m / 2 ^ n + 1 := hMantissa ▸ roundedMantissa_le _
      _ ≤ bound * 2 ^ (k - n) := hBelow
      _ < 2 ^ 53 * 2 ^ (k - n) := Nat.mul_lt_mul_of_pos_right hBound (Nat.two_pow_pos _)
  have hLow' : -1074 ≤ e + n + ((k - n : Nat) : Int) := by omega
  obtain ⟨n', hn', -, hExponent'⟩ := shiftToTargetExponent_within hLow' hRounded .exact
  unfold roundWithAccuracy
  dsimp only
  rw [hExponent]
  split
  · trivial
  · show (shiftToTargetExponent .binary64 _ (e + n) .exact).2 ≤ e + k
    rw [hExponent']
    omega

/-- The same where bits are added first. -/
theorem upTo_round {m bound k : Nat} {e : Int} (s : Sign) (hBound : bound < 2 ^ 53) (hm : m < bound * 2 ^ k)
    (hLow : -1074 ≤ e + k) : UpTo (e + k) (Float.Model.UnpackedFloat.round .binary64 s m e) := by
  obtain ⟨j, hj⟩ : ∃ j, j = (e - Format.targetExponent .binary64 (totalExponent m e)).toNat := ⟨_, rfl⟩
  have hShifted : m <<< j < bound * 2 ^ (k + j) := by
    rw [Nat.shiftLeft_eq, Nat.pow_add, ← Nat.mul_assoc]
    exact Nat.mul_lt_mul_of_pos_right hm (Nat.two_pow_pos j)
  have hPlaces : e - j + ((k + j : Nat) : Int) = e + k := by
    push_cast
    omega
  unfold Float.Model.UnpackedFloat.round decreaseExponent
  dsimp only
  rw [← hj, ← hPlaces]
  exact upTo_roundWithAccuracy s hBound hShifted (by omega) .exact

theorem upTo_normalize {m : Int} {bound k : Nat} {e : Int} (zeroSign : Sign) (hBound : bound < 2 ^ 53)
    (hm : m.natAbs < bound * 2 ^ k) (hLow : -1074 ≤ e + k) :
    UpTo (e + k) (Float.Model.UnpackedFloat.normalize .binary64 m e zeroSign) := by
  unfold Float.Model.UnpackedFloat.normalize
  split
  · refine upTo_round .negative hBound ?_ hLow
    omega
  · trivial
  · refine upTo_round .positive hBound ?_ hLow
    omega

-- ---------------------------------------------------------------------------
-- Sums and differences
-- ---------------------------------------------------------------------------

/-- A difference of mantissas is below the larger one of them. -/
theorem upTo_sub {m₁ m₂ : Nat} {e₁ e₂ : Int} (hm₁ : 0 < m₁) (hm₂ : 0 < m₂) (hBits₁ : m₁ < 2 ^ 53)
    (hBits₂ : m₂ < 2 ^ 53) (hLow₁ : -1074 ≤ e₁) (hLow₂ : -1074 ≤ e₂) :
    UpTo (max e₁ e₂) (sub .binary64 (.finite .positive m₁ e₁ hm₁) (.finite .positive m₂ e₂ hm₂)) := by
  obtain ⟨k₁, hk₁⟩ : ∃ k₁, k₁ = (e₁ - min e₁ e₂).toNat := ⟨_, rfl⟩
  obtain ⟨k₂, hk₂⟩ : ∃ k₂, k₂ = (e₂ - min e₁ e₂).toNat := ⟨_, rfl⟩
  have hPos₁ : 0 < m₁ * 2 ^ k₁ := Nat.mul_pos hm₁ (Nat.two_pow_pos _)
  have hPos₂ : 0 < m₂ * 2 ^ k₂ := Nat.mul_pos hm₂ (Nat.two_pow_pos _)
  unfold sub decreaseExponent
  dsimp only [Sign.apply]
  rw [← hk₁, ← hk₂, Nat.shiftLeft_eq, Nat.shiftLeft_eq]
  rcases Nat.le_total (m₁ * 2 ^ k₁) (m₂ * 2 ^ k₂) with hLe | hLe
  · refine (upTo_normalize (k := k₂) .positive hBits₂ ?_ (by omega)).mono (by omega)
    omega
  · refine (upTo_normalize (k := k₁) .positive hBits₁ ?_ (by omega)).mono (by omega)
    omega

/-- The difference of finite doubles that are not below zero is within the range. -/
theorem upTo_sub_parts {x y : Float} (hx : x.isFinite = true) (hy : y.isFinite = true) (hxZero : 0 ≤ x)
    (hyZero : 0 ≤ y) : UpTo 971 (sub .binary64 (parts x) (parts y)) := by
  rw [isFinite_iff] at hx hy
  have hxRange := upTo_parts hx
  have hyRange := upTo_parts hy
  rcases zero_le_cases hxZero with ⟨s₁, hxParts⟩ | hxParts | ⟨m₁, e₁, hm₁, hxParts⟩
  · rcases zero_le_cases hyZero with ⟨s₂, hyParts⟩ | hyParts | ⟨m₂, e₂, hm₂, hyParts⟩
    · rw [hxParts, hyParts]
      cases s₁ <;> cases s₂ <;> trivial
    · rw [hyParts] at hy
      cases hy
    · rw [hyParts] at hyRange
      rw [hxParts, hyParts]
      exact hyRange
  · rw [hxParts] at hx
    cases hx
  · rw [hxParts] at hxRange
    rcases zero_le_cases hyZero with ⟨s₂, hyParts⟩ | hyParts | ⟨m₂, e₂, hm₂, hyParts⟩
    · rw [hxParts, hyParts]
      exact hxRange
    · rw [hyParts] at hy
      cases hy
    · rw [hyParts] at hyRange
      obtain ⟨hBits₁, hLow₁, -⟩ := canonical hxParts
      obtain ⟨hBits₂, hLow₂, -⟩ := canonical hyParts
      rw [hxParts, hyParts]
      exact (upTo_sub hm₁ hm₂ hBits₁ hBits₂ hLow₁ hLow₂).mono (max_le hxRange hyRange)

/-- The difference of finite doubles that are not below zero is finite. -/
theorem finite_sub {x y : Float} (hx : x.isFinite = true) (hy : y.isFinite = true) (hxZero : 0 ≤ x)
    (hyZero : 0 ≤ y) : (x - y).isFinite = true := by
  rw [isFinite_iff, parts_sub]
  exact finite_repack (upTo_sub_parts hx hy hxZero hyZero)

theorem parts_add (x y : Float) : parts (x + y) = repack (add .binary64 (parts x) (parts y)) := rfl

/-- What is added to zero stays finite. -/
theorem finite_zero_add {x : Float} (h : x.isFinite = true) : (0 + x).isFinite = true := by
  rw [isFinite_iff] at h
  rw [isFinite_iff, parts_add, parts_zero]
  refine finite_repack ?_
  have hRange := upTo_parts h
  cases hParts : parts x with
  | notANumber | infinity s =>
    rw [hParts] at h
    cases h
  | zero s => cases s <;> trivial
  | finite s m e hm =>
    rw [hParts] at hRange
    exact hRange

/-- A number below zero, less a number that is not, is below zero. -/
theorem hasSign_sub_of_below {m₁ : Nat} {e₁ : Int} (hm₁ : 0 < m₁) {y : Float} (hy : 0 ≤ y) :
    HasSign .negative (sub .binary64 (.finite .negative m₁ e₁ hm₁) (parts y)) := by
  rcases zero_le_cases hy with ⟨s₂, hParts⟩ | hParts | ⟨m₂, e₂, hm₂, hParts⟩
  · rw [hParts]
    rfl
  · rw [hParts]
    rfl
  · rw [hParts]
    have hPos₁ : 0 < m₁ * 2 ^ (e₁ - min e₁ e₂).toNat := Nat.mul_pos hm₁ (Nat.two_pow_pos _)
    unfold sub decreaseExponent Float.Model.UnpackedFloat.normalize
    dsimp only [Sign.apply]
    rw [Nat.shiftLeft_eq, Nat.shiftLeft_eq, Int.compare_eq_lt.mpr (by omega)]
    exact hasSign_round _ _ _ _

/-- A finite number, less what is infinite, is below zero. -/
theorem hasSign_sub_infinity {u : Float.Model.UnpackedFloat} (hu : u.isFinite = true) :
    HasSign .negative (sub .binary64 u (.infinity .positive)) := by
  cases u with
  | notANumber | infinity s => cases hu
  | zero s | finite s m e hm => rfl

/-- Where a finite double, less what is not below zero, is above zero, both are finite and not below zero. -/
theorem of_sub_pos {x y : Float} (hx : x.isFinite = true) (hyZero : 0 ≤ y) (h : 0 < x - y) :
    0 ≤ x ∧ y.isFinite = true := by
  rw [isFinite_iff] at hx
  rw [isFinite_iff]
  have hSub : ¬ HasSign .negative (sub .binary64 (parts x) (parts y)) := by
    intro hSign
    refine not_pos_of_hasSign ?_ h
    rw [parts_sub]
    exact hasSign_repack hSign
  constructor
  · by_contra hBelow
    have hNumber : parts x ≠ .notANumber := by
      intro hNone
      rw [hNone] at hx
      cases hx
    rcases below_zero_cases hNumber hBelow with hxParts | ⟨m₁, e₁, hm₁, hxParts⟩
    · rw [hxParts] at hx
      cases hx
    · rw [hxParts] at hSub
      exact hSub (hasSign_sub_of_below hm₁ hyZero)
  · rcases zero_le_cases hyZero with ⟨s₂, hyParts⟩ | hyParts | ⟨m₂, e₂, hm₂, hyParts⟩
    · rw [hyParts]
      rfl
    · rw [hyParts] at hSub
      exact absurd (hasSign_sub_infinity hx) hSub
    · rw [hyParts]
      rfl

-- ---------------------------------------------------------------------------
-- Larger doubles
-- ---------------------------------------------------------------------------

theorem order_of_below_zero {x y : Float} (hx : 0 ≤ x) (hNumber : parts y ≠ .notANumber) (hy : ¬ 0 ≤ y) :
    ¬ x < y ∧ y < x := by
  rw [lt_iff, lt_iff]
  rcases below_zero_cases hNumber hy with hyParts | ⟨m₂, e₂, hm₂, hyParts⟩ <;>
    rcases zero_le_cases hx with ⟨s₁, hxParts⟩ | hxParts | ⟨m₁, e₁, hm₁, hxParts⟩ <;>
      rw [hxParts, hyParts] <;> exact ⟨Bool.false_ne_true, rfl⟩

theorem isNumber_of_zero_le {x : Float} (h : 0 ≤ x) : x.isNaN = false := by
  change (parts x).isNaN = false
  rcases zero_le_cases h with ⟨s, hParts⟩ | hParts | ⟨m, e, hm, hParts⟩ <;> rw [hParts] <;> rfl

/-- The larger of two doubles is not below zero when the first one is not. -/
theorem zero_le_larger {x : Float} (hx : 0 ≤ x) (y : Float) : 0 ≤ Scalar.larger x y := by
  change 0 ≤ Scalar.largerFloat x y
  unfold Scalar.largerFloat
  rw [isNumber_of_zero_le hx, if_neg Bool.false_ne_true]
  by_cases hyZero : 0 ≤ y
  · repeat' split
    all_goals first
      | exact hx
      | exact hyZero
  · split
    · exact hx
    · rename_i hNumber
      have hyNumber : parts y ≠ .notANumber := by
        intro hNone
        refine hNumber ?_
        change (parts y).isNaN = true
        rw [hNone]
        rfl
      obtain ⟨hNotLess, hGreater⟩ := order_of_below_zero hx hyNumber hyZero
      rw [if_neg hNotLess, if_pos hGreater]
      exact hx

-- ---------------------------------------------------------------------------
-- Counts
-- ---------------------------------------------------------------------------

theorem parts_mul (x y : Float) : parts (x * y) = repack (mul .binary64 (parts x) (parts y)) := rfl

theorem parts_toFloat (n : UInt64) : parts n.toFloat = repack (ofNat .binary64 n.toNat) := rfl

/-- Multiplication by one stays within the range, if there is room for the product to be rounded. -/
theorem finite_mul_one {x y : Float} (hx : UpTo 970 (parts x)) (hy : parts y = parts 1) :
    (x * y).isFinite = true := by
  rw [isFinite_iff, parts_mul, hy, parts_one]
  refine finite_repack ?_
  cases hxParts : parts x with
  | notANumber | infinity s =>
    rw [hxParts] at hx
    exact hx.elim
  | zero s => trivial
  | finite s m e hm =>
    rw [hxParts] at hx
    have hExponent : e ≤ 970 := hx
    obtain ⟨hBits, hLow, -⟩ := canonical hxParts
    have hProduct : m * 2 ^ 52 < (2 ^ 53 - 1) * 2 ^ 53 := by omega
    have hWithin := upTo_roundWithAccuracy (s * .positive) (by decide) hProduct
      (show -1074 ≤ e + -52 + (53 : Nat) by omega) .exact
    exact hWithin.mono (by omega)

/-- A count that is read as a double is rounded. -/
theorem ofScientific_count {n : Nat} (hPos : 0 < n) :
    ofScientific .binary64 n 0 = roundWithAccuracy .binary64 .positive (n * 2 ^ 53) (-53) .exact := by
  have hPower : (2 : Int) ^ Format.binary64.exponentBits = 2048 := by decide
  have hBits : Format.mantissaBits .binary64 = 53 := rfl
  unfold ofScientific
  rw [dif_neg hPos.ne', if_neg (by decide), hPower, if_neg (by omega), if_pos le_rfl]
  dsimp only [mul]
  rw [hBits, Nat.shiftLeft_eq, Int.toNat_zero, Nat.pow_zero, Nat.mul_one]
  rfl

/-- What a number of 64 bits is rounded to is within the range. -/
theorem upTo_count {n : Nat} (h : n ≤ maxUInt64) :
    UpTo 12 (roundWithAccuracy .binary64 .positive (n * 2 ^ 53) (-53) .exact) := by
  have hCount : n < 2 ^ 64 := Nat.lt_succ_of_le h
  exact upTo_roundWithAccuracy (k := 65) .positive (show 2 ^ 53 - 1 < 2 ^ 53 by decide) (by omega) (by decide) .exact

/-- A number of 64 bits is a finite double. -/
theorem finite_ofNat {n : Nat} (h : n ≤ maxUInt64) : (Float.ofNat n).isFinite = true := by
  change (Float.ofScientific n false 0).isFinite = true
  have hCount : n < 2 ^ 64 := Nat.lt_succ_of_le h
  unfold Float.ofScientific
  split
  · rename_i hSmall
    refine finite_mul_one ?_ rfl
    rw [parts_toFloat]
    refine upTo_repack (by decide) (by decide) ?_
    have hNat : n.toUInt64.toNat = n := UInt64.toNat_ofNat_of_lt hCount
    rw [hNat]
    have hWithin := upTo_normalize (m := n) (k := 12) (e := 0) .positive (show 2 ^ 53 - 1 < 2 ^ 53 by decide)
      (show (n : Int).natAbs < (2 ^ 53 - 1) * 2 ^ 12 by omega) (by decide)
    exact hWithin.mono (by decide)
  · rename_i hLong
    change (repack (ofScientific .binary64 n 0)).isFinite = true
    rw [ofScientific_count (by omega)]
    exact finite_repack ((upTo_count h).mono (by decide))

end PlanReplay.Double
