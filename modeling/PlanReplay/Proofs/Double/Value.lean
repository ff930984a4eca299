import PlanReplay.Proofs.Double.Range

/-!
# Doubles as rational numbers

A finite double stands for a rational number. Its parts are canonical, that is, no other parts within the format have
the same value, and so doubles compare as the numbers they stand for, and a result that is a double already is not
rounded.

* `Double.value`, `Double.IsCanonical` — the number that parts stand for, and the parts of doubles.
* `Double.lt_iff_value`, `Double.le_iff_value` — doubles compare as their numbers.
* `Double.canonical_round`, `Double.repack_canonical` — results are canonical, and written without a change.
* `Double.round_exact`, `Double.value_normalize_le` — what is a double already is not rounded, and rounding leads above
  no double that is not exceeded.
* `Double.sub_le` — less something is no more.
* `Double.ofNat_add_one`, `Double.ofNat_sub_one` — counting is exact below `2 ^ 53`.
* `Double.add_neg` — the sum with a negative double is the difference.
-/

namespace PlanReplay.Double

open Float.Model (Format totalExponent)
open Float.Model.UnpackedFloat

-- ---------------------------------------------------------------------------
-- Canonical parts
-- ---------------------------------------------------------------------------

/-- A mantissa and an exponent as the format writes them: 53 bits, or fewer at the smallest exponent. -/
def Fits (m : Nat) (e : Int) : Prop := m < 2 ^ 53 ∧ -1074 ≤ e ∧ (e = -1074 ∨ 2 ^ 52 ≤ m)

/-- Finite parts as the format writes them. The exponent may be too large. -/
def IsCanonical : Float.Model.UnpackedFloat → Prop
  | .zero _ => True
  | .finite _ m e _ => Fits m e
  | .infinity _ | .notANumber => False

theorem isCanonical_parts {x : Float} (h : x.isFinite = true) : IsCanonical (parts x) := by
  rw [isFinite_iff] at h
  cases hParts : parts x with
  | notANumber | infinity s =>
    rw [hParts] at h
    cases h
  | zero s => trivial
  | finite s m e hm => exact canonical hParts

/-- Doubles with the same parts are the same. -/
theorem parts_injective {x y : Float} (h : parts x = parts y) : x = y := by
  have hBits := (unpack_inj_of_valid x.toModel.valid y.toModel.valid).mp h
  exact Float.toBits_inj.mp (UInt64.toBitVec_inj.mp hBits)

/-- Canonical parts that are not out of range are written without a change. -/
theorem repack_canonical {u : Float.Model.UnpackedFloat} (h : IsCanonical u) (hRange : UpTo 971 u) : repack u = u := by
  cases u with
  | notANumber | infinity s => exact h.elim
  | zero s => exact repack_zero s
  | finite s m e hm =>
    obtain ⟨hBits, hLow, hLeading⟩ := h
    have hHigh : e ≤ 971 := hRange
    obtain ⟨b, hb⟩ : ∃ b : Nat, b = (e + 1023 + 52).toNat := ⟨_, rfl⟩
    have hFits : ¬ 2 ^ Format.binary64.exponentBits ≤
        (e + Format.binary64.exponentBias + Format.binary64.mantissaBitsWithoutImplicit).toNat + 1 := by
      change ¬ 2048 ≤ (e + 1023 + 52).toNat + 1
      omega
    unfold repack
    dsimp only [pack]
    rw [if_neg hFits]
    by_cases hNormal : 2 ^ 52 ≤ m
    · have hLog : m.log2 + 1 = Format.binary64.mantissaBits :=
        congrArg (· + 1) ((Nat.log2_eq_iff hm.ne').mpr ⟨hNormal, hBits⟩)
      have hExponent : (BitVec.ofNat 11 b).toNat = b := by
        rw [BitVec.toNat_ofNat]
        omega
      have hMantissa : (1#1 ++ BitVec.ofNat 52 m).toNat = m := by
        have hLeadingBit := Nat.two_pow_add_eq_or_of_lt (BitVec.ofNat 52 m).isLt 1
        rw [BitVec.toNat_append, Nat.shiftLeft_eq]
        change 1 * 2 ^ 52 ||| (BitVec.ofNat 52 m).toNat = m
        rw [Nat.one_mul, ← Nat.mul_one (2 ^ 52), ← hLeadingBit, BitVec.toNat_ofNat]
        omega
      have hNotOnes : BitVec.ofNat 11 b ≠ -1#11 := by
        intro hOnes
        rw [hOnes] at hExponent
        have hLargest : (-1#11 : BitVec 11).toNat = 2047 := rfl
        omega
      have hNotZero : BitVec.ofNat 11 b ≠ 0#11 := by
        intro hZero
        rw [hZero] at hExponent
        have hSmallest : (0#11 : BitVec 11).toNat = 0 := rfl
        omega
      rw [if_pos hLog]
      change unpack .binary64 (packComponents .binary64 s (BitVec.ofNat 11 (e + 1023 + 52).toNat)
        (BitVec.ofNat 52 m)) = _
      rw [← hb]
      unfold unpack
      simp only [unpackSign_packComponents, unpackExponent_packComponents, unpackMantissa_packComponents,
        ofBitVec_toBitVec, if_neg hNotOnes, if_neg hNotZero, hMantissa, hExponent]
      congr 1
      change (b : Int) - (1023 + 52 : Nat) = e
      omega
    · obtain rfl : e = -1074 := hLeading.resolve_right hNormal
      have hLog : ¬ m.log2 + 1 = Format.binary64.mantissaBits := by
        intro hLog
        exact hNormal ((Nat.log2_eq_iff hm.ne').mp (Nat.succ.inj hLog)).1
      have hMantissa : (BitVec.ofNat 52 m).toNat = m := by
        rw [BitVec.toNat_ofNat]
        omega
      have hNotZero : BitVec.ofNat 52 m ≠ 0#52 := by
        intro hZero
        rw [hZero] at hMantissa
        exact hm.ne hMantissa
      have hNotOnes : (0#11 : BitVec 11) ≠ -1#11 := by decide
      rw [if_neg hLog]
      unfold unpack
      simp only [unpackSign_packComponents, unpackExponent_packComponents, unpackMantissa_packComponents,
        ofBitVec_toBitVec, if_neg hNotOnes, if_pos, dif_neg hNotZero, hMantissa]
      rfl

-- ---------------------------------------------------------------------------
-- Values
-- ---------------------------------------------------------------------------

/-- The number that parts stand for. What is infinite or no number counts as zero. -/
def value : Float.Model.UnpackedFloat → ℚ
  | .finite s m e _ => (s.apply m : ℤ) * 2 ^ e
  | .zero _ | .infinity _ | .notANumber => 0

@[simp] theorem value_zero (s : Sign) : value (.zero s) = 0 := rfl

@[simp] theorem value_positive (m : Nat) (e : Int) (hm : 0 < m) : value (.finite .positive m e hm) = m * 2 ^ e := by
  simp only [value, Sign.apply, Int.cast_natCast]

@[simp] theorem value_negative (m : Nat) (e : Int) (hm : 0 < m) : value (.finite .negative m e hm) = -(m * 2 ^ e) := by
  simp only [value, Sign.apply, Int.cast_neg, Int.cast_natCast, neg_mul]

theorem magnitude_pos {m : Nat} (e : Int) (hm : 0 < m) : (0 : ℚ) < m * 2 ^ e :=
  mul_pos (Nat.cast_pos.mpr hm) (zpow_pos two_pos e)

/-- Mantissas count only where the exponents are the same: a mantissa at a larger exponent has its leading bit. -/
theorem magnitude_lt {m m' : Nat} {e e' : Int} (h : Fits m e) (h' : Fits m' e') (hLess : e < e' ∨ e = e' ∧ m < m') :
    (m : ℚ) * 2 ^ e < m' * 2 ^ e' := by
  rcases hLess with hExponent | ⟨rfl, hMantissa⟩
  · have hLeading : 2 ^ 52 ≤ m' := h'.2.2.resolve_left (ne_of_gt (lt_of_le_of_lt h.2.1 hExponent))
    calc (m : ℚ) * 2 ^ e
        < 2 ^ (53 : ℤ) * 2 ^ e := mul_lt_mul_of_pos_right (mod_cast h.1) (zpow_pos two_pos e)
      _ = 2 ^ (53 + e) := (zpow_add₀ two_ne_zero 53 e).symm
      _ ≤ 2 ^ (52 + e') := zpow_le_zpow_right₀ one_le_two (by omega)
      _ = 2 ^ (52 : ℤ) * 2 ^ e' := zpow_add₀ two_ne_zero 52 e'
      _ ≤ m' * 2 ^ e' := mul_le_mul_of_nonneg_right (mod_cast hLeading) (zpow_pos two_pos e').le
  · exact mul_lt_mul_of_pos_right (Nat.cast_lt.mpr hMantissa) (zpow_pos two_pos e)

/-- Exponents and mantissas compare as the numbers do. -/
theorem compare_magnitude {m m' : Nat} {e e' : Int} (h : Fits m e) (h' : Fits m' e') :
    (compare e e').then (compare m m') = compare ((m : ℚ) * 2 ^ e) (m' * 2 ^ e') := by
  rcases lt_trichotomy e e' with hExponent | rfl | hExponent
  · rw [Int.compare_eq_lt.mpr hExponent, compare_lt_iff_lt.mpr (magnitude_lt h h' (Or.inl hExponent))]
    rfl
  · rw [show compare e e = .eq from Std.ReflCmp.compare_self]
    rcases lt_trichotomy m m' with hMantissa | rfl | hMantissa
    · rw [compare_lt_iff_lt.mpr (magnitude_lt h h' (Or.inr ⟨rfl, hMantissa⟩)), Nat.compare_eq_lt.mpr hMantissa]
      rfl
    · rw [compare_eq_iff_eq.mpr rfl, compare_eq_iff_eq.mpr rfl]
      rfl
    · rw [compare_gt_iff_gt.mpr (magnitude_lt h' h (Or.inr ⟨rfl, hMantissa⟩)), Nat.compare_eq_gt.mpr hMantissa]
      rfl
  · rw [Int.compare_eq_gt.mpr hExponent, compare_gt_iff_gt.mpr (magnitude_lt h' h (Or.inl hExponent))]
    rfl

/-- A magnitude has one mantissa and one exponent. -/
theorem magnitude_injective {m m' : Nat} {e e' : Int} (h : Fits m e) (h' : Fits m' e')
    (hSame : (m : ℚ) * 2 ^ e = m' * 2 ^ e') : m = m' ∧ e = e' := by
  have hNotLess := mt (magnitude_lt h h') hSame.not_lt
  have hNotMore := mt (magnitude_lt h' h) hSame.symm.not_lt
  omega

/-- Below zero the order is turned round. -/
theorem swap_compare (a b : ℚ) : (compare a b).swap = compare (-a) (-b) := by
  rcases lt_trichotomy a b with hLess | rfl | hGreater
  · rw [compare_lt_iff_lt.mpr hLess, compare_gt_iff_gt.mpr (neg_lt_neg hLess)]
    rfl
  · rw [compare_eq_iff_eq.mpr rfl, compare_eq_iff_eq.mpr rfl]
    rfl
  · rw [compare_gt_iff_gt.mpr hGreater, compare_lt_iff_lt.mpr (neg_lt_neg hGreater)]
    rfl

/-- Canonical parts compare as their values. -/
theorem compare_eq {u v : Float.Model.UnpackedFloat} (hu : IsCanonical u) (hv : IsCanonical v) :
    u.compare v = some (compare (value u) (value v)) := by
  cases u with
  | notANumber | infinity s => exact hu.elim
  | zero s =>
    cases v with
    | notANumber | infinity s' => exact hv.elim
    | zero s' =>
      rw [value_zero, value_zero, compare_eq_iff_eq.mpr rfl]
      rfl
    | finite s' m' e' hm' =>
      have hPos := magnitude_pos e' hm'
      cases s'
      · rw [value_zero, value_negative, compare_gt_iff_gt.mpr (neg_lt_zero.mpr hPos)]
        rfl
      · rw [value_zero, value_positive, compare_lt_iff_lt.mpr hPos]
        rfl
  | finite s m e hm =>
    have hPos := magnitude_pos e hm
    cases v with
    | notANumber | infinity s' => exact hv.elim
    | zero s' =>
      cases s
      · rw [value_zero, value_negative, compare_lt_iff_lt.mpr (neg_lt_zero.mpr hPos)]
        rfl
      · rw [value_zero, value_positive, compare_gt_iff_gt.mpr hPos]
        rfl
    | finite s' m' e' hm' =>
      have hPos' := magnitude_pos e' hm'
      have hSame := compare_magnitude hu hv
      cases s <;> cases s'
      · rw [value_negative, value_negative, ← swap_compare, ← hSame]
        rfl
      · rw [value_negative, value_positive, compare_lt_iff_lt.mpr (by linarith)]
        rfl
      · rw [value_negative, value_positive, compare_gt_iff_gt.mpr (by linarith)]
        rfl
      · rw [value_positive, value_positive, ← hSame]
        rfl

/-- Finite doubles are in the order of the numbers they stand for. -/
theorem lt_iff_value {x y : Float} (hx : x.isFinite = true) (hy : y.isFinite = true) :
    x < y ↔ value (parts x) < value (parts y) := by
  rw [lt_iff, compare_eq (isCanonical_parts hx) (isCanonical_parts hy), beq_iff_eq, Option.some.injEq,
    compare_lt_iff_lt]

theorem le_iff_value {x y : Float} (hx : x.isFinite = true) (hy : y.isFinite = true) :
    x ≤ y ↔ value (parts x) ≤ value (parts y) := by
  rw [le_iff, compare_eq (isCanonical_parts hx) (isCanonical_parts hy), Option.any_some, Ordering.isLE_iff_ne_gt]
  exact compare_le_iff_le

/-- Finite doubles are in a total order. -/
theorem not_lt_iff_le {x y : Float} (hx : x.isFinite = true) (hy : y.isFinite = true) : ¬ y < x ↔ x ≤ y := by
  rw [lt_iff_value hy hx, le_iff_value hx hy, not_lt]

-- ---------------------------------------------------------------------------
-- Results are canonical
-- ---------------------------------------------------------------------------

/-- The exponent to which a number is brought. -/
theorem targetExponent_eq (m : Nat) (e : Int) :
    Format.targetExponent .binary64 (totalExponent m e) = max (m.log2 + 1 + e - 53) (-1074) :=
  rfl

/-- A number with enough places is brought to a mantissa of 53 bits, or to the smallest exponent. -/
theorem fits_shiftToTargetExponent {m : Nat} {e : Int} (hPlaces : e ≤ max (m.log2 + 1 + e - 53) (-1074 : Int))
    (accuracy : Accuracy) :
    Fits (shiftToTargetExponent .binary64 m e accuracy).1.mantissa
      (shiftToTargetExponent .binary64 m e accuracy).2 := by
  obtain ⟨n, hn⟩ : ∃ n, n = (max (m.log2 + 1 + e - 53) (-1074 : Int) - e).toNat := ⟨_, rfl⟩
  have hMantissa : (shiftToTargetExponent .binary64 m e accuracy).1.mantissa = m / 2 ^ n := by
    unfold shiftToTargetExponent shiftToExponent
    dsimp only
    rw [mantissa_shiftRight, mantissa_ofMantissaAndAccuracy, targetExponent_eq, ← hn]
  have hExponent : (shiftToTargetExponent .binary64 m e accuracy).2 = e + n := by
    unfold shiftToTargetExponent shiftToExponent
    dsimp only
    rw [targetExponent_eq, ← hn]
  rw [hMantissa, hExponent]
  refine ⟨?_, by omega, ?_⟩
  · rw [Nat.div_lt_iff_lt_mul (Nat.two_pow_pos n), ← Nat.pow_add]
    exact Nat.lt_log2_self.trans_le (Nat.pow_le_pow_right two_pos (by omega))
  · by_cases hSmallest : e + n = -1074
    · exact Or.inl hSmallest
    · right
      -- above the smallest exponent nothing but the places after the leading 53 bits is dropped
      have hZero : m ≠ 0 := by
        rintro rfl
        rw [Nat.log2_zero] at hPlaces hn
        omega
      rw [Nat.le_div_iff_mul_le (Nat.two_pow_pos n), ← Nat.pow_add]
      exact (Nat.pow_le_pow_right two_pos (by omega)).trans (Nat.log2_self_le hZero)

theorem le_roundedMantissa (em : ExtendedMantissa) : em.mantissa ≤ em.roundedMantissa := by
  obtain ⟨m, roundBit, stickyBit⟩ := em
  cases roundBit <;> cases stickyBit <;>
    simp only [ExtendedMantissa.roundedMantissa, ExtendedMantissa.accuracy, Accuracy.roundToNearestEven]
  all_goals omega

/-- What is rounded is canonical, if it has enough places. -/
theorem canonical_roundWithAccuracy (s : Sign) {m : Nat} {e : Int} (accuracy : Accuracy)
    (hPlaces : e ≤ max (m.log2 + 1 + e - 53) (-1074 : Int)) :
    IsCanonical (roundWithAccuracy .binary64 s m e accuracy) := by
  obtain ⟨-, hLow, hLeading⟩ := fits_shiftToTargetExponent hPlaces accuracy
  unfold roundWithAccuracy
  dsimp only
  generalize shiftToTargetExponent .binary64 m e accuracy = first at hLow hLeading ⊢
  have hRounded := le_roundedMantissa first.1
  have hSecond : first.2 ≤ max (first.1.roundedMantissa.log2 + 1 + first.2 - 53) (-1074 : Int) := by
    rcases hLeading with hSmallest | hLeading
    · omega
    · have hLog : 52 ≤ first.1.roundedMantissa.log2 := by
        rw [Nat.le_log2 (by omega)]
        exact hLeading.trans hRounded
      omega
  split
  · trivial
  · exact fits_shiftToTargetExponent hSecond .exact

theorem log2_mul_two_pow {m : Nat} (hm : 0 < m) (k : Nat) : (m * 2 ^ k).log2 = m.log2 + k := by
  rw [Nat.log2_eq_iff (Nat.mul_pos hm (Nat.two_pow_pos k)).ne']
  constructor
  · rw [Nat.pow_add]
    exact Nat.mul_le_mul_right _ (Nat.log2_self_le hm.ne')
  · rw [Nat.add_right_comm, Nat.pow_add]
    exact Nat.mul_lt_mul_of_pos_right Nat.lt_log2_self (Nat.two_pow_pos k)

/-- What is rounded is canonical. -/
theorem canonical_round (s : Sign) {m : Nat} (e : Int) (hm : 0 < m) :
    IsCanonical (Float.Model.UnpackedFloat.round .binary64 s m e) := by
  unfold Float.Model.UnpackedFloat.round decreaseExponent
  dsimp only
  rw [targetExponent_eq, Nat.shiftLeft_eq]
  refine canonical_roundWithAccuracy s .exact ?_
  rw [log2_mul_two_pow hm]
  omega

theorem canonical_normalize (m : Int) (e : Int) (zeroSign : Sign) :
    IsCanonical (Float.Model.UnpackedFloat.normalize .binary64 m e zeroSign) := by
  unfold Float.Model.UnpackedFloat.normalize
  split
  · rename_i hOrder
    exact canonical_round _ e (by have := Int.compare_eq_lt.mp hOrder; omega)
  · trivial
  · rename_i hOrder
    exact canonical_round _ e (by have := Int.compare_eq_gt.mp hOrder; omega)

-- ---------------------------------------------------------------------------
-- Rounding
-- ---------------------------------------------------------------------------

/-- Zeros are dropped without a trace. -/
theorem shiftRight_exact (m n : Nat) :
    (ExtendedMantissa.ofMantissaAndAccuracy (m * 2 ^ n) .exact) >>> n = ⟨m, false, false⟩ := by
  induction n generalizing m with
  | zero => exact congrArg (fun m => ExtendedMantissa.mk m false false) (Nat.mul_one m)
  | succ n ih =>
    have hSplit : m * 2 ^ (n + 1) = m * 2 * 2 ^ n := by rw [Nat.pow_succ, Nat.mul_assoc, Nat.mul_comm 2]
    change ExtendedMantissa.shiftRightOne
      (ExtendedMantissa.ofMantissaAndAccuracy (m * 2 ^ (n + 1)) .exact >>> n) = _
    rw [hSplit, ih]
    simp [ExtendedMantissa.shiftRightOne]

/-- Bits that fit are not changed. -/
theorem shiftToTargetExponent_exact {m : Nat} {e : Int} (hm : 0 < m) (h : Fits m e) (k : Nat) :
    shiftToTargetExponent .binary64 (m * 2 ^ k) (e - k) .exact = (⟨m, false, false⟩, e) := by
  have hLog : m.log2 < 53 := (Nat.log2_lt hm.ne').mpr h.1
  have hLeading : e = -1074 ∨ 52 ≤ m.log2 := h.2.2.imp_right (Nat.le_log2 hm.ne').mpr
  have hLow := h.2.1
  have hTarget : (max ((m * 2 ^ k).log2 + 1 + (e - k) - 53) (-1074 : Int) - (e - k)).toNat = k := by
    rw [log2_mul_two_pow hm]
    push_cast
    omega
  unfold shiftToTargetExponent shiftToExponent
  dsimp only
  rw [targetExponent_eq, hTarget, shiftRight_exact, Int.sub_add_cancel]

/-- What is canonical already is not rounded. -/
theorem roundWithAccuracy_exact (s : Sign) {m : Nat} {e : Int} (hm : 0 < m) (h : Fits m e) (k : Nat) :
    roundWithAccuracy .binary64 s (m * 2 ^ k) (e - k) .exact = .finite s m e hm := by
  have hAgain := shiftToTargetExponent_exact hm h 0
  rw [Nat.pow_zero, Nat.mul_one, Int.natCast_zero, Int.sub_zero] at hAgain
  unfold roundWithAccuracy
  rw [shiftToTargetExponent_exact hm h k]
  dsimp only
  have hRounded : (ExtendedMantissa.mk m false false).roundedMantissa = m := rfl
  rw [hRounded, hAgain, dif_neg hm.ne']

/-- A number that has canonical parts is brought to them, whether places are dropped or added. -/
theorem round_exact (s : Sign) {m m' : Nat} {e e' : Int} (hm : 0 < m) (h : Fits m e) {j k : Nat}
    (hMantissa : m' * 2 ^ j = m * 2 ^ k) (hExponent : e' - j = e - k) :
    Float.Model.UnpackedFloat.round .binary64 s m' e' = .finite s m e hm := by
  have hPos : 0 < m' := by
    refine Nat.pos_of_mul_pos_right (b := 2 ^ j) ?_
    rw [hMantissa]
    exact Nat.mul_pos hm (Nat.two_pow_pos k)
  have hLogs : m'.log2 + j = m.log2 + k := by
    rw [← log2_mul_two_pow hPos, ← log2_mul_two_pow hm, hMantissa]
  have hLog : m.log2 < 53 := (Nat.log2_lt hm.ne').mpr h.1
  have hLeading : e = -1074 ∨ 52 ≤ m.log2 := h.2.2.imp_right (Nat.le_log2 hm.ne').mpr
  have hLow := h.2.1
  unfold Float.Model.UnpackedFloat.round decreaseExponent
  dsimp only
  rw [targetExponent_eq, Nat.shiftLeft_eq]
  have hTarget : (e' - max (m'.log2 + 1 + e' - 53) (-1074 : Int)).toNat = j - k := by omega
  rw [hTarget]
  rcases Nat.le_total j k with hMore | hLess
  · have hSame : m' = m * 2 ^ (k - j) := by
      refine Nat.eq_of_mul_eq_mul_right (Nat.two_pow_pos j) ?_
      rw [hMantissa, Nat.mul_assoc, ← Nat.pow_add, Nat.sub_add_cancel hMore]
    have hPlace : e' - ((j - k : Nat) : Int) = e - ((k - j : Nat) : Int) := by omega
    rw [Nat.sub_eq_zero_of_le hMore, Nat.pow_zero, Nat.mul_one, ← Nat.sub_eq_zero_of_le hMore, hPlace, hSame]
    exact roundWithAccuracy_exact s hm h (k - j)
  · have hSame : m' * 2 ^ (j - k) = m * 2 ^ 0 := by
      refine Nat.eq_of_mul_eq_mul_right (Nat.two_pow_pos k) ?_
      rw [Nat.mul_assoc, ← Nat.pow_add, Nat.sub_add_cancel hLess, hMantissa, Nat.pow_zero, Nat.mul_one]
    have hPlace : e' - ((j - k : Nat) : Int) = e - (0 : Nat) := by omega
    rw [hSame, hPlace]
    exact roundWithAccuracy_exact s hm h 0

/-- Rounding leads above no mantissa, at any number of places, that is not exceeded. -/
theorem roundedMantissa_le_of_le {m bound k n : Nat} (hm : m ≤ bound * 2 ^ k) (hn : n ≤ k) :
    ((ExtendedMantissa.ofMantissaAndAccuracy m .exact) >>> n).roundedMantissa ≤ bound * 2 ^ (k - n) := by
  have hPlaces : bound * 2 ^ k = bound * 2 ^ (k - n) * 2 ^ n := by
    rw [Nat.mul_assoc, ← Nat.pow_add, Nat.sub_add_cancel hn]
  rw [hPlaces] at hm
  rcases hm.lt_or_eq with hBelow | rfl
  · refine (roundedMantissa_le _).trans ?_
    rw [mantissa_shiftRight, mantissa_ofMantissaAndAccuracy]
    exact (Nat.div_lt_iff_lt_mul (Nat.two_pow_pos n)).mpr hBelow
  · rw [shiftRight_exact]
    exact le_rfl

theorem value_roundWithAccuracy_le {m bound k : Nat} {e : Int} (hBound : bound < 2 ^ 53) (hm : m ≤ bound * 2 ^ k)
    (hLow : -1074 ≤ e + k) :
    value (roundWithAccuracy .binary64 .positive m e .exact) ≤ bound * 2 ^ (e + k) := by
  have hBits : m < 2 ^ 53 * 2 ^ k := hm.trans_lt (Nat.mul_lt_mul_of_pos_right hBound (Nat.two_pow_pos k))
  have hLog : m.log2 < 53 + k := by
    rw [← Nat.pow_add] at hBits
    by_cases hZero : m = 0
    · rw [hZero, Nat.log2_zero]
      omega
    · exact (Nat.log2_lt hZero).mpr hBits
  obtain ⟨n, hn⟩ : ∃ n, n = (max (m.log2 + 1 + e - 53) (-1074 : Int) - e).toNat := ⟨_, rfl⟩
  have hShort : n ≤ k := by omega
  have hRounded := roundedMantissa_le_of_le hm hShort
  unfold roundWithAccuracy shiftToTargetExponent shiftToExponent
  dsimp only
  rw [targetExponent_eq, ← hn]
  generalize ((ExtendedMantissa.ofMantissaAndAccuracy m .exact) >>> n).roundedMantissa = rounded at hRounded ⊢
  rw [mantissa_shiftRight, mantissa_ofMantissaAndAccuracy]
  generalize (Format.targetExponent .binary64 (totalExponent rounded (e + n)) - (e + n)).toNat = n'
  split
  · rw [value_zero]
    positivity
  · rw [value_positive]
    have hDropped : ((rounded / 2 ^ n' : Nat) : ℚ) * 2 ^ n' ≤ rounded := mod_cast Nat.div_mul_le_self rounded (2 ^ n')
    have hPlaces : (e + n) + ((k - n : Nat) : ℤ) = e + k := by omega
    calc ((rounded / 2 ^ n' : Nat) : ℚ) * 2 ^ (e + n + n')
        = ((rounded / 2 ^ n' : Nat) : ℚ) * 2 ^ n' * 2 ^ (e + n) := by
          rw [add_comm (e + n : ℤ), zpow_add₀ two_ne_zero, zpow_natCast, mul_assoc]
      _ ≤ rounded * 2 ^ (e + n) := mul_le_mul_of_nonneg_right hDropped (zpow_pos two_pos _).le
      _ ≤ (bound * 2 ^ (k - n) : Nat) * 2 ^ (e + n) :=
          mul_le_mul_of_nonneg_right (Nat.cast_le.mpr hRounded) (zpow_pos two_pos _).le
      _ = bound * 2 ^ (e + k) := by
          rw [← hPlaces, zpow_add₀ two_ne_zero (e + n : ℤ), zpow_natCast]
          push_cast
          ring

/-- What has the sign bit is not above zero. -/
theorem value_nonpos {u : Float.Model.UnpackedFloat} (h : HasSign .negative u) : value u ≤ 0 := by
  cases u with
  | notANumber | infinity s | zero s => exact le_rfl
  | finite s m e hm =>
    obtain rfl : s = .negative := h
    rw [value_negative]
    exact (neg_lt_zero.mpr (magnitude_pos e hm)).le

/-- A number that does not exceed a mantissa at an exponent is rounded to one that does not. -/
theorem value_normalize_le {m : Int} {bound k : Nat} {e : Int} (zeroSign : Sign) (hBound : bound < 2 ^ 53)
    (hm : m ≤ bound * 2 ^ k) (hLow : -1074 ≤ e + k) :
    value (Float.Model.UnpackedFloat.normalize .binary64 m e zeroSign) ≤ bound * 2 ^ (e + k) := by
  have hBoundPos : (0 : ℚ) ≤ bound * 2 ^ (e + k) := by positivity
  unfold Float.Model.UnpackedFloat.normalize
  split
  · refine le_trans (value_nonpos ?_) hBoundPos
    exact hasSign_round _ _ _ _
  · exact hBoundPos
  · unfold Float.Model.UnpackedFloat.round decreaseExponent
    dsimp only
    obtain ⟨j, hj⟩ : ∃ j, j = (e - Format.targetExponent .binary64 (totalExponent m.toNat e)).toNat := ⟨_, rfl⟩
    have hMantissa : m.toNat ≤ bound * 2 ^ k := Int.toNat_le.mpr (by exact_mod_cast hm)
    have hShifted : m.toNat * 2 ^ j ≤ bound * 2 ^ (k + j) := by
      rw [Nat.pow_add, ← Nat.mul_assoc]
      exact Nat.mul_le_mul_right _ hMantissa
    have hPlaces : e - j + ((k + j : Nat) : Int) = e + k := by omega
    rw [← hj, Nat.shiftLeft_eq, ← hPlaces]
    exact value_roundWithAccuracy_le hBound hShifted (by omega)

-- ---------------------------------------------------------------------------
-- Differences
-- ---------------------------------------------------------------------------

/-- A difference of finite parts is canonical. -/
theorem canonical_sub {u v : Float.Model.UnpackedFloat} (hu : IsCanonical u) (hv : IsCanonical v) :
    IsCanonical (sub .binary64 u v) := by
  cases u with
  | notANumber | infinity s => exact hu.elim
  | zero s =>
    cases v with
    | notANumber | infinity s' => exact hv.elim
    | zero s' => cases s <;> cases s' <;> trivial
    | finite s' m' e' hm' => exact hv
  | finite s m e hm =>
    cases v with
    | notANumber | infinity s' => exact hv.elim
    | zero s' => exact hu
    | finite s' m' e' hm' => exact canonical_normalize _ _ _

/-- The difference of two doubles that are not below zero is written without a change. -/
theorem parts_sub_of_nonneg {x y : Float} (hx : x.isFinite = true) (hy : y.isFinite = true) (hxZero : 0 ≤ x)
    (hyZero : 0 ≤ y) : parts (x - y) = sub .binary64 (parts x) (parts y) := by
  rw [parts_sub]
  exact repack_canonical (canonical_sub (isCanonical_parts hx) (isCanonical_parts hy))
    (upTo_sub_parts hx hy hxZero hyZero)

/-- **Less something is no more.** Although the difference is rounded, it does not exceed the double from which
another one is taken, if both are not below zero. -/
theorem sub_le {x y : Float} (hx : x.isFinite = true) (hy : y.isFinite = true) (hxZero : 0 ≤ x) (hyZero : 0 ≤ y) :
    x - y ≤ x := by
  rw [le_iff_value (finite_sub hx hy hxZero hyZero) hx, parts_sub_of_nonneg hx hy hxZero hyZero]
  have hxFits := isCanonical_parts hx
  have hyFits := isCanonical_parts hy
  rcases zero_le_cases hyZero with ⟨s₂, hyParts⟩ | hyParts | ⟨m₂, e₂, hm₂, hyParts⟩
  · rcases zero_le_cases hxZero with ⟨s₁, hxParts⟩ | hxParts | ⟨m₁, e₁, hm₁, hxParts⟩
    · rw [hxParts, hyParts]
      cases s₁ <;> cases s₂ <;> exact le_rfl
    · rw [hxParts] at hxFits
      exact hxFits.elim
    · rw [hxParts, hyParts]
      exact le_rfl
  · rw [hyParts] at hyFits
    exact hyFits.elim
  · rcases zero_le_cases hxZero with ⟨s₁, hxParts⟩ | hxParts | ⟨m₁, e₁, hm₁, hxParts⟩
    · rw [hxParts, hyParts]
      exact value_nonpos rfl
    · rw [hxParts] at hxFits
      exact hxFits.elim
    · rw [hxParts] at hxFits
      rw [hxParts, hyParts, value_positive]
      obtain ⟨k₁, hk₁⟩ : ∃ k₁, k₁ = (e₁ - min e₁ e₂).toNat := ⟨_, rfl⟩
      obtain ⟨k₂, hk₂⟩ : ∃ k₂, k₂ = (e₂ - min e₁ e₂).toNat := ⟨_, rfl⟩
      have hPlaces : e₁ = min e₁ e₂ + k₁ := by omega
      unfold sub decreaseExponent
      dsimp only [Sign.apply]
      rw [← hk₁, ← hk₂, Nat.shiftLeft_eq, Nat.shiftLeft_eq]
      have hMantissa : ((m₁ * 2 ^ k₁ : Nat) : Int) - (m₂ * 2 ^ k₂ : Nat) ≤ m₁ * 2 ^ k₁ := by
        push_cast
        have hSecond : (0 : Int) ≤ m₂ * 2 ^ k₂ := by positivity
        omega
      refine (value_normalize_le .positive hxFits.1 hMantissa (hPlaces ▸ hxFits.2.1)).trans_eq ?_
      rw [← hPlaces]

-- ---------------------------------------------------------------------------
-- Counting
-- ---------------------------------------------------------------------------

/-- The number of places by which a count is shifted to have 53 bits. -/
def countPlaces (n : Nat) : Nat := 52 - n.log2

theorem fits_count {n : Nat} (hPos : 0 < n) (hBits : n < 2 ^ 53) : Fits (n * 2 ^ countPlaces n) (-countPlaces n) := by
  have hLog : n.log2 < 53 := (Nat.log2_lt hPos.ne').mpr hBits
  have hLeading : (n * 2 ^ countPlaces n).log2 = 52 := by
    rw [log2_mul_two_pow hPos, countPlaces]
    omega
  obtain ⟨hLow, hHigh⟩ := (Nat.log2_eq_iff (Nat.mul_pos hPos (Nat.two_pow_pos _)).ne').mp hLeading
  refine ⟨hHigh, ?_, Or.inr hLow⟩
  rw [countPlaces]
  omega

/-- A count is written as a mantissa of 53 bits. -/
theorem normalize_count {n : Nat} (hPos : 0 < n) (hBits : n < 2 ^ 53) {m : Int} {e : Int} {k : Nat}
    (hMantissa : m = n * 2 ^ k) (hExponent : e + k = 0) (zeroSign : Sign) :
    Float.Model.UnpackedFloat.normalize .binary64 m e zeroSign =
      .finite .positive (n * 2 ^ countPlaces n) (-countPlaces n) (Nat.mul_pos hPos (Nat.two_pow_pos _)) := by
  have hNat : m = (n * 2 ^ k : Nat) := by
    rw [hMantissa]
    push_cast
    rfl
  have hAbove : (0 : Int) < m := by
    rw [hNat]
    exact Int.natCast_pos.mpr (Nat.mul_pos hPos (Nat.two_pow_pos k))
  unfold Float.Model.UnpackedFloat.normalize
  rw [Int.compare_eq_gt.mpr hAbove]
  dsimp only
  rw [hNat, Int.toNat_natCast]
  refine round_exact .positive _ (fits_count hPos hBits) (j := countPlaces n) (k := k) (Nat.mul_right_comm _ _ _) ?_
  omega

/-- A count is converted without a change. -/
theorem parts_toUInt64 {n : Nat} (hPos : 0 < n) (hBits : n < 2 ^ 53) :
    parts n.toUInt64.toFloat =
      .finite .positive (n * 2 ^ countPlaces n) (-countPlaces n) (Nat.mul_pos hPos (Nat.two_pow_pos _)) := by
  have hPlaces : countPlaces n ≤ 52 := Nat.sub_le _ _
  have hUnchanged := repack_canonical (u := .finite .positive (n * 2 ^ countPlaces n) (-countPlaces n)
    (Nat.mul_pos hPos (Nat.two_pow_pos _))) (fits_count hPos hBits) (show (-countPlaces n : Int) ≤ 971 by omega)
  have hNat : n.toUInt64.toNat = n := UInt64.toNat_ofNat_of_lt (hBits.trans (by decide))
  have hExact := normalize_count hPos hBits (m := n) (e := 0) (k := 0) (by simp) rfl .positive
  rw [parts_toFloat, hNat, ← hUnchanged, ← hExact]
  rfl

/-- A count is its own double. -/
theorem parts_ofNat {n : Nat} (hPos : 0 < n) (hBits : n < 2 ^ 53) :
    parts (Float.ofNat n) =
      .finite .positive (n * 2 ^ countPlaces n) (-countPlaces n) (Nat.mul_pos hPos (Nat.two_pow_pos _)) := by
  have hFits := fits_count hPos hBits
  have hPlaces : countPlaces n ≤ 52 := Nat.sub_le _ _
  have hUnchanged := repack_canonical (u := .finite .positive (n * 2 ^ countPlaces n) (-countPlaces n)
    (Nat.mul_pos hPos (Nat.two_pow_pos _))) hFits (show (-countPlaces n : Int) ≤ 971 by omega)
  change parts (Float.ofScientific n false 0) = _
  unfold Float.ofScientific
  rw [dif_pos ⟨hBits, Nat.zero_le 22⟩]
  -- times one
  change parts (n.toUInt64.toFloat * 1) = _
  rw [parts_mul, parts_toUInt64 hPos hBits, parts_one]
  have hExact := roundWithAccuracy_exact .positive (Nat.mul_pos hPos (Nat.two_pow_pos _)) hFits 52
  exact (congrArg repack hExact).trans hUnchanged

/-- Written as a double, a count is not changed. -/
theorem repack_count {n : Nat} (hPos : 0 < n) (hBits : n < 2 ^ 53) :
    repack (.finite .positive (n * 2 ^ countPlaces n) (-countPlaces n) (Nat.mul_pos hPos (Nat.two_pow_pos _))) =
      parts (Float.ofNat n) := by
  have hPlaces : countPlaces n ≤ 52 := Nat.sub_le _ _
  rw [parts_ofNat hPos hBits]
  exact repack_canonical (fits_count hPos hBits) (show (-countPlaces n : Int) ≤ 971 by omega)

/-- A count and one are brought to the places of one. -/
theorem align_one (n : Nat) :
    (n * 2 ^ countPlaces n) <<< (-(countPlaces n : Int) - min (-(countPlaces n : Int)) (-52)).toNat = n * 2 ^ 52 ∧
    (2 ^ 52) <<< (-52 - min (-(countPlaces n : Int)) (-52)).toNat = 2 ^ 52 ∧
    min (-(countPlaces n : Int)) (-52) = -52 := by
  have hPlaces : countPlaces n ≤ 52 := Nat.sub_le _ _
  have hFirst : (-(countPlaces n : Int) - min (-(countPlaces n : Int)) (-52)).toNat = 52 - countPlaces n := by omega
  have hSecond : (-52 - min (-(countPlaces n : Int)) (-52)).toNat = 0 := by omega
  rw [hFirst, hSecond, Nat.shiftLeft_eq, Nat.mul_assoc, ← Nat.pow_add, Nat.add_sub_cancel' hPlaces]
  exact ⟨rfl, rfl, by omega⟩

/-- **Counting up** is exact below `2 ^ 53`. -/
theorem ofNat_add_one {n : Nat} (hBits : n + 1 < 2 ^ 53) : Float.ofNat n + 1 = Float.ofNat (n + 1) := by
  refine parts_injective ?_
  rw [parts_add, parts_one, ← repack_count n.succ_pos hBits]
  rcases n.eq_zero_or_pos with rfl | hPos
  · rfl
  · rw [parts_ofNat hPos (Nat.lt_of_succ_lt hBits)]
    obtain ⟨hFirst, hSecond, hLowest⟩ := align_one n
    unfold add decreaseExponent
    dsimp only [Sign.apply]
    rw [hFirst, hSecond, hLowest]
    refine congrArg repack (normalize_count (k := 52) n.succ_pos hBits ?_ rfl .positive)
    push_cast
    ring

/-- **Counting down** is exact below `2 ^ 53`. -/
theorem ofNat_sub_one {n : Nat} (hBits : n + 1 < 2 ^ 53) : Float.ofNat (n + 1) - 1 = Float.ofNat n := by
  refine parts_injective ?_
  rw [parts_sub, parts_one, parts_ofNat n.succ_pos hBits]
  obtain ⟨hFirst, hSecond, hLowest⟩ := align_one (n + 1)
  unfold sub decreaseExponent
  dsimp only [Sign.apply]
  rw [hFirst, hSecond, hLowest]
  rcases n.eq_zero_or_pos with rfl | hPos
  · rfl
  · rw [← repack_count hPos (Nat.lt_of_succ_lt hBits)]
    refine congrArg repack (normalize_count (k := 52) hPos (Nat.lt_of_succ_lt hBits) ?_ rfl .positive)
    push_cast
    ring

/-- No count is below zero. -/
theorem zero_le_ofNat {n : Nat} (hBits : n < 2 ^ 53) : 0 ≤ Float.ofNat n := by
  rcases n.eq_zero_or_pos with rfl | hPos
  · exact le_refl_of_finite rfl
  · rw [le_iff, parts_zero, parts_ofNat hPos hBits]
    rfl

-- ---------------------------------------------------------------------------
-- Negative doubles
-- ---------------------------------------------------------------------------

theorem parts_neg (x : Float) : parts (-x) = neg (parts x) := by
  change repack (neg (parts x)) = neg (parts x)
  cases hParts : parts x with
  | notANumber => rfl
  | infinity s => exact repack_infinity _
  | zero s => exact repack_zero _
  | finite s m e hm =>
    have hRange : UpTo 971 (parts x) := upTo_parts (by rw [hParts]; rfl)
    rw [hParts] at hRange
    exact repack_canonical (u := .finite (-s) m e hm) (canonical hParts) hRange

/-- Adding what has its sign turned round is subtraction. -/
theorem add_neg_parts (u v : Float.Model.UnpackedFloat) : add .binary64 u (neg v) = sub .binary64 u v := by
  cases u with
  | notANumber => rfl
  | infinity s | zero s => cases v <;> rfl
  | finite s m e hm =>
    cases v with
    | notANumber | infinity s' | zero s' => rfl
    | finite s' m' e' hm' =>
      cases s' with
      | negative =>
        exact congrArg (fun m => Float.Model.UnpackedFloat.normalize .binary64 m _ .positive) (Int.sub_neg _ _).symm
      | positive => rfl

theorem add_neg (x y : Float) : x + -y = x - y := by
  refine parts_injective ?_
  rw [parts_add, parts_sub, parts_neg, add_neg_parts]

/-- A level that is lowered by something that is not below zero stays finite, and below what it has been below. -/
theorem lowered {x y : Float} (hx : x.isFinite = true) (hy : y.isFinite = true) (hxZero : 0 ≤ x) (hyZero : 0 ≤ y) :
    (x + -y).isFinite = true ∧ ∀ limit : Float, limit.isFinite = true → ¬ limit < x → ¬ limit < x + -y := by
  have hFinite := finite_sub hx hy hxZero hyZero
  rw [add_neg]
  refine ⟨hFinite, ?_⟩
  intro limit hLimit hBelow
  rw [not_lt_iff_le hx hLimit, le_iff_value hx hLimit] at hBelow
  have hLess := (le_iff_value hFinite hx).mp (sub_le hx hy hxZero hyZero)
  rw [not_lt_iff_le hFinite hLimit, le_iff_value hFinite hLimit]
  exact hLess.trans hBelow

end PlanReplay.Double
