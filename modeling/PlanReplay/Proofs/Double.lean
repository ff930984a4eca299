import Mathlib
import PlanReplay.Scalar

/-!
# Quotients of doubles

A part of a length, divided by the length, is a fraction between zero and one, although the division of doubles
rounds. The proof reads the bits of a double as sign, mantissa and exponent, `Double.parts`.

* `Double.Upright` — a sign bit that is not set; it survives division, and it is what keeps a quotient from
  falling below zero.
* `Double.AtMostOne` — a mantissa and an exponent of a number up to one; rounding such a number does not lead
  above one.
* `Double.div_mem_unit` — a part of a length as a fraction of it.
-/

namespace PlanReplay.Double

open Float.Model (Format totalExponent)
open Float.Model.UnpackedFloat

/-- A double as sign, mantissa and exponent. -/
def parts (x : Float) : Float.Model.UnpackedFloat := x.toModel.unpack

/-- What becomes of a result when it is written as a double. -/
def repack (u : Float.Model.UnpackedFloat) : Float.Model.UnpackedFloat := unpack .binary64 (pack .binary64 u)

theorem parts_div (x y : Float) : parts (x / y) = repack (div .binary64 (parts x) (parts y)) := rfl

theorem parts_sub (x y : Float) : parts (x - y) = repack (sub .binary64 (parts x) (parts y)) := rfl

theorem parts_zero : parts 0 = .zero .positive := rfl

theorem parts_one : parts 1 = .finite .positive (2 ^ 52) (-52) (by decide) := rfl

theorem le_iff {x y : Float} : x ≤ y ↔ ((parts x).compare (parts y)).any (·.isLE) = true := decide_eq_true_iff

theorem lt_iff {x y : Float} : x < y ↔ ((parts x).compare (parts y) == some .lt) = true := decide_eq_true_iff

@[simp] theorem repack_notANumber : repack .notANumber = .notANumber := rfl

@[simp] theorem repack_infinity (s : Sign) : repack (.infinity s) = .infinity s := by
  cases s <;> rfl

@[simp] theorem repack_zero (s : Sign) : repack (.zero s) = .zero s := by
  cases s <;> rfl

-- ---------------------------------------------------------------------------
-- Signs
-- ---------------------------------------------------------------------------

/-- The sign bit is that of `s`. What is no number has either sign. -/
def HasSign (s : Sign) : Float.Model.UnpackedFloat → Prop
  | .notANumber => True
  | .infinity t | .zero t | .finite t _ _ _ => t = s

/-- The sign bit is not set. What is no number counts as upright as well. -/
def Upright : Float.Model.UnpackedFloat → Prop
  | .notANumber => True
  | .infinity s | .zero s | .finite s _ _ _ => s = .positive

theorem upright_iff {u : Float.Model.UnpackedFloat} : Upright u ↔ HasSign .positive u := by
  cases u <;> rfl

theorem unpackSign_packComponents {spec : Format} (s : Sign) (exponent : BitVec spec.exponentBits)
    (mantissa : BitVec spec.mantissaBitsWithoutImplicit) :
    unpackSign (packComponents spec s exponent mantissa) = s.toBitVec := by
  ext i hi
  obtain rfl : i = 0 := by omega
  simp [unpackSign, packComponents, BitVec.getLsbD_append, BitVec.getElem_append]

theorem ofBitVec_toBitVec (s : Sign) : Sign.ofBitVec s.toBitVec = s := by
  cases s <;> rfl

/-- Bits that are written with a sign are read with it. -/
theorem hasSign_unpack {s : Sign} {exponent : BitVec 11} {mantissa : BitVec 52} :
    HasSign s (unpack .binary64 (packComponents .binary64 s exponent mantissa)) := by
  unfold unpack
  simp only [unpackSign_packComponents, ofBitVec_toBitVec]
  repeat' split
  · rfl
  · trivial
  · rfl
  · rfl
  · rfl

/-- Writing a result as a double keeps its sign. -/
theorem hasSign_repack {s : Sign} {u : Float.Model.UnpackedFloat} (h : HasSign s u) : HasSign s (repack u) := by
  cases u with
  | notANumber => trivial
  | infinity t | zero t =>
    obtain rfl : t = s := h
    exact hasSign_unpack
  | finite t m e hm =>
    obtain rfl : t = s := h
    unfold repack
    dsimp only [pack]
    repeat' split
    all_goals exact hasSign_unpack

theorem upright_repack {u : Float.Model.UnpackedFloat} (h : Upright u) : Upright (repack u) :=
  upright_iff.mpr (hasSign_repack (upright_iff.mp h))

/-- Rounding keeps the sign. -/
theorem hasSign_round (s : Sign) (m : Nat) (e : Int) (accuracy : Accuracy) :
    HasSign s (roundWithAccuracy .binary64 s m e accuracy) := by
  unfold roundWithAccuracy
  dsimp only
  split <;> rfl

/-- A quotient of upright parts is upright. -/
theorem upright_div {u v : Float.Model.UnpackedFloat} (hu : Upright u) (hv : Upright v) :
    Upright (div .binary64 u v) := by
  cases u <;> cases v <;> simp only [Upright] at hu hv <;> subst_vars
  all_goals first
    | trivial
    | exact upright_iff.mpr (hasSign_round _ _ _ _)

/-- What is a number and upright is not below zero. -/
theorem zero_le_of_upright {x : Float} (hNumber : parts x ≠ .notANumber) (h : Upright (parts x)) : 0 ≤ x := by
  rw [le_iff, parts_zero]
  cases hParts : parts x <;> rw [hParts] at h hNumber
  · cases h
    rfl
  · exact absurd rfl hNumber
  · rfl
  · cases h
    rfl

/-- What is not at most zero is upright: it is above zero, or no number. -/
theorem upright_of_not_le_zero {x : Float} (h : ¬ x ≤ 0) : Upright (parts x) := by
  rw [le_iff, parts_zero] at h
  cases hParts : parts x with
  | notANumber => trivial
  | infinity s | zero s | finite s m e hm =>
    rw [hParts] at h
    cases s
    · exact absurd rfl h
    · rfl

theorem upright_of_pos {x : Float} (h : 0 < x) : Upright (parts x) := by
  rw [lt_iff, parts_zero] at h
  cases hParts : parts x with
  | notANumber => trivial
  | infinity s | zero s | finite s m e hm =>
    rw [hParts] at h
    cases s
    · cases h
    · rfl

theorem upright_nonNegative (x : Float) : Upright (parts (Scalar.nonNegative x)) := by
  change Upright (parts (Scalar.largerFloat x 0))
  unfold Scalar.largerFloat
  repeat' split
  · exact rfl
  · rename_i hNotZero
    cases hNotZero
  · exact rfl
  · exact upright_of_pos ‹_›
  · -- the bits of zero
    rename_i hBits
    change Upright (unpack .binary64 x.toBits.toBitVec)
    rw [hBits]
    exact rfl
  · exact rfl

-- ---------------------------------------------------------------------------
-- Finite doubles
-- ---------------------------------------------------------------------------

theorem isFinite_iff {x : Float} : x.isFinite = true ↔ (parts x).isFinite = true := Iff.rfl

theorem le_refl_of_finite {x : Float} (h : (parts x).isFinite = true) : x ≤ x := by
  rw [le_iff]
  cases hParts : parts x with
  | notANumber | infinity s =>
    rw [hParts] at h
    cases h
  | zero s => rfl
  | finite s m e hm =>
    have hExponent : compare e e = .eq := Std.ReflCmp.compare_self
    have hMantissa : compare m m = .eq := Std.ReflCmp.compare_self
    have hSame : (compare e e).then (compare m m) = .eq := by
      rw [hExponent, hMantissa]
      rfl
    cases s
    · change ((compare e e).then (compare m m)).swap.isLE = true
      rw [hSame]
      rfl
    · change ((compare e e).then (compare m m)).isLE = true
      rw [hSame]
      rfl

/-- What is taken from something infinite, or the other way round, is infinite or no number. -/
theorem sub_of_not_finite {u v : Float.Model.UnpackedFloat} (h : ¬ (u.isFinite = true ∧ v.isFinite = true)) :
    sub .binary64 u v = .notANumber ∨ ∃ s, sub .binary64 u v = .infinity s := by
  cases u with
  | notANumber => exact Or.inl rfl
  | infinity s =>
    cases v with
    | notANumber => exact Or.inl rfl
    | infinity s' => cases s <;> cases s' <;> first | exact Or.inl rfl | exact Or.inr ⟨_, rfl⟩
    | zero s' => exact Or.inr ⟨_, rfl⟩
    | finite s' m e hm => exact Or.inr ⟨_, rfl⟩
  | zero s | finite s m e hm =>
    cases v with
    | notANumber => exact Or.inl rfl
    | infinity s' => exact Or.inr ⟨_, rfl⟩
    | zero s' => exact absurd ⟨rfl, rfl⟩ h
    | finite s' m' e' hm' => exact absurd ⟨rfl, rfl⟩ h

/-- A difference is finite only of finite doubles. -/
theorem finite_of_sub {x y : Float} (h : (x - y).isFinite = true) :
    (parts x).isFinite = true ∧ (parts y).isFinite = true := by
  rw [isFinite_iff, parts_sub] at h
  by_contra hParts
  rcases sub_of_not_finite hParts with hSub | ⟨s, hSub⟩
  · rw [hSub, repack_notANumber] at h
    cases h
  · rw [hSub, repack_infinity] at h
    cases h

/-- Mantissas have 53 bits, and only at the smallest exponent they may have fewer. -/
theorem canonical {x : Float} {s : Sign} {m : Nat} {e : Int} {hm : 0 < m} (h : parts x = .finite s m e hm) :
    m < 2 ^ 53 ∧ -1074 ≤ e ∧ (e = -1074 ∨ 2 ^ 52 ≤ m) := by
  change unpack .binary64 x.toBits.toBitVec = _ at h
  unfold unpack at h
  dsimp only at h
  split at h
  · split at h <;> cases h
  · split at h
    · split at h
      · cases h
      · -- a number below the normal ones
        rename_i hExponent hMantissa
        simp only [Float.Model.UnpackedFloat.finite.injEq] at h
        obtain ⟨-, rfl, rfl⟩ := h
        rw [hExponent]
        have hBits := (@unpackMantissa Format.binary64 x.toBits.toBitVec).isLt
        refine ⟨?_, ?_, Or.inl ?_⟩
        · exact lt_trans hBits (by decide)
        · decide
        · decide
    · -- a normal number: the leading bit of the mantissa is added
      simp only [Float.Model.UnpackedFloat.finite.injEq] at h
      obtain ⟨-, rfl, rfl⟩ := h
      rename_i hExponent
      refine ⟨(1#1 ++ @unpackMantissa Format.binary64 x.toBits.toBitVec).isLt, ?_, Or.inr ?_⟩
      · have hPos : (@unpackExponent Format.binary64 x.toBits.toBitVec).toNat ≠ 0 := by
          intro hZero
          exact hExponent (BitVec.eq_of_toNat_eq hZero)
        simp only [Format.exponentBias]
        omega
      · rw [BitVec.toNat_append]
        exact Nat.left_le_or

-- ---------------------------------------------------------------------------
-- Numbers up to one
-- ---------------------------------------------------------------------------

/-- The number `m * 2 ^ e` is at most one. -/
def AtMostOne : Float.Model.UnpackedFloat → Prop
  | .zero _ => True
  | .finite s m e _ => s = .positive ∧ ∃ k : Nat, e = -k ∧ m ≤ 2 ^ k
  | .infinity _ | .notANumber => False

theorem mantissa_shiftRight (em : ExtendedMantissa) (n : Nat) : (em >>> n).mantissa = em.mantissa / 2 ^ n := by
  induction n with
  | zero => exact (Nat.div_one _).symm
  | succ n ih =>
    change (em >>> n).mantissa / 2 = _
    rw [ih, Nat.div_div_eq_div_mul, Nat.pow_succ]

theorem roundedMantissa_le (em : ExtendedMantissa) : em.roundedMantissa ≤ em.mantissa + 1 := by
  obtain ⟨m, roundBit, stickyBit⟩ := em
  cases roundBit <;> cases stickyBit <;>
    simp only [ExtendedMantissa.roundedMantissa, ExtendedMantissa.accuracy, Accuracy.roundToNearestEven]
  all_goals omega

theorem mantissa_ofMantissaAndAccuracy (m : Nat) (accuracy : Accuracy) :
    (ExtendedMantissa.ofMantissaAndAccuracy m accuracy).mantissa = m := by
  cases accuracy with
  | exact => rfl
  | inexact order => cases order <;> rfl

/-- Bits are dropped from a number up to one at most down to the unit. -/
theorem shiftToTargetExponent_of_le {m k : Nat} (h : m ≤ 2 ^ k) (accuracy : Accuracy) :
    ∃ n ≤ k, (shiftToTargetExponent .binary64 m (-k) accuracy).1.mantissa = m / 2 ^ n ∧
      (shiftToTargetExponent .binary64 m (-k) accuracy).2 = -((k - n : Nat) : Int) := by
  have hLog : m.log2 ≤ k := by
    by_cases hZero : m = 0
    · rw [hZero]
      exact Nat.zero_le k
    · have hPow : 2 ^ k < 2 ^ (k + 1) := Nat.pow_lt_pow_succ (by decide)
      exact Nat.lt_succ_iff.mp ((Nat.log2_lt hZero).mpr (h.trans_lt hPow))
  obtain ⟨n, hn⟩ : ∃ n, n = (Format.targetExponent .binary64 (totalExponent m (-k)) - -k).toNat := ⟨_, rfl⟩
  have hShort : n ≤ k := by
    rw [hn]
    simp only [Format.targetExponent, totalExponent, Format.mantissaBits, Format.minExponent]
    omega
  refine ⟨n, hShort, ?_, ?_⟩
  · unfold shiftToTargetExponent shiftToExponent
    dsimp only
    rw [mantissa_shiftRight, mantissa_ofMantissaAndAccuracy, hn]
  · unfold shiftToTargetExponent shiftToExponent
    dsimp only
    rw [← hn]
    omega

/-- Rounding a number below one leads at most to one. -/
theorem atMostOne_round {m k : Nat} (h : m < 2 ^ k) (accuracy : Accuracy) :
    AtMostOne (roundWithAccuracy .binary64 .positive m (-k) accuracy) := by
  obtain ⟨n, hn, hMantissa, hExponent⟩ := shiftToTargetExponent_of_le (Nat.le_of_lt h) accuracy
  have hBelow : m / 2 ^ n < 2 ^ (k - n) := by
    rw [Nat.div_lt_iff_lt_mul (Nat.two_pow_pos n), ← Nat.pow_add, Nat.sub_add_cancel hn]
    exact h
  have hRounded : (shiftToTargetExponent .binary64 m (-k) accuracy).1.roundedMantissa ≤ 2 ^ (k - n) := by
    refine (roundedMantissa_le _).trans ?_
    rw [hMantissa]
    exact hBelow
  obtain ⟨n', hn', hMantissa', hExponent'⟩ := shiftToTargetExponent_of_le hRounded .exact
  unfold roundWithAccuracy
  dsimp only
  rw [hExponent]
  split
  · trivial
  · refine ⟨rfl, k - n - n', hExponent', ?_⟩
    rw [hMantissa']
    refine Nat.div_le_of_le_mul ?_
    rw [← Nat.pow_add, Nat.add_sub_cancel' hn']
    exact hRounded

/-- Bits that are written with an exponent below that of one, or are those of one. -/
theorem le_one_of_bits {exponent : BitVec 11} {mantissa : BitVec 52}
    (h : exponent.toNat < 1023 ∨ exponent.toNat = 1023 ∧ mantissa = 0) :
    ((unpack .binary64 (packComponents .binary64 .positive exponent mantissa)).compare (parts 1)).any (·.isLE) =
      true := by
  have hOrder : ∀ (m : Nat) (e : Int) (hm : 0 < m), e < -52 ∨ e = -52 ∧ m ≤ 2 ^ 52 →
      ((Float.Model.UnpackedFloat.finite .positive m e hm).compare (parts 1)).any (·.isLE) = true := by
    intro m e hm hParts
    change (((compare e (-52)).then (compare m (2 ^ 52))).isLE) = true
    rcases hParts with hExponent | ⟨rfl, hMantissa⟩
    · rw [Int.compare_eq_lt.mpr hExponent]
      rfl
    · rw [show compare (-52 : Int) (-52) = .eq from rfl]
      exact Nat.isLE_compare.mpr hMantissa
  unfold unpack
  simp only [unpackSign_packComponents, unpackExponent_packComponents, unpackMantissa_packComponents]
  split
  · -- the largest exponent is that of infinity
    rename_i hLargest
    rw [hLargest] at h
    rcases h with hBelow | ⟨hOne, -⟩
    · exact absurd hBelow (by decide)
    · exact absurd hOne (by decide)
  · split
    · split
      · rfl
      · rename_i hExponent hMantissa
        exact hOrder _ _ _ (Or.inl (by rw [hExponent]; decide))
    · refine hOrder _ _ _ ?_
      simp only [Format.exponentBias]
      rcases h with hBelow | ⟨hOne, rfl⟩
      · left
        omega
      · right
        rw [hOne]
        decide

/-- A number up to one is written as a double up to one. -/
theorem repack_le_one {u : Float.Model.UnpackedFloat} (h : AtMostOne u) :
    ((repack u).compare (parts 1)).any (·.isLE) = true := by
  cases u with
  | notANumber => exact h.elim
  | infinity s => exact h.elim
  | zero s =>
    rw [repack_zero]
    rfl
  | finite s m e hm =>
    obtain ⟨rfl, k, rfl, hBound⟩ := h
    unfold repack
    simp only [pack]
    have hSmall : ¬ 2 ^ Format.binary64.exponentBits ≤
        (-(k : Int) + Format.binary64.exponentBias + Format.binary64.mantissaBitsWithoutImplicit).toNat + 1 := by
      simp only [Format.exponentBias]
      omega
    rw [if_neg hSmall]
    by_cases hNormal : m.log2 + 1 = Format.mantissaBits .binary64
    · rw [if_pos hNormal]
      refine le_one_of_bits ?_
      -- a mantissa of all its bits leaves room for one only as the leading bit
      have hLog : m.log2 = 52 := Nat.succ.inj hNormal
      have hLow : 2 ^ 52 ≤ m := hLog ▸ Nat.log2_self_le hm.ne'
      have hPlaces : 52 ≤ k := (Nat.pow_le_pow_iff_right (by decide)).mp (hLow.trans hBound)
      rcases hPlaces.lt_or_eq with hBelow | rfl
      · left
        rw [BitVec.toNat_ofNat]
        simp only [Format.exponentBias]
        omega
      · right
        obtain rfl : m = 2 ^ 52 := le_antisymm hBound hLow
        decide
    · rw [if_neg hNormal]
      exact le_one_of_bits (Or.inl (by decide))

/-- A mantissa below another one at no larger exponent gives a quotient below one. -/
theorem atMostOne_div {m₁ m₂ : Nat} {e₁ e₂ : Int} {hm₁ : 0 < m₁} {hm₂ : 0 < m₂} (hExponent : e₁ ≤ e₂)
    (hMantissa : m₁ < m₂ * 2 ^ (e₂ - e₁).toNat) :
    AtMostOne (div .binary64 (.finite .positive m₁ e₁ hm₁) (.finite .positive m₂ e₂ hm₂)) := by
  dsimp only [div, divCore]
  obtain ⟨k, hk⟩ : ∃ k : Nat, min (e₁ - e₂) (Format.targetExponent .binary64
      (totalExponent m₁ e₁ - totalExponent m₂ e₂)) = -k := by
    refine ⟨(-min (e₁ - e₂) (Format.targetExponent .binary64
      (totalExponent m₁ e₁ - totalExponent m₂ e₂))).toNat, ?_⟩
    omega
  rw [hk]
  refine atMostOne_round ?_ _
  -- the places of the quotient are those that are added and those by which the exponents differ
  have hPlaces : k = (e₂ - e₁).toNat + (e₁ - e₂ - -k).toNat := by
    omega
  rw [Nat.div_lt_iff_lt_mul hm₂, Nat.shiftLeft_eq]
  calc m₁ * 2 ^ (e₁ - e₂ - -k).toNat
      < m₂ * 2 ^ (e₂ - e₁).toNat * 2 ^ (e₁ - e₂ - -k).toNat :=
        Nat.mul_lt_mul_of_pos_right hMantissa (Nat.two_pow_pos _)
    _ = 2 ^ k * m₂ := by rw [Nat.mul_assoc, ← Nat.pow_add, ← hPlaces, Nat.mul_comm]

/-- A smaller double divided by a larger one is at most one. -/
theorem div_le_one {x y : Float} (hx : Upright (parts x)) (hNumber : (parts x).isFinite = true) (hy : 0 < y)
    (hFinite : (parts y).isFinite = true) (hLess : ¬ y ≤ x) : x / y ≤ 1 := by
  rw [le_iff, parts_div]
  refine repack_le_one ?_
  rw [lt_iff, parts_zero] at hy
  rw [le_iff] at hLess
  cases hyParts : parts y with
  | notANumber =>
    rw [hyParts] at hFinite
    cases hFinite
  | infinity s =>
    rw [hyParts] at hFinite
    cases hFinite
  | zero s =>
    rw [hyParts] at hy
    cases hy
  | finite s m₂ e₂ hm₂ =>
    rw [hyParts] at hy hLess
    obtain rfl : s = .positive := by
      cases s
      · cases hy
      · rfl
    cases hxParts : parts x with
    | notANumber =>
      rw [hxParts] at hNumber
      cases hNumber
    | infinity s =>
      rw [hxParts] at hNumber
      cases hNumber
    | zero s => trivial
    | finite s m₁ e₁ hm₁ =>
      rw [hxParts] at hx hLess
      obtain rfl : s = .positive := hx
      have hOrder : e₁ < e₂ ∨ e₁ = e₂ ∧ m₁ < m₂ := by
        by_contra hNot
        refine hLess ?_
        change ((compare e₂ e₁).then (compare m₂ m₁)).isLE = true
        rcases lt_trichotomy e₂ e₁ with hExponent | rfl | hExponent
        · rw [Int.compare_eq_lt.mpr hExponent]
          rfl
        · have hSame : compare e₂ e₂ = .eq := Std.ReflCmp.compare_self
          rw [hSame]
          exact Nat.isLE_compare.mpr (Nat.not_lt.mp fun hMantissa => hNot (Or.inr ⟨rfl, hMantissa⟩))
        · exact absurd (Or.inl hExponent) hNot
      obtain ⟨hBits, hLowest, -⟩ := canonical hxParts
      obtain ⟨-, -, hLeading⟩ := canonical hyParts
      rcases hOrder with hExponent | ⟨rfl, hMantissa⟩
      · -- the larger one has all its bits, and so twice its mantissa is above the other mantissa
        refine atMostOne_div hExponent.le ?_
        have hFull : 2 ^ 52 ≤ m₂ := by
          rcases hLeading with rfl | hFull
          · exact absurd hExponent (not_lt.mpr hLowest)
          · exact hFull
        have hPlace : 1 ≤ (e₂ - e₁).toNat := by omega
        calc m₁ < 2 ^ 52 * 2 ^ 1 := hBits
          _ ≤ m₂ * 2 ^ (e₂ - e₁).toNat :=
            Nat.mul_le_mul hFull (Nat.pow_le_pow_right (by decide) hPlace)
      · refine atMostOne_div le_rfl ?_
        rw [Int.sub_self, Int.toNat_zero, Nat.pow_zero, Nat.mul_one]
        exact hMantissa

/-- **A part of a length is a fraction of it.** -/
theorem div_mem_unit {x y : Float} (hx : Upright (parts x)) (hNumber : (parts x).isFinite = true) (hy : 0 < y)
    (hFinite : (parts y).isFinite = true) (hLess : ¬ y ≤ x) : 0 ≤ x / y ∧ x / y ≤ 1 := by
  have hOne := div_le_one hx hNumber hy hFinite hLess
  refine ⟨zero_le_of_upright ?_ ?_, hOne⟩
  · -- what is no number is not at most one
    intro hNone
    rw [le_iff, hNone] at hOne
    cases hOne
  · rw [parts_div]
    exact upright_repack (upright_div hx (upright_of_pos hy))

end PlanReplay.Double
