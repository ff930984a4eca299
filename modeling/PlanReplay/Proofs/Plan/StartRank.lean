import PlanReplay.Plan.Normal
import PlanReplay.Proofs.Double.Order
import PlanReplay.Proofs.Double.Whole

/-!
# The rank of a start

Starts are sorted by their rank, which is read off the bits. Along the numbers it goes with their order, from one
infinity to the other; of the two zeros, which are equal as numbers, the one with the sign has the smaller rank. The
larger of two numbers is the one with the larger rank.

* `Plan.startRank_eq`, `Plan.startRank_infinity` — the rank of a finite and of an infinite start.
* `Plan.startRank_lt` — smaller numbers have smaller ranks.
* `Plan.le_of_startRank` — starts in the order of their ranks do not decrease.
* `Plan.startRank_larger` — the rank of the larger of two numbers.
-/

namespace PlanReplay.Plan

open Decimal Double
open Float.Model (Format)
open Float.Model.UnpackedFloat

-- ---------------------------------------------------------------------------
-- Finite starts
-- ---------------------------------------------------------------------------

/-- The rank of a finite start counts up through mantissas and exponents, and down below zero. -/
theorem startRank_eq {x : Float} {negative edge : Bool} {m : Nat} {e : Int}
    (h : ofFloat x = .finite negative m e edge) (hFits : Double.Fits m e) (hRange : e ≤ 971) :
    startRank x = if negative then -((e + 1074) * 2 ^ 52 + m) - 1 else (e + 1074) * 2 ^ 52 + m := by
  have hBits := Double.bits_of_decodeBits x.toBits.toNat_lt h
  obtain ⟨hMantissa, hLow, -⟩ := hFits
  unfold startRank
  change (if x.toBits.toNat < 2 ^ 63 then (x.toBits.toNat : Int) else -((x.toBits.toNat - 2 ^ 63 : Nat) : Int) - 1) = _
  cases negative with
  | true =>
    rw [if_pos rfl] at hBits
    rw [if_neg (by omega), if_pos rfl]
    omega
  | false =>
    rw [if_neg Bool.false_ne_true] at hBits
    rw [if_pos (by omega), if_neg Bool.false_ne_true]
    omega

/-- A mantissa at a larger exponent has its leading bit, and so magnitudes are in the order of this count. -/
theorem magnitude_le {m m' : Nat} {e e' : Int} (hFits : Double.Fits m e) (hFits' : Double.Fits m' e')
    (h : (e + 1074) * 2 ^ 52 + m ≤ (e' + 1074) * 2 ^ 52 + m') : (m : ℚ) * 2 ^ e ≤ m' * 2 ^ e' := by
  have hMantissa' := hFits'.1
  have hLow' := hFits'.2.1
  rcases lt_trichotomy e e' with hLess | rfl | hMore
  · exact (Double.magnitude_lt hFits hFits' (Or.inl hLess)).le
  · have hMantissas : m ≤ m' := by omega
    exact mul_le_mul_of_nonneg_right (Nat.cast_le.mpr hMantissas) (zpow_pos two_pos e).le
  · have hFull : 2 ^ 52 ≤ m := hFits.2.2.resolve_left (by omega)
    omega

/-- Starts are ranked as the numbers they stand for. -/
theorem value_le_of_startRank {x y : Float} (hx : x.isFinite = true) (hy : y.isFinite = true)
    (h : startRank x ≤ startRank y) : Double.value (Double.parts x) ≤ Double.value (Double.parts y) := by
  obtain ⟨s, m, e, edge, hParts, -, hFits, hRange, hValue⟩ := Double.exists_ofFloat hx
  obtain ⟨s', m', e', edge', hParts', -, hFits', hRange', hValue'⟩ := Double.exists_ofFloat hy
  rw [startRank_eq hParts hFits hRange, startRank_eq hParts' hFits' hRange'] at h
  have hPos : (0 : ℚ) ≤ m * 2 ^ e := by positivity
  have hPos' : (0 : ℚ) ≤ m' * 2 ^ e' := by positivity
  have hNegative : ∀ (m : Nat) (e : Int), ((Sign.negative.apply m : ℤ) : ℚ) * 2 ^ e = -(m * 2 ^ e) := by
    intro m e
    simp only [Sign.apply, Int.cast_neg, Int.cast_natCast, neg_mul]
  have hLow := hFits.2.1
  have hLow' := hFits'.2.1
  rw [hValue, hValue']
  cases s with
  | positive =>
    cases s' with
    | positive => exact magnitude_le hFits hFits' h
    | negative =>
      simp only [Double.isMinus, Bool.false_eq_true, if_false, if_true] at h
      omega
  | negative =>
    rw [hNegative]
    cases s' with
    | positive =>
      change _ ≤ (m' : ℚ) * 2 ^ e'
      linarith
    | negative =>
      simp only [Double.isMinus, if_true] at h
      rw [hNegative]
      exact neg_le_neg (magnitude_le hFits' hFits (by omega))

-- ---------------------------------------------------------------------------
-- Infinite starts
-- ---------------------------------------------------------------------------

/-- An infinite start has its rank beyond those of all finite ones. -/
theorem startRank_infinity {x : Float} {s : Sign} (h : parts x = .infinity s) :
    startRank x = if isMinus s then -(2047 * 2 ^ 52) - 1 else 2047 * 2 ^ 52 := by
  have hBits := x.toBits.toNat_lt
  have hExponent := toNat_unpackExponent x.toBits.toBitVec
  have hMantissa := toNat_unpackMantissa x.toBits.toBitVec
  have hMinus := isMinus_ofBitVec x.toBits.toBitVec
  change unpack .binary64 x.toBits.toBitVec = _ at h
  unfold unpack at h
  dsimp only at h
  split at h
  · rename_i hOnes
    split at h
    · rename_i hNone
      injection h with hSign
      rw [hOnes] at hExponent
      rw [hNone] at hMantissa
      rw [hSign] at hMinus
      change 2047 = x.toBits.toNat / 2 ^ 52 % 2 ^ 11 at hExponent
      change 0 = x.toBits.toNat % 2 ^ 52 at hMantissa
      change isMinus s = (x.toBits.toNat / 2 ^ 63 % 2 == 1) at hMinus
      unfold startRank
      change (if x.toBits.toNat < 2 ^ 63 then (x.toBits.toNat : Int) else
        -((x.toBits.toNat - 2 ^ 63 : Nat) : Int) - 1) = _
      cases s with
      | positive =>
        have hUnset : x.toBits.toNat / 2 ^ 63 % 2 ≠ 1 := by simpa [isMinus] using hMinus
        rw [if_pos (by omega), if_neg (by decide)]
        omega
      | negative =>
        have hSet : x.toBits.toNat / 2 ^ 63 % 2 = 1 := by simpa [isMinus] using hMinus
        rw [if_neg (by omega), if_pos (show isMinus .negative = true from rfl)]
        omega
    · cases h
  · split at h
    · split at h <;> cases h
    · cases h

/-- A finite start has its rank between those of the infinite ones. -/
theorem startRank_mem {x : Float} (h : x.isFinite = true) :
    -(2047 * 2 ^ 52) - 1 < startRank x ∧ startRank x < 2047 * 2 ^ 52 := by
  obtain ⟨s, m, e, edge, hParts, -, hFits, hRange, -⟩ := exists_ofFloat h
  have hLow := hFits.2.1
  have hMantissa := hFits.1
  rw [startRank_eq hParts hFits hRange]
  split <;> constructor <;> omega

-- ---------------------------------------------------------------------------
-- Order
-- ---------------------------------------------------------------------------

/-- **Smaller numbers have smaller ranks.** -/
theorem startRank_lt {x y : Float} (h : x < y) : startRank x < startRank y := by
  obtain ⟨hxNumber, hyNumber⟩ := isNaN_of_lt h
  rcases finite_or_infinite hxNumber with hx | ⟨s, hx⟩
  · rcases finite_or_infinite hyNumber with hy | ⟨s', hy⟩
    · by_contra hNot
      exact absurd (value_le_of_startRank hy hx (not_lt.mp hNot)) (not_le.mpr ((lt_iff_value hx hy).mp h))
    · rw [lt_iff, hy, (compare_infinity hx s').1] at h
      cases s' with
      | negative => cases h
      | positive =>
        rw [startRank_infinity hy]
        exact (startRank_mem hx).2
  · rcases finite_or_infinite hyNumber with hy | ⟨s', hy⟩
    · rw [lt_iff, hx, (compare_infinity hy s).2] at h
      cases s with
      | negative =>
        rw [startRank_infinity hx]
        exact (startRank_mem hy).1
      | positive => cases h
    · rw [lt_iff, hx, hy] at h
      cases s with
      | negative =>
        cases s' with
        | negative => cases h
        | positive =>
          rw [startRank_infinity hx, startRank_infinity hy]
          norm_num [isMinus]
      | positive => cases s' <;> cases h

/-- **Starts in the order of their ranks do not decrease.** -/
theorem le_of_startRank {x y : Float} (hx : x.isNaN = false) (hy : y.isNaN = false) (h : startRank x ≤ startRank y) :
    x ≤ y :=
  le_of_not_lt hx hy fun hLess => absurd (startRank_lt hLess) (not_lt.mpr h)

theorem startRank_zero : startRank 0 = 0 ∧ startRank (-0.0) = -1 := by decide

/-- What is not below a number that has a positive rank has no smaller one. -/
theorem startRank_le_of_pos {x y : Float} (hPos : 0 < startRank x) (h : x ≤ y) : startRank x ≤ startRank y := by
  by_cases hLess : x < y
  · exact (startRank_lt hLess).le
  · rcases eq_of_beq (beq_of_le h hLess) with rfl | ⟨rfl, -⟩ | ⟨rfl, -⟩
    · exact le_rfl
    · rw [startRank_zero.2] at hPos
      exact absurd hPos (by decide)
    · rw [startRank_zero.1] at hPos
      exact absurd hPos (lt_irrefl _)

/-- **The larger of two numbers** has the larger one of their ranks. -/
theorem startRank_larger {x y : Float} (hx : x.isNaN = false) (hy : y.isNaN = false) :
    startRank (Scalar.larger x y) = max (startRank x) (startRank y) := by
  change startRank (Scalar.largerFloat x y) = _
  unfold Scalar.largerFloat
  rw [hx, hy, if_neg Bool.false_ne_true, if_neg Bool.false_ne_true]
  split
  · rename_i hLess
    rw [max_eq_right (startRank_lt hLess).le]
  · rename_i hLess
    split
    · rename_i hMore
      rw [max_eq_left (startRank_lt hMore).le]
    · rename_i hMore
      -- of the two zeros the one without sign is chosen
      rcases eq_of_beq (beq_of_le (le_of_not_lt hx hy hMore) hLess) with rfl | ⟨rfl, rfl⟩ | ⟨rfl, rfl⟩
      · rw [ite_self, max_self]
      · decide
      · decide

end PlanReplay.Plan
