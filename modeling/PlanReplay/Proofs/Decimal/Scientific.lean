import PlanReplay.Decimal.Reader
import PlanReplay.Proofs.Double.Rounding

/-!
# Decimals in scientific notation

A decimal `n * 10 ^ k` is read as the double to which it is rounded. Short decimals are read by one operation on doubles,
since small powers of ten are doubles; other ones by a division or a multiplication of whole numbers, which is exact until
it is rounded.

* `Decimal.exists_power` — small powers of ten are doubles.
* `Decimal.exists_quotient`, `Decimal.exists_product` — the operation by which a decimal is read.
* `Decimal.exists_rounded` — what is read is the decimal, rounded.
* `Decimal.length_toDigits_within` — a number in the range of doubles is not settled by its number of digits.
-/

namespace PlanReplay.Decimal

open Double
open Float.Model (Format)
open Float.Model.UnpackedFloat

-- ---------------------------------------------------------------------------
-- Powers of ten
-- ---------------------------------------------------------------------------

theorem powers_exact : ∀ j : Fin 23,
    (match parts Float.exactlyRepresentablePowersOfTen[j] with
      | .finite .positive m e _ => decide (m * 2 ^ e.toNat = 10 ^ j.val * 2 ^ (-e).toNat)
      | _ => false) = true := by
  decide

/-- A small power of ten is a double. -/
theorem exists_power {k : Nat} (h : k < Float.exactlyRepresentablePowersOfTen.size) :
    ∃ (m : Nat) (e : Int) (hm : 0 < m), parts Float.exactlyRepresentablePowersOfTen[k] = .finite .positive m e hm ∧
      (m : ℚ) * 2 ^ e = 10 ^ k := by
  have hExact := powers_exact ⟨k, h⟩
  change (match parts Float.exactlyRepresentablePowersOfTen[k] with
    | .finite .positive m e _ => decide (m * 2 ^ e.toNat = 10 ^ k * 2 ^ (-e).toNat)
    | _ => false) = true at hExact
  split at hExact
  · rename_i m e hm hParts
    refine ⟨m, e, hm, hParts, ?_⟩
    have hSame : (m : ℚ) * 2 ^ e.toNat = 10 ^ k * 2 ^ (-e).toNat := by exact_mod_cast of_decide_eq_true hExact
    rw [← power_quotient, ← mul_div_assoc, div_eq_iff (Nat.cast_ne_zero.mpr (Nat.two_pow_pos _).ne')]
    exact_mod_cast hSame
  · cases hExact

-- ---------------------------------------------------------------------------
-- Quotients and products
-- ---------------------------------------------------------------------------

variable {n k : Nat}

/-- A count is its mantissa at the place of its last bit. -/
theorem count_eq (n : Nat) : ((n * 2 ^ countPlaces n : Nat) : ℚ) * 2 ^ (-countPlaces n : Int) = n := by
  rw [zpow_neg, zpow_natCast]
  push_cast
  rw [mul_assoc, mul_inv_cancel₀ (by positivity), mul_one]

/-- A decimal with places after the point is read as a quotient. -/
theorem exists_quotient (hPos : 0 < n) (hSome : 0 < k) (hSmall : k ≤ 2048 + n.log2) :
    ∃ (m₁ m₂ : Nat) (e₁ e₂ : Int) (hm₁ : 0 < m₁) (hm₂ : 0 < m₂), (m₁ : ℚ) * 2 ^ e₁ / (m₂ * 2 ^ e₂) = n / 10 ^ k ∧
      parts (Float.ofScientific n true k) =
        repack (div .binary64 (.finite .positive m₁ e₁ hm₁) (.finite .positive m₂ e₂ hm₂)) := by
  unfold Float.ofScientific
  split
  · rename_i hShort
    have hKept : k < Float.exactlyRepresentablePowersOfTen.size := Nat.lt_succ_of_le hShort.2
    obtain ⟨m, e, hm, hPower, hValue⟩ := exists_power hKept
    refine ⟨n * 2 ^ countPlaces n, m, -countPlaces n, e, Nat.mul_pos hPos (Nat.two_pow_pos _), hm, ?_, ?_⟩
    · rw [count_eq, hValue]
    · change parts (n.toUInt64.toFloat / Float.exactlyRepresentablePowersOfTen[k]) = _
      rw [parts_div, parts_toUInt64 hPos hShort.1, hPower]
  · refine ⟨n, 10 ^ k, 0, 0, hPos, Nat.pow_pos (by decide), by norm_num, ?_⟩
    obtain ⟨j, rfl⟩ := Nat.exists_eq_succ_of_ne_zero hSome.ne'
    change repack (ofScientific .binary64 n (Int.negSucc j)) = _
    have hPower : (2 : Int) ^ Format.binary64.exponentBits = 2048 := by decide
    unfold ofScientific
    rw [dif_neg hPos.ne', hPower, if_neg (by omega), if_neg (by omega), if_neg (by omega)]
    rfl

/-- A whole decimal is read as a product, which is exact until it is rounded. -/
theorem exists_product (hPos : 0 < n) (hSmall : k ≤ 2048) :
    ∃ (m : Nat) (e : Int), (m : ℚ) * 2 ^ e = n * 10 ^ k ∧ e ≤ max (m.log2 + 1 + e - 53) (-1074 : Int) ∧
      parts (Float.ofScientific n false k) = repack (roundWithAccuracy .binary64 .positive m e .exact) := by
  unfold Float.ofScientific
  split
  · rename_i hShort
    have hKept : k < Float.exactlyRepresentablePowersOfTen.size := Nat.lt_succ_of_le hShort.2
    obtain ⟨m, e, hm, hPower, hValue⟩ := exists_power hKept
    refine ⟨n * 2 ^ countPlaces n * m, -countPlaces n + e, ?_, ?_, ?_⟩
    · rw [← count_eq n, ← hValue, zpow_add₀ two_ne_zero]
      push_cast
      ring
    · have hFull : 2 ^ 52 ≤ n * 2 ^ countPlaces n * m :=
        ((fits_count hPos hShort.1).2.2.resolve_left (by unfold countPlaces; omega)).trans (Nat.le_mul_of_pos_right _ hm)
      have hLog := (Nat.le_log2 (by omega)).mpr hFull
      omega
    · change parts (n.toUInt64.toFloat * Float.exactlyRepresentablePowersOfTen[k]) = _
      rw [parts_mul, parts_toUInt64 hPos hShort.1, hPower]
      rfl
  · refine ⟨n <<< 53 * 10 ^ k, -53, ?_, ?_, ?_⟩
    · rw [Nat.shiftLeft_eq]
      push_cast
      field_simp
      norm_num
    · have hFull : 2 ^ 52 ≤ n <<< 53 * 10 ^ k := by
        rw [Nat.shiftLeft_eq]
        have hPower : 1 ≤ 10 ^ k := Nat.pow_pos (by decide)
        calc 2 ^ 52 ≤ n * 2 ^ 53 := by omega
          _ ≤ n * 2 ^ 53 * 10 ^ k := Nat.le_mul_of_pos_right _ hPower
      have hLog := (Nat.le_log2 (by omega)).mpr hFull
      omega
    · change repack (ofScientific .binary64 n (Int.ofNat k)) = _
      have hPower : (2 : Int) ^ Format.binary64.exponentBits = 2048 := by decide
      unfold ofScientific
      rw [dif_neg hPos.ne', hPower, if_neg (by simp; omega), if_neg (by simp; omega), if_pos (by simp)]
      rfl

-- ---------------------------------------------------------------------------
-- Rounding
-- ---------------------------------------------------------------------------

/-- A number has at least as many bits as digits. -/
theorem length_toDigits_le_log2 (n : Nat) : (Nat.toDigits 10 n).length ≤ n.log2 + 1 := by
  refine (Nat.length_toDigits_le_iff (by decide) n.log2.succ_pos).mpr ?_
  exact Nat.lt_log2_self.trans_le (Nat.pow_le_pow_left (by decide) _)

/-- **What is read is the decimal, rounded.** -/
theorem exists_rounded {k : Int} (hPos : 0 < n) (hLow : -400 ≤ (Nat.toDigits 10 n).length + k)
    (hHigh : (Nat.toDigits 10 n).length + k ≤ 400) :
    ∃ u, IsCanonical u ∧ Rounded (n * 10 ^ k) (value u) ∧ parts (nearestFloat n k) = repack u := by
  unfold nearestFloat
  dsimp only
  rw [if_neg hPos.ne', if_neg (by omega), if_neg (by omega)]
  rcases le_or_gt 0 k with hWhole | hPlaces
  · obtain ⟨j, rfl⟩ := Int.eq_ofNat_of_zero_le hWhole
    obtain ⟨m, e, hValue, hEnough, hParts⟩ := exists_product (k := j) hPos (by omega)
    have hKeeps : Keeps (.ofMantissaAndAccuracy m .exact) m := rfl
    have hRounded := rounded_roundWithAccuracy hKeeps hEnough
    rw [hValue] at hRounded
    refine ⟨_, canonical_roundWithAccuracy _ _ hEnough, ?_, hParts⟩
    rwa [zpow_natCast]
  · obtain ⟨j, rfl⟩ : ∃ j : Nat, k = -j := ⟨k.natAbs, by omega⟩
    have hDigits := length_toDigits_le_log2 n
    obtain ⟨m₁, m₂, e₁, e₂, hm₁, hm₂, hValue, hParts⟩ := exists_quotient (k := j) hPos (by omega) (by omega)
    have hRounded := rounded_div e₁ e₂ hm₁ hm₂
    rw [hValue] at hRounded
    refine ⟨_, canonical_div e₁ e₂ hm₁ hm₂, ?_, ?_⟩
    · rwa [zpow_neg, zpow_natCast, ← div_eq_mul_inv]
    · rw [Int.natAbs_neg, Int.natAbs_natCast, decide_eq_true (by omega)]
      exact hParts

/-- A number in the range of doubles has few places before the point and after it. -/
theorem length_toDigits_within {k : Int} (hPos : 0 < n) (hLow : (2 : ℚ) ^ (-1075 : ℤ) ≤ n * 10 ^ k)
    (hHigh : (n : ℚ) * 10 ^ k ≤ 2 ^ (1024 : ℤ)) :
    -400 ≤ (Nat.toDigits 10 n).length + k ∧ (Nat.toDigits 10 n).length + k ≤ 400 := by
  have hPower : (2 : ℚ) ^ (1075 : ℤ) ≤ 10 ^ (400 : ℤ) :=
    calc (2 : ℚ) ^ (1075 : ℤ) ≤ 2 ^ (1200 : ℤ) := zpow_le_zpow_right₀ one_le_two (by decide)
      _ = 8 ^ (400 : ℤ) := by
          rw [show (1200 : ℤ) = 3 * 400 from rfl, zpow_mul]
          norm_num
      _ ≤ 10 ^ (400 : ℤ) := zpow_le_zpow_left₀ (by decide) (by norm_num) (by norm_num)
  have hUnit : (0 : ℚ) < 10 ^ k := zpow_pos (by norm_num) k
  obtain ⟨before, hBefore⟩ := Nat.exists_eq_succ_of_ne_zero (Nat.length_toDigits_pos (b := 10) (n := n)).ne'
  have hBelow : n < 10 ^ (before + 1) := (Nat.length_toDigits_le_iff (by decide) before.succ_pos).mp hBefore.le
  have hAbove : 10 ^ before ≤ n := by
    rcases before.eq_zero_or_pos with rfl | hMore
    · exact hPos
    · refine Nat.le_of_not_lt fun hLess => ?_
      have hShorter := (Nat.length_toDigits_le_iff (by decide) hMore).mpr hLess
      omega
  rw [hBefore]
  constructor
  · have hLess : (10 : ℚ) ^ (-400 : ℤ) < 10 ^ (before + 1 + k : ℤ) :=
      calc (10 : ℚ) ^ (-400 : ℤ) ≤ 2 ^ (-1075 : ℤ) := by
            rw [zpow_neg, zpow_neg]
            exact inv_anti₀ (by positivity) hPower
        _ ≤ n * 10 ^ k := hLow
        _ < 10 ^ (before + 1) * 10 ^ k := mul_lt_mul_of_pos_right (by exact_mod_cast hBelow) hUnit
        _ = 10 ^ (before + 1 + k : ℤ) := by
            rw [zpow_add₀ (by norm_num), zpow_add_one₀ (by norm_num), zpow_natCast, pow_succ]
    have hExponent := (zpow_lt_zpow_iff_right₀ (by norm_num)).mp hLess
    omega
  · have hLess : (10 : ℚ) ^ (before + k : ℤ) < 10 ^ (400 : ℤ) :=
      calc (10 : ℚ) ^ (before + k : ℤ) = 10 ^ before * 10 ^ k := by
            rw [zpow_add₀ (by norm_num), zpow_natCast]
        _ ≤ n * 10 ^ k := mul_le_mul_of_nonneg_right (by exact_mod_cast hAbove) hUnit.le
        _ ≤ (2 : ℚ) ^ (1024 : ℤ) := hHigh
        _ < (2 : ℚ) ^ (1075 : ℤ) := zpow_lt_zpow_right₀ one_lt_two (by decide)
        _ ≤ 10 ^ (400 : ℤ) := hPower
    have hExponent := (zpow_lt_zpow_iff_right₀ (by norm_num)).mp hLess
    omega

end PlanReplay.Decimal
