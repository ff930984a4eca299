import PlanReplay.Decimal.Shortest
import PlanReplay.Proofs.Decimal.ReadBack
import PlanReplay.Proofs.Decimal.Scientific

/-!
# The shortest text of a double is read back

The search for the shortest text goes through the decimal grids. A hit on a grid is a number that is rounded to the double,
and on the last grid there is one, since this grid is finer than a quarter of the unit in the last place. The text of the
hit is read as what the hit is rounded to.

* `Decimal.Inside`, `Decimal.isHalfEven_of_inside` — where a grid looks for a hit, and what is rounded there.
* `Decimal.onGrid_inside`, `Decimal.onGrid_isSome` — hits, and a grid that has one.
* `Decimal.exists_shortest` — the decimal that is found.
* `Decimal.readFloatChars_text` — the text of a decimal is read as this decimal.
* `Decimal.readFloat?_floatText` — every finite double is read back from its text.
-/

namespace PlanReplay.Decimal

open Double
open Float.Model (Format)
open Float.Model.UnpackedFloat

-- ---------------------------------------------------------------------------
-- Grids
-- ---------------------------------------------------------------------------

/-- A quarter of the unit in the last place, and a step of the grid, in common units. -/
def quarterOn (e p : Int) : Nat := twoTo (e - 2).toNat * tenTo (-p).toNat

def stepOn (e p : Int) : Nat := twoTo (2 - e).toNat * tenTo p.toNat

/-- What a grid takes for a number that is read back as the mantissa `m`. -/
def Inside (m : Nat) (edge : Bool) (quarter place : Nat) : Prop :=
  if m % 2 = 0 then
    (4 * m - if edge then 1 else 2) * quarter ≤ place ∧ place ≤ (4 * m + 2) * quarter
  else (4 * m - if edge then 1 else 2) * quarter < place ∧ place < (4 * m + 2) * quarter

variable {tie : TieRule} {m n : Nat} {e p : Int} {edge : Bool}

theorem quarterOn_pos (e p : Int) : 0 < quarterOn e p :=
  Nat.mul_pos (Nat.pow_pos (by decide)) (Nat.pow_pos (by decide))

theorem stepOn_pos (e p : Int) : 0 < stepOn e p :=
  Nat.mul_pos (Nat.pow_pos (by decide)) (Nat.pow_pos (by decide))

/-- A hit is not zero, and it is inside. -/
theorem onGrid_inside (h : onGrid tie m e edge p = some n) : 0 < n ∧ Inside m edge (quarterOn e p) (n * stepOn e p) := by
  unfold onGrid at h
  extract_lets scale unit value high low inside below twice at h
  have hInside : ∀ k, inside k = true → Inside m edge (quarterOn e p) (k * stepOn e p) := by
    intro k hk
    change (if m % 2 = 0 then decide (low ≤ k * unit ∧ k * unit ≤ high)
      else decide (low < k * unit ∧ k * unit < high)) = true at hk
    unfold Inside
    split at hk
    · rename_i hEven
      rw [if_pos hEven]
      exact of_decide_eq_true hk
    · rename_i hOdd
      rw [if_neg hOdd]
      exact of_decide_eq_true hk
  split at h
  · cases h
  · rename_i hSome
    have hPos : 0 < below := Nat.pos_of_ne_zero hSome
    split at h
    · rename_i hBoth
      obtain ⟨hBelow, hAbove⟩ := Bool.and_eq_true_iff.mp hBoth
      obtain rfl := Option.some.inj h
      split
      · exact ⟨hPos, hInside _ hBelow⟩
      · exact ⟨below.succ_pos, hInside _ hAbove⟩
    · split at h
      · rename_i hBelow
        obtain rfl := Option.some.inj h
        exact ⟨hPos, hInside _ hBelow⟩
      · split at h
        · rename_i hAbove
          obtain rfl := Option.some.inj h
          exact ⟨below.succ_pos, hInside _ hAbove⟩
        · cases h

/-- A grid that is finer than a quarter of the last place has a hit: the place below the double is near enough. -/
theorem onGrid_isSome (hPos : 0 < m) (hFine : stepOn e p ≤ quarterOn e p) : (onGrid tie m e edge p).isSome = true := by
  unfold onGrid
  extract_lets scale unit value high low inside below twice
  have hUnit : 0 < unit := stepOn_pos e p
  have hScale : unit ≤ scale := hFine
  have hAt : below * unit ≤ value := Nat.div_mul_le_self value unit
  have hNext : value < (below + 1) * unit := Nat.lt_mul_of_div_lt (Nat.lt_succ_self _) hUnit
  have hSome : below ≠ 0 := by
    refine (Nat.div_pos ?_ hUnit).ne'
    exact hScale.trans (Nat.le_mul_of_pos_left scale (by omega))
  have hLow : low < below * unit := by
    have hStep : low + scale ≤ value := by
      have hLess : (4 * m - if edge then 1 else 2) + 1 ≤ 4 * m := by
        split <;> omega
      calc low + scale = ((4 * m - if edge then 1 else 2) + 1) * scale := (Nat.succ_mul _ _).symm
        _ ≤ 4 * m * scale := Nat.mul_le_mul_right scale hLess
    rw [Nat.succ_mul] at hNext
    omega
  have hHigh : below * unit < high := by
    have hStep : high = value + 2 * scale := Nat.add_mul _ _ _
    omega
  have hBelow : inside below = true := by
    change (if m % 2 = 0 then decide (low ≤ below * unit ∧ below * unit ≤ high)
      else decide (low < below * unit ∧ below * unit < high)) = true
    split
    · exact decide_eq_true ⟨hLow.le, hHigh.le⟩
    · exact decide_eq_true ⟨hLow, hHigh⟩
  rw [if_neg hSome, hBelow, Bool.true_and, if_pos rfl]
  split <;> rfl

-- ---------------------------------------------------------------------------
-- What is rounded to the double
-- ---------------------------------------------------------------------------

/-- A place of the grid in units of the last place. -/
theorem units_eq (n : Nat) (e p : Int) :
    (n : ℚ) * 10 ^ p / 2 ^ e = (n * stepOn e p : Nat) / (4 * quarterOn e p : Nat) := by
  have hTwo := power_quotient (2 - e)
  have hTen := ten_quotient p
  rw [Int.neg_sub, zpow_sub₀ two_ne_zero] at hTwo
  calc (n : ℚ) * 10 ^ p / 2 ^ e = n * (2 ^ (2 : ℤ) / 2 ^ e) * 10 ^ p / 4 := by
        rw [show (2 : ℚ) ^ (2 : ℤ) = 4 by norm_num]
        ring
    _ = (n * stepOn e p : Nat) / (4 * quarterOn e p : Nat) := by
        rw [← hTwo, ← hTen, stepOn, quarterOn]
        push_cast
        ring

/-- What is inside is near the mantissa, and twice as near below an edge. -/
theorem units_of_inside (hPos : 0 < m) (h : Inside m edge (quarterOn e p) (n * stepOn e p)) :
    let units := (n : ℚ) * 10 ^ p / 2 ^ e
    IsHalfEven units m ∧ (edge = true → m - 1 / 4 ≤ units) := by
  intro units
  have hQuarter : (0 : ℚ) < quarterOn e p := Nat.cast_pos.mpr (quarterOn_pos e p)
  have hScaled : ((n * stepOn e p : Nat) : ℚ) = 4 * units * quarterOn e p := by
    change _ = 4 * ((n : ℚ) * 10 ^ p / 2 ^ e) * _
    rw [units_eq]
    push_cast
    field_simp
  generalize n * stepOn e p = place at h hScaled
  generalize quarterOn e p = quarter at h hScaled hQuarter
  have hLe : ∀ k : Nat, k * quarter ≤ place ↔ (k : ℚ) ≤ 4 * units := by
    intro k
    rw [← Nat.cast_le (α := ℚ), hScaled, Nat.cast_mul, mul_le_mul_iff_of_pos_right hQuarter]
  have hGe : ∀ k : Nat, place ≤ k * quarter ↔ 4 * units ≤ k := by
    intro k
    rw [← Nat.cast_le (α := ℚ), hScaled, Nat.cast_mul, mul_le_mul_iff_of_pos_right hQuarter]
  obtain ⟨gap, hGap, hAtMost, hEdge⟩ : ∃ gap : ℚ, ((4 * m - if edge then 1 else 2 : Nat) : ℚ) = 4 * m - gap ∧
      gap ≤ 2 ∧ (edge = true → gap = 1) := by
    refine ⟨(if edge then 1 else 2 : Nat), ?_, ?_, ?_⟩
    · rw [Nat.cast_sub (by split <;> omega)]
      push_cast
      rfl
    · split <;> norm_num
    · rintro rfl
      norm_num
  have hAbove : ((4 * m + 2 : Nat) : ℚ) = 4 * m + 2 := by push_cast; rfl
  unfold Inside at h
  split at h
  · rename_i hEven
    rw [hLe, hGe, hGap, hAbove] at h
    obtain ⟨hLow, hHigh⟩ := h
    refine ⟨⟨?_, fun _ => ?_⟩, fun hSmall => ?_⟩
    · rw [Int.cast_natCast, abs_le]
      constructor <;> linarith
    · exact_mod_cast Nat.even_iff.mpr hEven
    · have hQuarterGap := hEdge hSmall
      linarith
  · -- an odd mantissa has no ends
    rw [lt_iff_lt_of_le_iff_le (hGe _), lt_iff_lt_of_le_iff_le (hLe _), hGap, hAbove] at h
    obtain ⟨hLow, hHigh⟩ := h
    have hNear : |units - m| < 1 / 2 := by
      rw [abs_lt]
      constructor <;> linarith
    refine ⟨isHalfEven_of_lt hNear, fun hSmall => ?_⟩
    have hQuarterGap := hEdge hSmall
    linarith

-- ---------------------------------------------------------------------------
-- The search
-- ---------------------------------------------------------------------------

/-- Powers compare as multiples of exponents do, if two powers of the bases do. -/
theorem pow_le_pow_of_ratio {a b k l i j : Nat} (hBase : a ^ k ≤ b ^ l) (hk : k ≠ 0) (hb : 0 < b) (hRatio : l * i ≤ k * j) :
    a ^ i ≤ b ^ j := by
  refine (Nat.pow_le_pow_iff_left hk).mp ?_
  calc (a ^ i) ^ k = (a ^ k) ^ i := by rw [← pow_mul, ← pow_mul, mul_comm]
    _ ≤ (b ^ l) ^ i := Nat.pow_le_pow_left hBase i
    _ = b ^ (l * i) := (pow_mul b l i).symm
    _ ≤ b ^ (k * j) := Nat.pow_le_pow_right hb hRatio
    _ = (b ^ j) ^ k := by rw [mul_comm, pow_mul]

/-- The last grid of a search is fine: `10 ^ 3` is below `2 ^ 10`, and `2 ^ 93` is below `10 ^ 28`. -/
theorem stepOn_le_quarterOn (hLow : -1074 ≤ e) (hHigh : e ≤ 971) (hp : p ≤ (53 + e) * 30103 / 100000 - 19) :
    stepOn e p ≤ quarterOn e p := by
  change 2 ^ (2 - e).toNat * 10 ^ p.toNat ≤ 2 ^ (e - 2).toNat * 10 ^ (-p).toNat
  rcases le_or_gt 0 p with hWhole | hPlaces
  · have hNone : (2 - e).toNat = 0 := by omega
    rw [hNone, pow_zero, one_mul]
    refine le_trans ?_ (Nat.le_mul_of_pos_right _ (Nat.pow_pos (by decide)))
    exact pow_le_pow_of_ratio (k := 3) (l := 10) (by norm_num) (by decide) (by decide) (by omega)
  · have hNone : p.toNat = 0 := by omega
    rw [hNone, pow_zero, mul_one]
    refine le_trans ?_ (Nat.le_mul_of_pos_left _ (Nat.two_pow_pos _))
    exact pow_le_pow_of_ratio (k := 93) (l := 28) (by norm_num) (by decide) (by decide) (by omega)

/-- **The search finds a hit**, and drops a zero at its end. -/
theorem exists_shortest (tie : TieRule) (edge : Bool) (hFits : Fits m e) (hPos : 0 < m) (hRange : e ≤ 971) :
    ∃ n p, onGrid tie m e edge p = some n ∧ 0 < (shortest tie m e edge).digits ∧
      ((shortest tie m e edge).digits : ℚ) * 10 ^ (shortest tie m e edge).exponent = n * 10 ^ p := by
  unfold shortest
  extract_lets top hit
  have hFound : hit.isSome = true := by
    have hLog : m.log2 < 53 := (Nat.log2_lt hPos.ne').mpr hFits.1
    refine List.findSome?_isSome_iff.mpr ⟨20, by decide, ?_⟩
    rw [Option.isSome_map]
    refine onGrid_isSome hPos (stepOn_le_quarterOn hFits.2.1 hRange ?_)
    change (m.log2 + 1 + e) * 30103 / 100000 + 1 - 20 ≤ _
    omega
  obtain ⟨⟨n, p⟩, hHit⟩ := Option.isSome_iff_exists.mp hFound
  obtain ⟨i, -, hGrid⟩ := List.exists_of_findSome?_eq_some hHit
  obtain ⟨digits, hDigits, hSame⟩ := Option.map_eq_some_iff.mp hGrid
  cases hSame
  obtain ⟨hSome, -⟩ := onGrid_inside hDigits
  refine ⟨n, top - i, hDigits, ?_⟩
  rw [hHit]
  dsimp only
  split
  · rename_i hZero
    obtain ⟨k, rfl⟩ := Nat.dvd_of_mod_eq_zero hZero
    dsimp only
    rw [Nat.mul_div_cancel_left k (by decide)]
    refine ⟨by omega, ?_⟩
    rw [zpow_add_one₀ (by norm_num)]
    push_cast
    ring
  · exact ⟨hSome, rfl⟩

-- ---------------------------------------------------------------------------
-- The text
-- ---------------------------------------------------------------------------

/-- Zeros at the end are factors. -/
theorem natOfDigits_zeros_after (digits : List Char) (k : Nat) :
    natOfDigits (digits ++ List.replicate k '0') = natOfDigits digits * 10 ^ k := by
  induction k with
  | zero => rw [List.replicate_zero, List.append_nil, pow_zero, mul_one]
  | succ k ih =>
    have hLast : natOfDigits ((digits ++ List.replicate k '0') ++ ['0']) =
        10 * natOfDigits (digits ++ List.replicate k '0') :=
      List.foldl_append
    rw [List.replicate_succ', ← List.append_assoc, hLast, ih, pow_succ]
    ring

/-- **The text of a decimal is read** as this decimal, maybe with its zeros among the digits. -/
theorem readFloatChars_text (negative : Bool) {d : Scaled} (hPos : 0 < d.digits) :
    ∃ (n : Nat) (k : Int), 0 < n ∧ (n : ℚ) * 10 ^ k = d.digits * 10 ^ d.exponent ∧
      readFloatChars (signChars negative ++ d.text) =
        some (if negative then -nearestFloat n k else nearestFloat n k) := by
  obtain ⟨digits, exponent⟩ := d
  unfold Scaled.text
  rcases lt_or_ge exponent 0 with hBelow | hWhole
  · refine ⟨digits, exponent, hPos, rfl, ?_⟩
    have hNone : exponent.toNat = 0 := by omega
    have hPlaces : 0 < (-exponent).toNat := by omega
    have hPoint := readFloatChars_withPoint negative hPlaces digits
    rw [show -((-exponent).toNat : Int) = exponent by omega] at hPoint
    dsimp only
    rw [hNone, List.replicate_zero, List.append_nil, hPoint]
  · obtain ⟨j, rfl⟩ := Int.eq_ofNat_of_zero_le hWhole
    refine ⟨digits * 10 ^ j, 0, Nat.mul_pos hPos (Nat.pow_pos (by decide)), ?_, ?_⟩
    · push_cast
      rw [mul_one, zpow_natCast]
    · have hText : withPoint (-(j : Int)).toNat (digitChars digits ++ List.replicate (j : Int).toNat '0') =
          digitChars digits ++ List.replicate j '0' := by
        rw [Int.toNat_neg_natCast, Int.toNat_natCast]
        rfl
      dsimp only
      rw [hText, readFloatChars_whole negative, natOfDigits_zeros_after, natOfDigits_digitChars]
      · exact List.append_ne_nil_of_left_ne_nil (List.length_pos_iff.mp Nat.length_toDigits_pos) _
      · intro c hc
        rcases List.mem_append.mp hc with hDigit | hZero
        · exact isDigit_of_mem_digitChars hDigit
        · rw [List.eq_of_mem_replicate hZero]
          rfl

-- ---------------------------------------------------------------------------
-- Doubles
-- ---------------------------------------------------------------------------

/-- **What is rounded to a double is read as this double.** -/
theorem parts_nearestFloat (hFits : Fits m e) (hPos : 0 < m) (hRange : e ≤ 971) {k : Int} (hn : 0 < n)
    (hHalf : IsHalfEven ((n : ℚ) * 10 ^ k / 2 ^ e) m)
    (hEdge : m = 2 ^ 52 → -1074 < e → 2 ^ 52 - 1 / 4 ≤ (n : ℚ) * 10 ^ k / 2 ^ e) :
    parts (nearestFloat n k) = .finite .positive m e hPos := by
  have hUnit : (0 : ℚ) < 2 ^ e := zpow_pos two_pos e
  obtain ⟨hNearLow, hNearHigh⟩ := abs_le.mp hHalf.near
  rw [Int.cast_natCast] at hNearLow hNearHigh
  have hBits : (m : ℚ) + 1 ≤ 2 ^ (53 : ℤ) := by exact_mod_cast hFits.1
  have hOne : (1 : ℚ) ≤ m := by exact_mod_cast hPos
  have hLow : (2 : ℚ) ^ (-1075 : ℤ) ≤ n * 10 ^ k :=
    calc (2 : ℚ) ^ (-1075 : ℤ) ≤ 2 ^ (e - 1) := zpow_le_zpow_right₀ one_le_two (by have := hFits.2.1; omega)
      _ = 1 / 2 * 2 ^ e := by
          rw [zpow_sub_one₀ two_ne_zero]
          ring
      _ ≤ n * 10 ^ k := (le_div_iff₀ hUnit).mp (by linarith)
  have hHigh : (n : ℚ) * 10 ^ k ≤ 2 ^ (1024 : ℤ) :=
    calc (n : ℚ) * 10 ^ k ≤ 2 ^ (53 : ℤ) * 2 ^ e := (div_le_iff₀ hUnit).mp (by linarith)
      _ = 2 ^ (53 + e) := (zpow_add₀ two_ne_zero 53 e).symm
      _ ≤ 2 ^ (1024 : ℤ) := zpow_le_zpow_right₀ one_le_two (by omega)
  obtain ⟨hLeast, hMost⟩ := length_toDigits_within hn hLow hHigh
  obtain ⟨u, hCanonical, hRounded, hParts⟩ := exists_rounded hn hLeast hMost
  have hValue : value u = m * 2 ^ e := hRounded.unique (rounded_of_isHalfEven hFits hHalf hEdge)
  obtain ⟨m', e', hm', rfl, hFits'⟩ := exists_positive hCanonical (hValue ▸ magnitude_pos e hPos)
  rw [value_positive] at hValue
  obtain ⟨rfl, rfl⟩ := magnitude_injective hFits' hFits hValue
  rw [hParts, repack_canonical hCanonical hRange]

/-- **Every finite double is read back from its text.** -/
theorem readFloat?_floatText {x : Float} (h : x.isFinite = true) : readFloat? (floatText x) = some x := by
  rw [isFinite_iff] at h
  have hRange := upTo_parts h
  cases hParts : parts x with
  | notANumber | infinity s =>
    rw [hParts] at h
    cases h
  | zero s =>
    -- zeros have no digits but one
    have hZero : x = 0 ∨ x = -0 := by
      cases s with
      | positive => exact Or.inl (parts_injective hParts)
      | negative => exact Or.inr (parts_injective hParts)
    rcases hZero with rfl | rfl
    · decide +kernel
    · decide +kernel
  | finite s m e hm =>
    rw [hParts] at hRange
    have hFits : Fits m e := canonical hParts
    obtain ⟨edge, hDecoded⟩ := ofFloat_of_finite hParts
    obtain ⟨n, p, hGrid, hSome, hSame⟩ := exists_shortest .larger edge hFits hm hRange
    obtain ⟨hn, hInside⟩ := onGrid_inside hGrid
    obtain ⟨hHalf, hNear⟩ := units_of_inside hm hInside
    obtain ⟨digits, k, hDigits, hValue, hRead⟩ := readFloatChars_text (isMinus s) hSome
    rw [← hSame, ← hValue] at hHalf hNear
    have hMagnitude : parts (nearestFloat digits k) = .finite .positive m e hm := by
      refine parts_nearestFloat hFits hm hRange hDigits hHalf ?_
      rintro rfl hPlace
      exact_mod_cast hNear (edge_of_decodeBits hDecoded hPlace)
    unfold floatText readFloat? Value.text
    rw [hDecoded]
    dsimp only
    rw [if_neg hm.ne', String.toList_ofList, hRead]
    congr 1
    refine parts_injective ?_
    cases s with
    | positive => exact hMagnitude.trans hParts.symm
    | negative =>
      refine (parts_neg _).trans ?_
      rw [hMagnitude, hParts]
      rfl

end PlanReplay.Decimal
