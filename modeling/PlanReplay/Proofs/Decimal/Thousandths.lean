import PlanReplay.Proofs.Decimal.ReadBack
import PlanReplay.Proofs.Decimal.Scientific

/-!
# Times in thousandths

Times are printed with three places. A double that is printed so and read again need not be the same double, but it has
the same thousandths: what is read is a double nearest to the decimal, and the one that was printed is no nearer.

* `Decimal.thousandths?` — the thousandths that a double is rounded to.
* `Decimal.exists_nearestFloat` — a decimal is read as a double that is rounded to this decimal.
* `Decimal.readFloatChars_fixedText`, `Decimal.thousandths_reread` — what is printed is read, as a finite double with
  the same thousandths.
* `Decimal.reread_order` — what is printed in order is read in order.
-/

namespace PlanReplay.Decimal

open Double
open Float.Model (Format)
open Float.Model.UnpackedFloat

-- ---------------------------------------------------------------------------
-- The double that a number of thousandths is read as
-- ---------------------------------------------------------------------------

/-- No magnitude of 53 bits within the range of doubles is above the largest double. -/
theorem magnitude_le_range {m : Nat} {e : Int} (hFits : Fits m e) (hRange : e ≤ 971) :
    (m : ℚ) * 2 ^ e ≤ 2 ^ 1024 - 2 ^ 971 := by
  have hMantissa : (m : ℚ) ≤ 2 ^ 53 - 1 := by
    have hBits : m + 1 ≤ 2 ^ 53 := hFits.1
    have hRat : (m : ℚ) + 1 ≤ 2 ^ 53 := by exact_mod_cast hBits
    linarith
  calc (m : ℚ) * 2 ^ e ≤ m * 2 ^ (971 : ℤ) :=
        mul_le_mul_of_nonneg_left (zpow_le_zpow_right₀ one_le_two hRange) (Nat.cast_nonneg m)
    _ ≤ (2 ^ 53 - 1) * 2 ^ (971 : ℤ) := mul_le_mul_of_nonneg_right hMantissa (zpow_pos two_pos _).le
    _ = 2 ^ 1024 - 2 ^ 971 := by
        rw [sub_mul, one_mul]
        exact congrArg (· - (2 : ℚ) ^ 971) (pow_add 2 53 971).symm

/-- What the largest doubles are in thousandths has at most 403 digits. -/
theorem thousandths_range : (1000 : ℚ) * 2 ^ 1024 + 1 ≤ (10 : Nat) ^ 403 := by
  have hPower : (2 : ℚ) ^ 1024 ≤ 10 ^ 342 :=
    calc (2 : ℚ) ^ 1024 ≤ 2 ^ (3 * 342) := pow_le_pow_right₀ one_le_two (by decide)
      _ = 8 ^ 342 := by rw [pow_mul]; norm_num
      _ ≤ 10 ^ 342 := pow_le_pow_left₀ (by norm_num) (by norm_num) 342
  have hOne : (1 : ℚ) ≤ 10 ^ 342 := one_le_pow₀ (by norm_num)
  calc (1000 : ℚ) * 2 ^ 1024 + 1 ≤ 10 ^ 4 * 10 ^ 342 := by
        generalize (2 : ℚ) ^ 1024 = limit at hPower ⊢
        generalize (10 : ℚ) ^ 342 = power at hPower hOne ⊢
        linarith
    _ = 10 ^ 346 := (pow_add 10 4 342).symm
    _ ≤ 10 ^ 403 := pow_le_pow_right₀ (by norm_num) (by decide)
    _ = (10 : Nat) ^ 403 := congrArg (· ^ 403) (Nat.cast_ofNat (R := ℚ) (n := 10)).symm

/-- A number of thousandths in the range of doubles is read as their quotient. -/
theorem nearestFloat_eq {t : Nat} (hPos : 0 < t) (hSmall : (Nat.toDigits 10 t).length ≤ 403) :
    nearestFloat t (-3) = Float.ofScientific t true 3 := by
  unfold nearestFloat
  dsimp only
  rw [if_neg hPos.ne', if_neg (by omega), if_neg (by omega)]
  rfl

section

variable {t m : Nat} {e : Int} (hPos : 0 < t) (hFits : Fits m e) (hRange : e ≤ 971)
  (hRound : IsHalfEven (1000 * ((m : ℚ) * 2 ^ e)) t)

include hFits hRange hRound in
theorem length_toDigits_thousandths : (Nat.toDigits 10 t).length ≤ 403 := by
  have hBound := magnitude_le_range hFits hRange
  have hNear := (abs_le.mp hRound.near).1
  rw [Int.cast_natCast] at hNear
  have hUnit : (0 : ℚ) < 2 ^ 971 := pow_pos two_pos _
  have hDigits : ∀ n : Nat, 0 < n → (t : ℚ) < (10 : Nat) ^ n → (Nat.toDigits 10 t).length ≤ n :=
    fun n hSome h => (Nat.length_toDigits_le_iff (by decide) hSome).mpr (by exact_mod_cast h)
  refine hDigits 403 (by decide) (lt_of_lt_of_le ?_ thousandths_range)
  generalize (2 : ℚ) ^ 1024 = limit at hBound ⊢
  generalize (2 : ℚ) ^ 971 = unit at hBound hUnit
  linarith

include hFits hRange hRound in
/-- A double with the same thousandths is in the range as well: a larger exponent is that of a number farther away. -/
theorem exponent_le_of_same {m' : Nat} {e' : Int} (hFits' : Fits m' e')
    (hSame : IsHalfEven (1000 * ((m' : ℚ) * 2 ^ e')) t) : e' ≤ 971 := by
  by_contra hAbove
  have hLarge : 972 ≤ e' := by omega
  have hFull : 2 ^ 52 ≤ m' := hFits'.2.2.resolve_left (by omega)
  have hLeast : (2 : ℚ) ^ 1024 ≤ m' * 2 ^ e' :=
    calc (2 : ℚ) ^ 1024 = 2 ^ 52 * 2 ^ ((972 : Nat) : ℤ) := pow_add 2 52 972
      _ ≤ m' * 2 ^ ((972 : Nat) : ℤ) := mul_le_mul_of_nonneg_right (by exact_mod_cast hFull) (zpow_pos two_pos _).le
      _ ≤ m' * 2 ^ e' := mul_le_mul_of_nonneg_left (zpow_le_zpow_right₀ one_le_two hLarge) (Nat.cast_nonneg m')
  have hBound := magnitude_le_range hFits hRange
  have hNear := (abs_le.mp hRound.near).1
  have hNear' := (abs_le.mp hSame.near).2
  have hUnit : (1 : ℚ) ≤ 2 ^ 971 := one_le_pow₀ one_le_two
  generalize (2 : ℚ) ^ 1024 = limit at hBound hLeast
  generalize (2 : ℚ) ^ 971 = unit at hBound hUnit
  linarith

include hPos hFits hRange hRound in
/-- **A number of thousandths is read as a double of as many thousandths**: a double with these thousandths exists, and
what is read is no farther from them. -/
theorem exists_nearestFloat :
    ∃ (m' : Nat) (e' : Int) (hm' : 0 < m'), parts (nearestFloat t (-3)) = .finite .positive m' e' hm' ∧
      IsHalfEven (1000 * ((m' : ℚ) * 2 ^ e')) t := by
  obtain ⟨m₁, m₂, e₁, e₂, hm₁, hm₂, hQuotient, hParts⟩ := exists_quotient (k := 3) hPos (by decide) (by omega)
  have hNearest := nearest_div e₁ e₂ hm₁ hm₂ hFits
  have hCanonical := canonical_div e₁ e₂ hm₁ hm₂
  have hUpright : HasSign .positive (div .binary64 (.finite .positive m₁ e₁ hm₁) (.finite .positive m₂ e₂ hm₂)) :=
    hasSign_round _ _ _ _
  rw [nearestFloat_eq hPos (length_toDigits_thousandths hFits hRange hRound), hParts]
  rw [hQuotient, show (10 : ℚ) ^ 3 = 1000 by norm_num] at hNearest
  generalize div .binary64 (.finite .positive m₁ e₁ hm₁) (.finite .positive m₂ e₂ hm₂) = u at *
  have hScaled : |1000 * value u - (t : ℤ)| ≤ |1000 * ((m : ℚ) * 2 ^ e) - (t : ℤ)| := by
    have hFactor : ∀ r : ℚ, 1000 * r - (t : ℤ) = 1000 * (r - t / 1000) := by
      intro r
      rw [Int.cast_natCast]
      ring
    rw [hFactor, hFactor, abs_mul, abs_mul]
    exact mul_le_mul_of_nonneg_left hNearest (abs_nonneg _)
  have hSame := hRound.of_nearer hScaled
  cases u with
  | notANumber | infinity s => exact hCanonical.elim
  | zero s =>
    have hNear := (abs_le.mp hSame.near).1
    have hOne : (1 : ℚ) ≤ t := by exact_mod_cast hPos
    rw [value_zero, Int.cast_natCast] at hNear
    linarith
  | finite s m' e' hm' =>
    obtain rfl : s = .positive := hUpright
    rw [value_positive] at hSame
    have hInRange : e' ≤ 971 := exponent_le_of_same hFits hRange hRound hCanonical hSame
    exact ⟨m', e', hm', repack_canonical hCanonical hInRange, hSame⟩

end

-- ---------------------------------------------------------------------------
-- Doubles that are written
-- ---------------------------------------------------------------------------

/-- A double in thousandths, as it is written with three places. What is not finite has none. -/
def thousandths? (x : Float) : Option Int :=
  match ofFloat x with
  | .finite negative mantissa exponent _ =>
    let units : Int := roundHalfEven (mantissa * twoTo exponent.toNat * tenTo 3) (twoTo (-exponent).toNat)
    some (if negative then -units else units)
  | _ => none

/-- The double `x` is written with the sign `s` and `t` thousandths. -/
structure Written (x : Float) (s : Sign) (t : Nat) : Prop where
  sign : HasSign s (parts x)
  text : (fixedText 3 x).toList = signChars (isMinus s) ++ withPoint 3 (digitChars t)
  thousandths : thousandths? x = some (s.apply t)
  rounded : ∃ (m : Nat) (e : Int), Fits m e ∧ e ≤ 971 ∧ value (parts x) = (s.apply m : ℤ) * 2 ^ e ∧
    IsHalfEven (1000 * ((m : ℚ) * 2 ^ e)) t

/-- Every finite double is written in thousandths. -/
theorem exists_written {x : Float} (h : x.isFinite = true) : ∃ s t, Written x s t := by
  obtain ⟨s, m, e, edge, hParts, hSign, hFits, hRange, hValue⟩ := exists_ofFloat h
  obtain ⟨t, ht⟩ : ∃ t, t = roundHalfEven (m * twoTo e.toNat * tenTo 3) (twoTo (-e).toNat) := ⟨_, rfl⟩
  have hRound := isHalfEven_roundHalfEven (m * twoTo e.toNat * tenTo 3)
    (show 0 < twoTo (-e).toNat from Nat.two_pow_pos _)
  rw [units_quotient, show ((tenTo 3 : Nat) : ℚ) = 1000 by norm_num [tenTo], ← ht] at hRound
  refine ⟨s, t, hSign, ?_, ?_, m, e, hFits, hRange, hValue, hRound⟩
  · unfold fixedText
    rw [hParts, ht]
    exact String.toList_ofList
  · unfold thousandths?
    rw [hParts]
    dsimp only
    rw [← ht]
    cases s <;> rfl

variable {x y : Float} {s s' : Sign} {t t' : Nat}

/-- Numbers below zero have the thousandths of their magnitudes. -/
theorem isHalfEven_apply (s : Sign) {m t : Nat} {e : Int} (h : IsHalfEven (1000 * ((m : ℚ) * 2 ^ e)) t) :
    IsHalfEven (1000 * ((s.apply m : ℤ) * 2 ^ e)) (s.apply t) := by
  cases s with
  | positive => exact h
  | negative =>
    have hNeg := h.neg
    rw [← mul_neg, ← neg_mul] at hNeg
    simpa only [Sign.apply, Int.cast_neg, Int.cast_natCast] using hNeg

/-- The thousandths of a double are those of its value. -/
theorem Written.isHalfEven (h : Written x s t) : IsHalfEven (1000 * value (parts x)) (s.apply t) := by
  obtain ⟨m, e, -, -, hValue, hRound⟩ := h.rounded
  rw [hValue]
  exact isHalfEven_apply s hRound

/-- A double whose value is rounded to a number of thousandths has as many. -/
theorem thousandths_of_isHalfEven (hFinite : x.isFinite = true) {t : Int} (h : IsHalfEven (1000 * value (parts x)) t) :
    thousandths? x = some t := by
  obtain ⟨s, t', hWritten⟩ := exists_written hFinite
  rw [hWritten.thousandths, hWritten.isHalfEven.unique h]

/-- The double that is read where `t` thousandths with the sign `s` are written. -/
def ofThousandths (s : Sign) (t : Nat) : Float :=
  match s with
  | .positive => nearestFloat t (-3)
  | .negative => -nearestFloat t (-3)

/-- The parts that are read where the thousandths of a double are written. -/
theorem Written.parts_read (h : Written x s t) :
    (t = 0 ∧ parts (ofThousandths s t) = .zero s) ∨
      ∃ m e hm, parts (ofThousandths s t) = .finite s m e hm ∧ IsHalfEven (1000 * ((m : ℚ) * 2 ^ e)) t := by
  obtain ⟨m, e, hFits, hRange, -, hRound⟩ := h.rounded
  rcases t.eq_zero_or_pos with rfl | hPos
  · left
    refine ⟨rfl, ?_⟩
    cases s with
    | positive => rfl
    | negative => exact parts_neg _
  · right
    obtain ⟨m', e', hm', hParts, hRound'⟩ := exists_nearestFloat hPos hFits hRange hRound
    refine ⟨m', e', hm', ?_, hRound'⟩
    cases s with
    | positive => exact hParts
    | negative =>
      refine (parts_neg _).trans ?_
      rw [hParts]
      rfl

/-- What is read has the sign and the thousandths of what is written. -/
theorem Written.of_read (h : Written x s t) :
    (ofThousandths s t).isFinite = true ∧ HasSign s (parts (ofThousandths s t)) ∧
      IsHalfEven (1000 * value (parts (ofThousandths s t))) (s.apply t) := by
  rw [isFinite_iff]
  rcases h.parts_read with ⟨rfl, hParts⟩ | ⟨m, e, hm, hParts, hRound⟩
  · rw [hParts]
    refine ⟨rfl, rfl, isHalfEven_of_lt ?_⟩
    cases s <;> simp [Sign.apply]
  · rw [hParts]
    exact ⟨rfl, rfl, isHalfEven_apply s hRound⟩

/-- What is added to zero keeps its value. -/
theorem value_zero_add (h : y.isFinite = true) : value (parts (0 + y)) = value (parts y) := by
  rw [isFinite_iff] at h
  have hRange := upTo_parts h
  rw [parts_add, parts_zero]
  cases hParts : parts y with
  | notANumber | infinity s =>
    rw [hParts] at h
    cases h
  | zero s => cases s <;> rfl
  | finite s m e hm =>
    rw [hParts] at hRange
    exact congrArg value (repack_canonical (u := .finite s m e hm) (canonical hParts) hRange)

/-- Doubles that are written as equally many thousandths are read as the same double, once zeros have lost their sign. -/
theorem zero_add_congr (hSame : s.apply t = s'.apply t') : 0 + ofThousandths s t = 0 + ofThousandths s' t' := by
  cases s with
  | positive =>
    cases s' with
    | positive =>
      obtain rfl : t = t' := Int.ofNat.inj hSame
      rfl
    | negative =>
      simp only [Sign.apply] at hSame
      obtain ⟨rfl, rfl⟩ : t = 0 ∧ t' = 0 := by omega
      exact parts_injective rfl
  | negative =>
    simp only [Sign.apply] at hSame
    cases s' with
    | positive =>
      simp only [] at hSame
      obtain ⟨rfl, rfl⟩ : t = 0 ∧ t' = 0 := by omega
      exact parts_injective rfl
    | negative =>
      obtain rfl : t = t' := by
        simp only [] at hSame
        omega
      rfl

/-- The double that is read where `x` is written with three places. -/
def reread (x : Float) : Float := (readFloatChars (fixedText 3 x).toList).getD 0

theorem Written.reread_eq (h : Written x s t) :
    readFloatChars (fixedText 3 x).toList = some (ofThousandths s t) ∧ reread x = ofThousandths s t := by
  have hRead : readFloatChars (fixedText 3 x).toList = some (ofThousandths s t) := by
    rw [h.text, readFloatChars_withPoint _ (by decide)]
    cases s <;> rfl
  exact ⟨hRead, congrArg (Option.getD · 0) hRead⟩

variable (hx : x.isFinite = true) (hy : y.isFinite = true)

include hx in
/-- Every finite double that is written can be read, as a finite double. -/
theorem readFloatChars_fixedText :
    readFloatChars (fixedText 3 x).toList = some (reread x) ∧ (reread x).isFinite = true := by
  obtain ⟨s, t, hWritten⟩ := exists_written hx
  obtain ⟨hRead, hSame⟩ := hWritten.reread_eq
  rw [hRead, hSame]
  exact ⟨rfl, hWritten.of_read.1⟩

include hx in
/-- What is above zero is not read as a number below zero. -/
theorem zero_le_reread (hPos : 0 < x) : 0 ≤ reread x := by
  obtain ⟨s, t, hWritten⟩ := exists_written hx
  obtain ⟨hFinite, hSign, -⟩ := hWritten.of_read
  rw [hWritten.reread_eq.2]
  have hUpright : s = .positive := by
    have hFirst := upright_iff.mp (upright_of_pos hPos)
    have hSecond := hWritten.sign
    rw [isFinite_iff] at hx
    cases hParts : parts x with
    | notANumber =>
      rw [hParts] at hx
      cases hx
    | infinity s' | zero s' | finite s' m e hm =>
      rw [hParts] at hFirst hSecond
      exact hSecond.symm.trans hFirst
  refine zero_le_of_upright ?_ (upright_iff.mpr (hUpright ▸ hSign))
  intro hNone
  rw [isFinite_iff, hNone] at hFinite
  cases hFinite

include hx in
/-- **What is written is read as a double of as many thousandths**, also after it is added to zero. -/
theorem thousandths_reread :
    ∃ t, thousandths? x = some t ∧ thousandths? (reread x) = some t ∧ thousandths? (0 + reread x) = some t := by
  obtain ⟨s, t, hWritten⟩ := exists_written hx
  obtain ⟨hFinite, -, hRound⟩ := hWritten.of_read
  rw [hWritten.reread_eq.2]
  refine ⟨s.apply t, hWritten.thousandths, thousandths_of_isHalfEven hFinite hRound, ?_⟩
  refine thousandths_of_isHalfEven (finite_zero_add hFinite) ?_
  rw [value_zero_add hFinite]
  exact hRound

include hx hy in
/-- **The order is kept**: of two doubles the lesser one is read as the lesser one, or both are read as the same. -/
theorem reread_order (hLe : value (parts x) ≤ value (parts y)) :
    value (parts (0 + reread x)) < value (parts (0 + reread y)) ∨ 0 + reread x = 0 + reread y := by
  obtain ⟨s, t, hWritten⟩ := exists_written hx
  obtain ⟨s', t', hWritten'⟩ := exists_written hy
  obtain ⟨hFinite, -, hRound⟩ := hWritten.of_read
  obtain ⟨hFinite', -, hRound'⟩ := hWritten'.of_read
  rw [hWritten.reread_eq.2, hWritten'.reread_eq.2]
  have hOrder : s.apply t ≤ s'.apply t' := hWritten.isHalfEven.mono hWritten'.isHalfEven (by linarith)
  rcases hOrder.lt_or_eq with hLess | hSame
  · left
    rw [value_zero_add hFinite, value_zero_add hFinite']
    by_contra hNot
    exact absurd hLess (not_lt.mpr (hRound'.mono hRound (by linarith)))
  · exact Or.inr (zero_add_congr hSame)

end PlanReplay.Decimal
