import PlanReplay.Proofs.Double.Value

/-!
# Counts that are read back

A count below `2 ^ 53` is its own double, `Double.parts_ofNat`. Whatever turns doubles into whole numbers reads the
same count back from it: as a position in a list, as the nearest whole number, and without the fraction.

* `Double.ofFloat_of_finite`, `Double.exists_ofFloat` — a double taken apart has the sign, the mantissa and the exponent
  of its parts.
* `Double.position_ofNat`, `Double.nearest_ofNat` — the readings of a count.
-/

namespace PlanReplay.Double

open Float.Model (Format)
open Float.Model.UnpackedFloat

-- ---------------------------------------------------------------------------
-- The fields of a double
-- ---------------------------------------------------------------------------

section

variable (bits : BitVec Format.binary64.numBits)

theorem toNat_unpackMantissa : (unpackMantissa bits).toNat = bits.toNat % 2 ^ 52 := by
  simp [unpackMantissa, Format.binary64]

theorem toNat_unpackExponent : (unpackExponent bits).toNat = bits.toNat / 2 ^ 52 % 2 ^ 11 := by
  simp [unpackExponent, Format.binary64, Nat.shiftRight_eq_div_pow]

theorem toNat_unpackSign : (unpackSign bits).toNat = bits.toNat / 2 ^ 63 % 2 := by
  simp [unpackSign, Format.binary64, Nat.shiftRight_eq_div_pow]

end

/-- Whether a sign is a minus. -/
def isMinus : Sign → Bool
  | .negative => true
  | .positive => false

/-- The sign is the topmost bit. -/
theorem isMinus_ofBitVec (bits : BitVec Format.binary64.numBits) :
    isMinus (Sign.ofBitVec (unpackSign bits)) = (bits.toNat / 2 ^ 63 % 2 == 1) := by
  rw [← toNat_unpackSign]
  unfold Sign.ofBitVec
  split
  · rename_i hUnset
    rw [hUnset]
    rfl
  · rename_i hSet
    have hOne : (unpackSign bits).toNat = 1 := by
      have hBit := (unpackSign bits).isLt
      have hNotZero : (unpackSign bits).toNat ≠ 0 := fun hZero => hSet (BitVec.eq_of_toNat_eq hZero)
      omega
    rw [hOne]
    rfl

/-- Bits that are read as a finite number are taken apart into its sign, mantissa and exponent. -/
theorem decodeBits_of_finite {bits : BitVec Format.binary64.numBits} {s : Sign} {m : Nat} {e : Int} {hm : 0 < m}
    (h : unpack .binary64 bits = .finite s m e hm) :
    ∃ edge, Decimal.decodeBits Decimal.binary64 bits.toNat = .finite (isMinus s) m e edge := by
  have hLeading : (1#1 ++ unpackMantissa bits).toNat = 2 ^ 52 + (unpackMantissa bits).toNat := by
    change 2 ^ 52 ||| (unpackMantissa bits).toNat = _
    rw [Nat.or_comm, Nat.or_two_pow_eq_add_of_lt (unpackMantissa bits).isLt, Nat.add_comm]
  have hExponent := toNat_unpackExponent bits
  unfold unpack at h
  dsimp only at h
  change ∃ edge, (if bits.toNat / 2 ^ 52 % 2 ^ 11 = 2047 then _ else
    if bits.toNat / 2 ^ 52 % 2 ^ 11 = 0 then _ else _) = _
  rw [← hExponent]
  split at h
  · split at h <;> cases h
  · rename_i hNotOnes
    have hNotLargest : (unpackExponent bits).toNat ≠ 2047 := fun hLargest => hNotOnes (BitVec.eq_of_toNat_eq hLargest)
    rw [if_neg hNotLargest]
    split at h
    · rename_i hZero
      have hLeast : (unpackExponent bits).toNat = 0 := congrArg BitVec.toNat hZero
      rw [if_pos hLeast]
      split at h
      · cases h
      · injection h with hSign hMantissa hPower
        rw [hZero] at hPower
        refine ⟨false, ?_⟩
        rw [← hMantissa, ← hPower, toNat_unpackMantissa, ← hSign, isMinus_ofBitVec]
        rfl
    · rename_i hNotZero
      have hNotLeast : (unpackExponent bits).toNat ≠ 0 := fun hLeast => hNotZero (BitVec.eq_of_toNat_eq hLeast)
      rw [if_neg hNotLeast]
      injection h with hSign hMantissa hPower
      rw [← hMantissa, ← hPower, hExponent, hLeading, toNat_unpackMantissa, ← hSign, isMinus_ofBitVec]
      exact ⟨_, rfl⟩

/-- Bits that are read as a zero are taken apart into its sign and no mantissa. -/
theorem decodeBits_of_zero {bits : BitVec Format.binary64.numBits} {s : Sign} (h : unpack .binary64 bits = .zero s) :
    Decimal.decodeBits Decimal.binary64 bits.toNat = .finite (isMinus s) 0 (-1074) false := by
  have hExponent := toNat_unpackExponent bits
  have hMantissa := toNat_unpackMantissa bits
  unfold unpack at h
  dsimp only at h
  split at h
  · split at h <;> cases h
  · split at h
    · rename_i hZero
      split at h
      · rename_i hNone
        injection h with hSign
        have hLeast : bits.toNat / 2 ^ 52 % 2 ^ 11 = 0 := by
          rw [← hExponent]
          exact congrArg BitVec.toNat hZero
        have hNoBits : bits.toNat % 2 ^ 52 = 0 := by
          rw [← hMantissa]
          exact congrArg BitVec.toNat hNone
        change (if bits.toNat / 2 ^ 52 % 2 ^ 11 = 2047 then _ else
          if bits.toNat / 2 ^ 52 % 2 ^ 11 = 0 then _ else _) = _
        rw [hLeast, if_neg (by decide), if_pos rfl, ← hSign, isMinus_ofBitVec]
        exact congrArg (fun fraction => Decimal.Value.finite _ fraction (-1074) false) hNoBits
      · cases h
    · cases h

/-- The bits of a finite double: its magnitude counts up through mantissas and exponents, and the sign is above it. -/
theorem bits_of_decodeBits {bits : Nat} (hBits : bits < 2 ^ 64) {negative edge : Bool} {m : Nat} {e : Int}
    (h : Decimal.decodeBits Decimal.binary64 bits = .finite negative m e edge) :
    (bits : Int) = (if negative then 2 ^ 63 else 0) + ((e + 1074) * 2 ^ 52 + m) := by
  have hSign : (if (bits / 2 ^ 63 % 2 == 1) = true then (2 : Int) ^ 63 else 0) = (bits / 2 ^ 63 : Nat) * 2 ^ 63 := by
    rcases Nat.mod_two_eq_zero_or_one (bits / 2 ^ 63) with hUnset | hSet
    · rw [hUnset, if_neg (by decide)]
      omega
    · rw [hSet, if_pos (by decide)]
      omega
  change (if bits / 2 ^ 52 % 2 ^ 11 = 2047 then _ else if bits / 2 ^ 52 % 2 ^ 11 = 0 then _ else _) = _ at h
  split at h
  · split at h <;> cases h
  · split at h
    · injection h with hNegative hMantissa hExponent
      rw [← hNegative, ← hMantissa, ← hExponent]
      refine Eq.trans ?_ (congrArg (· + _) hSign.symm)
      change (bits : Int) = _ + ((-1074 + 1074) * 2 ^ 52 + (bits % 2 ^ 52 : Nat))
      omega
    · injection h with hNegative hMantissa hExponent
      rw [← hNegative, ← hMantissa, ← hExponent]
      refine Eq.trans ?_ (congrArg (· + _) hSign.symm)
      change (bits : Int) = _ + (((bits / 2 ^ 52 % 2 ^ 11 : Nat) - 1075 + 1074) * 2 ^ 52 +
        (2 ^ 52 + bits % 2 ^ 52 : Nat))
      omega

/-- The place below a power of two is half as large, unless there is none. -/
theorem edge_of_decodeBits {bits : Nat} {negative edge : Bool} {e : Int}
    (h : Decimal.decodeBits Decimal.binary64 bits = .finite negative (2 ^ 52) e edge) (hPlace : -1074 < e) :
    edge = true := by
  change (if bits / 2 ^ 52 % 2 ^ 11 = 2047 then _ else if bits / 2 ^ 52 % 2 ^ 11 = 0 then _ else _) = _ at h
  split at h
  · split at h <;> cases h
  · split at h
    · injection h with hNegative hMantissa hExponent
      change (-1074 : Int) = e at hExponent
      omega
    · injection h with hNegative hMantissa hExponent hEdge
      change 2 ^ 52 + bits % 2 ^ 52 = 2 ^ 52 at hMantissa
      change ((bits / 2 ^ 52 % 2 ^ 11 : Nat) : Int) - 1075 = e at hExponent
      rw [← hEdge, Bool.and_eq_true, beq_iff_eq, bne_iff_ne]
      change bits % 2 ^ 52 = 0 ∧ bits / 2 ^ 52 % 2 ^ 11 ≠ 1
      omega

/-- A finite double that is taken apart has the mantissa and the exponent of its parts. -/
theorem ofFloat_of_finite {x : Float} {s : Sign} {m : Nat} {e : Int} {hm : 0 < m} (h : parts x = .finite s m e hm) :
    ∃ edge, Decimal.ofFloat x = .finite (isMinus s) m e edge :=
  decodeBits_of_finite h

/-- **A finite double is taken apart** into canonical parts of the number that it stands for. -/
theorem exists_ofFloat {x : Float} (h : x.isFinite = true) :
    ∃ s m e edge, Decimal.ofFloat x = .finite (isMinus s) m e edge ∧ HasSign s (parts x) ∧ Fits m e ∧ e ≤ 971 ∧
      value (parts x) = (s.apply m : ℤ) * 2 ^ e := by
  rw [isFinite_iff] at h
  have hRange := upTo_parts h
  cases hParts : parts x with
  | notANumber | infinity s =>
    rw [hParts] at h
    cases h
  | zero s =>
    refine ⟨s, 0, -1074, false, decodeBits_of_zero hParts, rfl, ⟨by decide, le_rfl, Or.inl rfl⟩, by decide, ?_⟩
    cases s <;> simp [Sign.apply]
  | finite s m e hm =>
    obtain ⟨edge, hDecoded⟩ := ofFloat_of_finite hParts
    rw [hParts] at hRange
    exact ⟨s, m, e, edge, hDecoded, rfl, canonical hParts, hRange, rfl⟩

-- ---------------------------------------------------------------------------
-- Counts
-- ---------------------------------------------------------------------------

/-- A count that is taken apart is a fraction whose numerator is a multiple of its denominator. -/
theorem ofFloat_ofNat {n : Nat} (hPos : 0 < n) (hBits : n < 2 ^ 53) :
    ∃ edge, Decimal.ofFloat (Float.ofNat n) = .finite false (n * 2 ^ countPlaces n) (-countPlaces n) edge :=
  ofFloat_of_finite (parts_ofNat hPos hBits)

/-- The double of a count stands for the count. -/
theorem value_ofNat {n : Nat} (hPos : 0 < n) (hBits : n < 2 ^ 53) : value (parts (Float.ofNat n)) = n := by
  rw [parts_ofNat hPos hBits, value_positive, zpow_neg, zpow_natCast]
  push_cast
  exact mul_inv_cancel_right₀ (pow_ne_zero _ two_ne_zero) _

/-- The whole part of a count is the count. -/
theorem wholePart_count (n k : Nat) : Decimal.wholePart (n * 2 ^ k) (-k) = n := by
  have hNone : (-(k : Int)).toNat = 0 := by omega
  have hPlaces : (- -(k : Int)).toNat = k := by omega
  unfold Decimal.wholePart
  rw [hNone, hPlaces]
  exact (congrArg (· / 2 ^ k) (Nat.mul_one _)).trans (Nat.mul_div_cancel n (Nat.two_pow_pos k))

/-- The whole number nearest to a count is the count. -/
theorem nearestWhole_count (n k : Nat) : Decimal.nearestWhole (n * 2 ^ k) (-k) = n := by
  have hNone : (-(k : Int)).toNat = 0 := by omega
  have hPlaces : (- -(k : Int)).toNat = k := by omega
  unfold Decimal.nearestWhole
  rw [hNone, hPlaces]
  change (2 * (n * 2 ^ k * 1) + 2 ^ k) / (2 * 2 ^ k) = n
  have hUnit := Nat.two_pow_pos k
  rw [show 2 * (n * 2 ^ k * 1) + 2 ^ k = 2 ^ k + n * (2 * 2 ^ k) by ring, Nat.add_mul_div_right _ _ (by omega),
    Nat.div_eq_of_lt (by omega), Nat.zero_add]

/-- A count is read back as a position. -/
theorem position_ofNat {n : Nat} (hBits : n < 2 ^ 53) : Scalar.position (Float.ofNat n) = n := by
  rcases n.eq_zero_or_pos with rfl | hPos
  · decide +kernel
  · obtain ⟨edge, hParts⟩ := ofFloat_ofNat hPos hBits
    change (Decimal.ofFloat (Float.ofNat n)).toIndex = n
    rw [hParts]
    change min maxUInt64 (Decimal.wholePart (n * 2 ^ countPlaces n) (-countPlaces n)) = n
    rw [wholePart_count]
    exact min_eq_right (hBits.le.trans (by decide))

/-- A count is read back as the nearest whole number. -/
theorem nearest_ofNat {n : Nat} (hBits : n < 2 ^ 53) : Scalar.nearest (Float.ofNat n) = n := by
  rcases n.eq_zero_or_pos with rfl | hPos
  · decide +kernel
  · obtain ⟨edge, hParts⟩ := ofFloat_ofNat hPos hBits
    change (Decimal.ofFloat (Float.ofNat n)).toInt64 Decimal.nearestWhole = n
    rw [hParts]
    change Decimal.clampInt minInt64 maxInt64 (Decimal.nearestWhole (n * 2 ^ countPlaces n) (-countPlaces n) : Nat) = n
    rw [nearestWhole_count]
    have hHigh : (n : Int) < 2 ^ 53 := by exact_mod_cast hBits
    unfold Decimal.clampInt minInt64 maxInt64
    rw [if_neg (by omega), if_neg (by omega)]

-- ---------------------------------------------------------------------------
-- Whole numbers of any finite double
-- ---------------------------------------------------------------------------

/-- A power, as the quotient of the two powers with exponents that are not negative. -/
theorem base_quotient (b : Nat) (e : Int) : ((b ^ e.toNat : Nat) : ℚ) / (b ^ (-e).toNat : Nat) = (b : ℚ) ^ e := by
  obtain ⟨n, rfl | rfl⟩ := e.eq_nat_or_neg
  · rw [Int.toNat_natCast, Int.toNat_neg_natCast, pow_zero, Nat.cast_one, div_one, zpow_natCast, Nat.cast_pow]
  · rw [neg_neg, Int.toNat_natCast, Int.toNat_neg_natCast, pow_zero, Nat.cast_one, one_div, zpow_neg, zpow_natCast,
      Nat.cast_pow]

theorem power_quotient (e : Int) : ((twoTo e.toNat : Nat) : ℚ) / (twoTo (-e).toNat : Nat) = 2 ^ e := base_quotient 2 e

theorem ten_quotient (p : Int) : ((tenTo p.toNat : Nat) : ℚ) / (tenTo (-p).toNat : Nat) = 10 ^ p := base_quotient 10 p

/-- A magnitude counted in units, of which there are `units` in one, as a fraction. -/
theorem units_quotient (units m : Nat) (e : Int) :
    ((m * twoTo e.toNat * units : Nat) : ℚ) / (twoTo (-e).toNat : Nat) = units * ((m : ℚ) * 2 ^ e) := by
  rw [← power_quotient]
  push_cast
  ring

/-- The whole part of a magnitude is its floor. -/
theorem wholePart_eq (m : Nat) (e : Int) : Decimal.wholePart m e = ⌊(m : ℚ) * 2 ^ e⌋₊ := by
  rw [← power_quotient, ← mul_div_assoc, ← Nat.cast_mul, Nat.floor_div_eq_div]
  rfl

/-- The whole number nearest to a magnitude is the floor of a half more. -/
theorem nearestWhole_eq (m : Nat) (e : Int) : Decimal.nearestWhole m e = ⌊(m : ℚ) * 2 ^ e + 1 / 2⌋₊ := by
  have hUnit : ((twoTo (-e).toNat : Nat) : ℚ) ≠ 0 := Nat.cast_ne_zero.mpr (Nat.two_pow_pos _).ne'
  have hHalf : (m : ℚ) * 2 ^ e + 1 / 2 =
      (2 * (m * twoTo e.toNat) + twoTo (-e).toNat : Nat) / (2 * twoTo (-e).toNat : Nat) := by
    rw [← power_quotient]
    push_cast
    field_simp
  rw [hHalf, Nat.floor_div_eq_div]
  rfl

/-- A half more has the same floor iff the fraction is below a half, and else the next one. -/
theorem floor_add_half {q : ℚ} (hNonneg : 0 ≤ q) :
    ⌊q + 1 / 2⌋₊ = if Int.fract q < 1 / 2 then ⌊q⌋₊ else ⌊q⌋₊ + 1 := by
  have hWhole : q = ⌊q⌋₊ + Int.fract q := by
    have hFloor : ((⌊q⌋₊ : ℤ) : ℚ) = ⌊q⌋ := congrArg Int.cast (Int.natCast_floor_eq_floor hNonneg)
    rw [Int.cast_natCast] at hFloor
    rw [hFloor, Int.floor_add_fract]
  have hLow := Int.fract_nonneg q
  have hHigh := Int.fract_lt_one q
  split
  · rw [Nat.floor_eq_iff (by linarith)]
    constructor <;> linarith
  · rw [Nat.floor_eq_iff (by linarith)]
    push_cast
    constructor <;> linarith

/-- A finite double that is not below zero is taken apart into its magnitude. Only a zero has the sign of a negative
number. -/
theorem exists_magnitude {x : Float} (h : x.isFinite = true) (hNonneg : 0 ≤ x) :
    ∃ negative m e edge, Decimal.ofFloat x = .finite negative m e edge ∧ value (parts x) = m * 2 ^ e ∧
      (negative = true → m = 0) := by
  obtain ⟨s, m, e, edge, hDecoded, -, -, -, hValue⟩ := exists_ofFloat h
  have hValueNonneg : 0 ≤ value (parts x) := by
    rw [le_iff_value (by decide) h] at hNonneg
    exact hNonneg
  cases s with
  | positive => exact ⟨_, m, e, edge, hDecoded, by simpa [Sign.apply] using hValue, nofun⟩
  | negative =>
    have hZero : m = 0 := by
      by_contra hSome
      have hPos := magnitude_pos e (Nat.pos_of_ne_zero hSome)
      simp only [Sign.apply, Int.cast_neg, Int.cast_natCast, neg_mul] at hValue
      linarith
    subst hZero
    exact ⟨_, 0, e, edge, hDecoded, by simpa [Sign.apply] using hValue, fun _ => rfl⟩

variable {x : Float} (h : x.isFinite = true) (hNonneg : 0 ≤ x)

include h hNonneg

theorem value_nonneg : 0 ≤ value (parts x) := by
  obtain ⟨_, m, e, _, -, hValue, -⟩ := exists_magnitude h hNonneg
  rw [hValue]
  positivity

/-- A double that is not below zero is the position of its floor. -/
theorem position_eq : Scalar.position x = min maxUInt64 ⌊value (parts x)⌋₊ := by
  obtain ⟨negative, m, e, edge, hDecoded, hValue, hZero⟩ := exists_magnitude h hNonneg
  change (Decimal.ofFloat x).toIndex = _
  rw [hDecoded, hValue, ← wholePart_eq]
  cases negative with
  | false => rfl
  | true =>
    rw [hZero rfl, wholePart_eq]
    simp [Decimal.Value.toIndex]

/-- A double that is not below zero is brought to the floor of a half more. -/
theorem nearest_eq : Scalar.nearest x = min maxInt64 (⌊value (parts x) + 1 / 2⌋₊ : Int) := by
  obtain ⟨negative, m, e, edge, hDecoded, hValue, hZero⟩ := exists_magnitude h hNonneg
  have hClamp : ∀ n : Nat, Decimal.clampInt minInt64 maxInt64 n = min maxInt64 (n : Int) := by
    intro n
    unfold Decimal.clampInt minInt64 maxInt64
    omega
  change (Decimal.ofFloat x).toInt64 Decimal.nearestWhole = _
  rw [hDecoded, hValue, ← nearestWhole_eq]
  cases negative with
  | false => exact hClamp _
  | true =>
    have hNone : Decimal.nearestWhole m e = 0 := by
      rw [hZero rfl, nearestWhole_eq]
      norm_num
    change Decimal.clampInt minInt64 maxInt64 (-(Decimal.nearestWhole m e : Int)) = _
    rw [hNone]
    exact hClamp 0

end PlanReplay.Double
