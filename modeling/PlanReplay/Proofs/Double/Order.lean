import PlanReplay.Proofs.Double.Value

/-!
# The order of all doubles

Infinite doubles are in the order as well. Of any two numbers one is below the other, or they are equal; then they are
the same double, or the two zeros.

* `Double.finite_or_infinite` — what a number is.
* `Double.compare_infinity` — infinite doubles are below or above all finite ones.
* `Double.le_of_not_lt`, `Double.le_of_le_of_le` — numbers are in a total order.
* `Double.nonNegative_cases`, `Double.smaller_le` — a value brought above zero, and the smaller of two.
* `Double.beq_of_le`, `Double.eq_of_beq` — when doubles are equal, and what it means.
-/

namespace PlanReplay.Double

open Float.Model.UnpackedFloat

theorem isNaN_iff {x : Float} : x.isNaN = false ↔ parts x ≠ .notANumber := by
  change (parts x).isNaN = false ↔ _
  cases parts x <;> simp [Float.Model.UnpackedFloat.isNaN]

theorem isNaN_of_finite {x : Float} (h : x.isFinite = true) : x.isNaN = false := by
  rw [isFinite_iff] at h
  rw [isNaN_iff]
  intro hNone
  rw [hNone] at h
  cases h

/-- A number is finite or infinite. -/
theorem finite_or_infinite {x : Float} (h : x.isNaN = false) : x.isFinite = true ∨ ∃ s, parts x = .infinity s := by
  rw [isNaN_iff] at h
  rw [isFinite_iff]
  cases hParts : parts x with
  | notANumber => exact absurd hParts h
  | infinity s => exact Or.inr ⟨s, rfl⟩
  | zero s | finite s m e hm => exact Or.inl rfl

/-- Below everything finite is the infinity with the sign, above it the other one. -/
theorem compare_infinity {x : Float} (h : x.isFinite = true) (s : Sign) :
    (parts x).compare (.infinity s) = (match s with | .negative => some .gt | .positive => some .lt) ∧
      (Float.Model.UnpackedFloat.infinity s).compare (parts x) =
        (match s with | .negative => some .lt | .positive => some .gt) := by
  have hFits := isCanonical_parts h
  cases hParts : parts x with
  | notANumber | infinity s' =>
    rw [hParts] at hFits
    exact hFits.elim
  | zero s' | finite s' m e hm => cases s <;> exact ⟨rfl, rfl⟩

/-- Only numbers are ordered. -/
theorem isNaN_of_le {x y : Float} (h : x ≤ y) : x.isNaN = false ∧ y.isNaN = false := by
  rw [le_iff] at h
  rw [isNaN_iff, isNaN_iff]
  constructor
  · intro hNone
    rw [hNone] at h
    cases h
  · intro hNone
    rw [hNone] at h
    cases hParts : parts x <;> rw [hParts] at h <;> cases h

theorem isNaN_of_lt {x y : Float} (h : x < y) : x.isNaN = false ∧ y.isNaN = false := isNaN_of_le (le_of_lt h)

/-- **Numbers are in a total order.** -/
theorem le_of_not_lt {x y : Float} (hxNumber : x.isNaN = false) (hyNumber : y.isNaN = false) (h : ¬ y < x) : x ≤ y := by
  rw [lt_iff] at h
  rw [le_iff]
  rcases finite_or_infinite hxNumber with hx | ⟨s, hx⟩
  · rcases finite_or_infinite hyNumber with hy | ⟨s', hy⟩
    · rw [← le_iff]
      rw [← lt_iff] at h
      exact (not_lt_iff_le hx hy).mp h
    · rw [hy, (compare_infinity hx s').2] at h
      rw [hy, (compare_infinity hx s').1]
      cases s' with
      | negative => exact absurd rfl h
      | positive => rfl
  · rcases finite_or_infinite hyNumber with hy | ⟨s', hy⟩
    · rw [hx, (compare_infinity hy s).1] at h
      rw [hx, (compare_infinity hy s).2]
      cases s with
      | negative => rfl
      | positive => exact absurd rfl h
    · rw [hx, hy] at h ⊢
      cases s with
      | negative => cases s' <;> rfl
      | positive =>
        cases s' with
        | negative => exact absurd rfl h
        | positive => rfl

theorem least_le {x y : Float} (hx : parts x = .infinity .negative) (hy : y.isNaN = false) : x ≤ y := by
  rw [le_iff, hx]
  rcases finite_or_infinite hy with hFinite | ⟨s, hParts⟩
  · rw [(compare_infinity hFinite _).2]
    rfl
  · rw [hParts]
    cases s <;> rfl

theorem le_largest {x y : Float} (hx : x.isNaN = false) (hy : parts y = .infinity .positive) : x ≤ y := by
  rw [le_iff, hy]
  rcases finite_or_infinite hx with hFinite | ⟨s, hParts⟩
  · rw [(compare_infinity hFinite _).1]
    rfl
  · rw [hParts]
    cases s <;> rfl

/-- The order of the doubles is transitive. -/
theorem le_of_le_of_le {x y z : Float} (hxy : x ≤ y) (hyz : y ≤ z) : x ≤ z := by
  obtain ⟨hx, -⟩ := isNaN_of_le hxy
  obtain ⟨hy, hz⟩ := isNaN_of_le hyz
  rcases finite_or_infinite hx with hxFinite | ⟨s, hxParts⟩
  · rcases finite_or_infinite hz with hzFinite | ⟨s, hzParts⟩
    · rcases finite_or_infinite hy with hyFinite | ⟨s, hyParts⟩
      · rw [le_iff_value hxFinite hzFinite]
        exact ((le_iff_value hxFinite hyFinite).mp hxy).trans ((le_iff_value hyFinite hzFinite).mp hyz)
      · rw [le_iff, hyParts] at hxy hyz
        rw [(compare_infinity hxFinite s).1] at hxy
        rw [(compare_infinity hzFinite s).2] at hyz
        cases s
        · cases hxy
        · cases hyz
    · cases s with
      | positive => exact le_largest hx hzParts
      | negative =>
        -- nothing else is at most the least double
        rw [le_iff, hzParts] at hyz
        rcases finite_or_infinite hy with hyFinite | ⟨s, hyParts⟩
        · rw [(compare_infinity hyFinite _).1] at hyz
          cases hyz
        · rw [hyParts] at hyz
          rw [le_iff, hyParts, (compare_infinity hxFinite s).1] at hxy
          cases s
          · cases hxy
          · cases hyz
  · cases s with
    | negative => exact least_le hxParts hz
    | positive =>
      -- nothing else is at least the largest double
      rw [le_iff, hxParts] at hxy ⊢
      rcases finite_or_infinite hy with hyFinite | ⟨s, hyParts⟩
      · rw [(compare_infinity hyFinite _).2] at hxy
        cases hxy
      · rw [hyParts] at hxy
        cases s with
        | negative => cases hxy
        | positive =>
          rw [le_iff, hyParts] at hyz
          exact hyz

-- ---------------------------------------------------------------------------
-- Values that are not below zero
-- ---------------------------------------------------------------------------

theorem finite_or_largest {x : Float} (h : 0 ≤ x) : x.isFinite = true ∨ parts x = .infinity .positive := by
  rw [isFinite_iff]
  rcases zero_le_cases h with ⟨s, hParts⟩ | hParts | ⟨m, e, hm, hParts⟩
  · rw [hParts]
    exact Or.inl rfl
  · exact Or.inr hParts
  · rw [hParts]
    exact Or.inl rfl

/-- What is above zero stays as it is, and all else becomes zero. -/
theorem nonNegative_cases (x : Float) :
    0 < x ∧ Scalar.nonNegative x = x ∨ ¬ 0 < x ∧ Scalar.nonNegative x = 0 := by
  change 0 < x ∧ Scalar.largerFloat x 0 = x ∨ ¬ 0 < x ∧ Scalar.largerFloat x 0 = 0
  have hZero : (0 : Float).isNaN = false := by decide
  unfold Scalar.largerFloat
  cases hNumber : x.isNaN with
  | true =>
    refine Or.inr ⟨fun hPos => ?_, if_pos rfl⟩
    rw [(isNaN_of_lt hPos).2] at hNumber
    cases hNumber
  | false =>
    rw [if_neg Bool.false_ne_true, hZero, if_neg Bool.false_ne_true]
    by_cases hPos : 0 < x
    · have hNotBelow : ¬ x < 0 := by
        rw [lt_iff, parts_zero]
        rcases zero_le_cases (le_of_lt hPos) with ⟨s, hParts⟩ | hParts | ⟨m, e, hm, hParts⟩
        all_goals
          rw [hParts]
          exact nofun
      rw [if_neg hNotBelow, if_pos hPos]
      exact Or.inl ⟨hPos, rfl⟩
    · refine Or.inr ⟨hPos, ?_⟩
      rw [if_neg hPos]
      split
      · rfl
      · split
        · rename_i hBits
          refine parts_injective ?_
          change unpack .binary64 x.toBits.toBitVec = _
          rw [hBits]
          rfl
        · rfl

theorem zero_le_nonNegative (x : Float) : 0 ≤ Scalar.nonNegative x := by
  rcases nonNegative_cases x with ⟨hPos, hSame⟩ | ⟨-, hZero⟩
  · rw [hSame]
    exact le_of_lt hPos
  · rw [hZero]
    exact le_refl_of_finite rfl

theorem le_nonNegative {x y : Float} (h : x ≤ y) : x ≤ Scalar.nonNegative y := by
  rcases nonNegative_cases y with ⟨-, hSame⟩ | ⟨hNotPos, hZero⟩
  · rw [hSame]
    exact h
  · rw [hZero]
    exact le_of_le_of_le h (le_of_not_lt (isNaN_of_le h).2 rfl hNotPos)

/-- The smaller of two values is not above the second one, if that is finite. The first one may be no number. -/
theorem smaller_le (x : Float) {y : Float} (hy : y.isFinite = true) : Scalar.smaller x y ≤ y := by
  have hSelf : y ≤ y := le_refl_of_finite (isFinite_iff.mp hy)
  have hNumber : y.isNaN = false := isNaN_of_finite hy
  change Scalar.smallerFloat x y ≤ y
  unfold Scalar.smallerFloat
  cases hFirst : x.isNaN with
  | true => exact hSelf
  | false =>
    rw [if_neg Bool.false_ne_true, hNumber, if_neg Bool.false_ne_true]
    split
    · rename_i hBelow
      exact le_of_lt hBelow
    · split
      · exact hSelf
      · -- neither is below the other
        rename_i hAbove
        have hLe : x ≤ y := le_of_not_lt hFirst hNumber hAbove
        split
        · exact hSelf
        · exact hLe

-- ---------------------------------------------------------------------------
-- Equality
-- ---------------------------------------------------------------------------

theorem beq_iff {x y : Float} : (x == y) = true ↔ (parts x).compare (parts y) = some .eq := by
  change ((parts x).compare (parts y) == some .eq) = true ↔ _
  exact beq_iff_eq

/-- What is not above and not below is equal. -/
theorem beq_of_le {x y : Float} (hLe : x ≤ y) (hLess : ¬ x < y) : (x == y) = true := by
  rw [lt_iff] at hLess
  rw [le_iff] at hLe
  rw [beq_iff]
  cases hOrder : (parts x).compare (parts y) with
  | none =>
    rw [hOrder] at hLe
    cases hLe
  | some order =>
    rw [hOrder] at hLe hLess
    cases order with
    | lt => exact absurd rfl hLess
    | eq => rfl
    | gt => cases hLe

/-- **Equal doubles** are the same, or they are the two zeros. -/
theorem eq_of_beq {x y : Float} (h : (x == y) = true) : x = y ∨ x = -0.0 ∧ y = 0 ∨ x = 0 ∧ y = -0.0 := by
  rw [beq_iff] at h
  cases hx : parts x with
  | notANumber =>
    rw [hx] at h
    cases h
  | infinity s =>
    rw [hx] at h
    cases hy : parts y with
    | infinity s' =>
      rw [hy] at h
      refine Or.inl (parts_injective ?_)
      rw [hx, hy]
      cases s <;> cases s' <;> first | rfl | cases h
    | notANumber | zero s' | finite s' m' e' hm' =>
      rw [hy] at h
      cases s <;> cases h
  | zero s =>
    rw [hx] at h
    cases hy : parts y with
    | zero s' =>
      cases s <;> cases s'
      · exact Or.inl (parts_injective (hx.trans hy.symm))
      · exact Or.inr (Or.inl ⟨parts_injective hx, parts_injective hy⟩)
      · exact Or.inr (Or.inr ⟨parts_injective hx, parts_injective hy⟩)
      · exact Or.inl (parts_injective (hx.trans hy.symm))
    | notANumber =>
      rw [hy] at h
      cases h
    | infinity s' | finite s' m' e' hm' =>
      rw [hy] at h
      cases s' <;> cases h
  | finite s m e hm =>
    rw [hx] at h
    cases hy : parts y with
    | finite s' m' e' hm' =>
      rw [hy] at h
      have hSame (hOrder : (compare e e').then (compare m m') = .eq) (hSign : s = s') : x = y := by
        obtain ⟨hExponent, hMantissa⟩ := Ordering.then_eq_eq.mp hOrder
        obtain rfl := compare_eq_iff_eq.mp hExponent
        obtain rfl := compare_eq_iff_eq.mp hMantissa
        refine parts_injective ?_
        rw [hx, hy, hSign]
      cases s <;> cases s'
      · exact Or.inl (hSame (Ordering.swap_eq_eq.mp (Option.some.inj h)) rfl)
      · cases h
      · cases h
      · exact Or.inl (hSame (Option.some.inj h) rfl)
    | notANumber =>
      rw [hy] at h
      cases h
    | infinity s' | zero s' =>
      rw [hy] at h
      cases s <;> cases s' <;> cases h

end PlanReplay.Double
