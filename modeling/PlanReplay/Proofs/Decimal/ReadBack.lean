import Mathlib
import PlanReplay.Decimal.Fixed
import PlanReplay.Decimal.Reader
import PlanReplay.Proofs.Decimal.FloatText

/-!
# Decimals that are read back

A decimal that is written with fixed places is read again as its sign and its units: no zero that fills it up and no
point counts.

* `Decimal.spanDigits_append` — digits end where another character follows.
* `Decimal.natOfDigits_digitChars` — the digits of a number are those of this number.
* `Decimal.readFloatChars_withPoint`, `Decimal.readFloatChars_whole` — a decimal with a point is read as a number of units,
  and one without a point as a whole number.
-/

namespace PlanReplay.Decimal

open Text

/-- Digits end where another character follows. -/
theorem spanDigits_append {digits rest : List Char} (hDigits : ∀ c ∈ digits, c.isDigit = true)
    (hRest : ∀ c ∈ rest.head?, c.isDigit = false) : spanDigits (digits ++ rest) = (digits, rest) := by
  have hNone : rest.takeWhile (·.isDigit) = [] ∧ rest.dropWhile (·.isDigit) = rest := by
    cases rest with
    | nil => exact ⟨rfl, rfl⟩
    | cons c later => simp [hRest c rfl]
  unfold spanDigits
  rw [List.takeWhile_append_of_pos hDigits, List.dropWhile_append_of_pos hDigits, hNone.1, hNone.2, List.append_nil]

theorem isDigit_of_mem_digitChars {n : Nat} {c : Char} (h : c ∈ digitChars n) : c.isDigit = true :=
  Nat.isDigit_of_mem_toDigits (by decide) (by decide) h

theorem natOfDigits_digitChars (n : Nat) : natOfDigits (digitChars n) = n := Nat.ofDigitChars_ten_toDigits

/-- Zeros in front do not count. -/
theorem natOfDigits_zeros (k : Nat) (digits : List Char) :
    natOfDigits (List.replicate k '0' ++ digits) = natOfDigits digits := by
  induction k with
  | zero => rfl
  | succ k ih => exact ih

/-- The digits before and after the point. -/
theorem withPoint_eq {places : Nat} (hPlaces : 0 < places) (n : Nat) :
    ∃ whole fraction, withPoint places (digitChars n) = whole ++ '.' :: fraction ∧ whole ≠ [] ∧
      fraction.length = places ∧ (∀ c ∈ whole ++ fraction, c.isDigit = true) ∧ natOfDigits (whole ++ fraction) = n := by
  obtain ⟨filled, hFilled⟩ : ∃ filled, filled =
      List.replicate (places + 1 - (digitChars n).length) '0' ++ digitChars n := ⟨_, rfl⟩
  have hLength : places + 1 ≤ filled.length := by
    rw [hFilled, List.length_append, List.length_replicate]
    omega
  refine ⟨filled.take (filled.length - places), filled.drop (filled.length - places), ?_, ?_, ?_, ?_, ?_⟩
  · unfold withPoint
    rw [if_neg hPlaces.ne', hFilled]
  · rw [← List.length_pos_iff, List.length_take]
    omega
  · rw [List.length_drop]
    omega
  · rw [List.take_append_drop, hFilled]
    intro c hc
    rcases List.mem_append.mp hc with hZero | hDigit
    · rw [List.eq_of_mem_replicate hZero]
      rfl
    · exact isDigit_of_mem_digitChars hDigit
  · rw [List.take_append_drop, hFilled, natOfDigits_zeros, natOfDigits_digitChars]

/-- Text that begins with a digit is no word for infinity or for no number. -/
theorem readMagnitude_of_digit {whole rest : List Char} (hSome : whole ≠ []) (hDigits : ∀ c ∈ whole, c.isDigit = true)
    (hRest : ∀ c ∈ rest.head?, c.isDigit = false) :
    readMagnitude (whole ++ rest) = (readExponent (readFraction rest).2).map fun exponent =>
      nearestFloat (natOfDigits (whole ++ (readFraction rest).1)) (exponent - (readFraction rest).1.length) := by
  have hNoWord : ∀ word : List Char, word.any (·.isDigit) = false → lowerChars (whole ++ rest) ≠ word := by
    intro word hWord hSame
    obtain ⟨c, later, rfl⟩ := List.exists_cons_of_ne_nil hSome
    have hFirst : (lowerChar c).isDigit = true := (isDigit_lowerChar c).trans (hDigits c List.mem_cons_self)
    have hMem : lowerChar c ∈ word := hSame ▸ List.mem_cons_self
    exact Bool.false_ne_true (hWord.symm.trans (List.any_eq_true.mpr ⟨_, hMem, hFirst⟩))
  have hInfinite : ¬ (lowerChars (whole ++ rest) = "inf".toList ∨ lowerChars (whole ++ rest) = "infinity".toList) := by
    rintro (hSame | hSame)
    · exact hNoWord _ (by decide) hSame
    · exact hNoWord _ (by decide) hSame
  unfold readMagnitude
  dsimp only
  rw [if_neg hInfinite, if_neg (hNoWord _ (by decide)), spanDigits_append hDigits hRest]
  dsimp only
  rw [List.isEmpty_eq_false_iff.mpr hSome, Bool.false_and, if_neg Bool.false_ne_true]

/-- A decimal with a point is read as its units. -/
theorem readMagnitude_of_point {whole fraction : List Char} (hSome : whole ≠ [])
    (hDigits : ∀ c ∈ whole ++ fraction, c.isDigit = true) :
    readMagnitude (whole ++ '.' :: fraction) =
      some (nearestFloat (natOfDigits (whole ++ fraction)) (-fraction.length)) := by
  have hFraction : readFraction ('.' :: fraction) = (fraction, []) := by
    have hAll : spanDigits (fraction ++ []) = (fraction, []) :=
      spanDigits_append (fun c hc => hDigits c (List.mem_append_right _ hc)) nofun
    rwa [List.append_nil] at hAll
  rw [readMagnitude_of_digit hSome (fun c hc => hDigits c (List.mem_append_left _ hc)) (by rintro c ⟨⟩; rfl), hFraction]
  simp only [readExponent, Option.map_some, zero_sub]

/-- A digit is no sign. -/
theorem readSign_of_isDigit {cs : List Char} (h : ∀ c ∈ cs.head?, c.isDigit = true) : readSign cs = (false, cs) := by
  cases cs with
  | nil => rfl
  | cons c rest =>
    have hDigit := h c rfl
    unfold readSign
    split
    · rename_i hMinus
      cases hMinus
      cases hDigit
    · rename_i hPlus
      cases hPlus
      cases hDigit
    · rfl

/-- The sign in front of a digit turns the number round. -/
theorem readFloatChars_signed (negative : Bool) {cs : List Char} (h : ∀ c ∈ cs.head?, c.isDigit = true) :
    readFloatChars (signChars negative ++ cs) = (readMagnitude cs).map fun x => if negative then -x else x := by
  have hSign : readSign (signChars negative ++ cs) = (negative, cs) := by
    cases negative with
    | true => rfl
    | false => exact readSign_of_isDigit h
  unfold readFloatChars
  rw [hSign]

/-- **A decimal with a point is read** as its units, the sign turned round if it has one. -/
theorem readFloatChars_withPoint (negative : Bool) {places : Nat} (hPlaces : 0 < places) (n : Nat) :
    readFloatChars (signChars negative ++ withPoint places (digitChars n)) =
      some (if negative then -nearestFloat n (-places) else nearestFloat n (-places)) := by
  obtain ⟨whole, fraction, hText, hSome, hLength, hDigits, hUnits⟩ := withPoint_eq hPlaces n
  have hFirst : ∀ c ∈ (whole ++ '.' :: fraction).head?, c.isDigit = true := by
    obtain ⟨c, later, rfl⟩ := List.exists_cons_of_ne_nil hSome
    rintro d ⟨⟩
    exact hDigits c (List.mem_append_left _ List.mem_cons_self)
  rw [hText, readFloatChars_signed negative hFirst, readMagnitude_of_point hSome hDigits, hUnits, hLength,
    Option.map_some]

/-- **Whole numbers are read.** -/
theorem readFloatChars_whole (negative : Bool) {digits : List Char} (hSome : digits ≠ [])
    (hDigits : ∀ c ∈ digits, c.isDigit = true) :
    readFloatChars (signChars negative ++ digits) =
      some (if negative then -nearestFloat (natOfDigits digits) 0 else nearestFloat (natOfDigits digits) 0) := by
  have hMagnitude : readMagnitude (digits ++ []) = some (nearestFloat (natOfDigits (digits ++ [])) (0 - 0)) :=
    readMagnitude_of_digit hSome hDigits nofun
  rw [List.append_nil] at hMagnitude
  rw [readFloatChars_signed negative fun c hc => hDigits c (List.mem_of_mem_head? hc), hMagnitude]
  rfl

end PlanReplay.Decimal
