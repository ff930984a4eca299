import Mathlib.Data.List.TakeWhile
import PlanReplay.Decimal.Reader
import PlanReplay.Proofs.Text.Trim

/-!
# The texts of floats

A text that is read as a float is made of few characters: digits, signs, the point, the letter of the exponent and those
of the words for infinity and for no number. So it holds neither blanks nor brackets. Case does not matter in it.

* `Decimal.isFloatChar_of_readFloatChars` — the characters of a float.
* `Decimal.readFloatChars_lowerChars` — a text in lower case is the same float.
-/

namespace PlanReplay.Decimal

open Text

variable {cs : List Char} {c : Char}

-- ---------------------------------------------------------------------------
-- Characters
-- ---------------------------------------------------------------------------

/-- The characters other than digits of which floats are written, in lower case. -/
def floatMarks : List Char := ['+', '-', '.', 'e', 'i', 'n', 'f', 't', 'y', 'a']

/-- The characters of which floats are written. -/
def isFloatChar (c : Char) : Bool := c.isDigit || floatMarks.contains (lowerChar c)

theorem isFloatChar_of_isDigit (h : c.isDigit = true) : isFloatChar c = true := by
  rw [isFloatChar, h, Bool.true_or]

theorem isFloatChar_of_mark (h : lowerChar c ∈ floatMarks) : isFloatChar c = true := by
  rw [isFloatChar, List.contains_iff_mem.mpr h, Bool.or_true]

theorem isBlank_of_isFloatChar (h : isFloatChar c = true) : isBlank c = false := by
  rw [isFloatChar, Bool.or_eq_true] at h
  rcases h with hDigit | hMark
  · exact isBlank_of_isDigit hDigit
  · have hAll : floatMarks.all (fun d => !isBlank d) = true := by decide
    have hLowered := List.all_eq_true.mp hAll _ (List.contains_iff_mem.mp hMark)
    rw [isBlank_lowerChar, Bool.not_eq_true'] at hLowered
    exact hLowered

-- ---------------------------------------------------------------------------
-- Reading
-- ---------------------------------------------------------------------------

/-- A text is its sign and the rest. -/
theorem mem_readSign (h : c ∈ cs) : c = '-' ∨ c = '+' ∨ c ∈ (readSign cs).2 := by
  unfold readSign
  split
  · exact (List.mem_cons.mp h).imp_right Or.inr
  · exact Or.inr (List.mem_cons.mp h)
  · exact Or.inr (Or.inr h)

theorem isFloatChar_of_readSign (h : ∀ c ∈ (readSign cs).2, isFloatChar c = true) : ∀ c ∈ cs, isFloatChar c = true := by
  intro c hc
  rcases mem_readSign hc with rfl | rfl | hRest
  · rfl
  · rfl
  · exact h c hRest

theorem isFloatChar_of_readExponent {exponent : Int} (h : readExponent cs = some exponent) :
    ∀ c ∈ cs, isFloatChar c = true := by
  cases cs with
  | nil => exact nofun
  | cons mark rest =>
    rw [readExponent] at h
    split at h
    · rename_i hMark
      dsimp only at h
      split at h
      · cases h
      · rename_i hDigits
        rw [Bool.or_eq_true, not_or, Bool.not_eq_true', Bool.not_eq_false] at hDigits
        refine List.forall_mem_cons.mpr ⟨?_, isFloatChar_of_readSign fun c hc => ?_⟩
        · rcases hMark with rfl | rfl <;> rfl
        · exact isFloatChar_of_isDigit (List.all_eq_true.mp hDigits.2 c hc)
    · cases h

theorem isFloatChar_of_spanDigits (h : ∀ c ∈ (spanDigits cs).2, isFloatChar c = true) :
    ∀ c ∈ cs, isFloatChar c = true := by
  have hText : (spanDigits cs).1 ++ (spanDigits cs).2 = cs := List.takeWhile_append_dropWhile
  rw [← hText, List.forall_mem_append]
  exact ⟨fun c hc => isFloatChar_of_isDigit (List.mem_takeWhile_imp hc), h⟩

theorem isFloatChar_of_readFraction (h : ∀ c ∈ (readFraction cs).2, isFloatChar c = true) :
    ∀ c ∈ cs, isFloatChar c = true := by
  unfold readFraction at h
  split at h
  · exact List.forall_mem_cons.mpr ⟨rfl, isFloatChar_of_spanDigits h⟩
  · exact h

theorem isFloatChar_of_readMagnitude {x : Float} (h : readMagnitude cs = some x) : ∀ c ∈ cs, isFloatChar c = true := by
  have hWord : ∀ word : List Char, lowerChars cs = word → word.all floatMarks.contains = true →
      ∀ c ∈ cs, isFloatChar c = true := by
    intro word hCase hMarks c hc
    exact isFloatChar_of_mark
      (List.contains_iff_mem.mp (List.all_eq_true.mp hMarks _ (hCase ▸ List.mem_map_of_mem hc)))
  unfold readMagnitude at h
  dsimp only at h
  split at h
  · rename_i hInfinite
    rcases hInfinite with hCase | hCase <;> exact hWord _ hCase rfl
  · split at h
    · rename_i hCase
      exact hWord _ hCase rfl
    · split at h
      · cases h
      · obtain ⟨exponent, hExponent, -⟩ := Option.map_eq_some_iff.mp h
        exact isFloatChar_of_spanDigits (isFloatChar_of_readFraction (isFloatChar_of_readExponent hExponent))

/-- **The characters of a float.** -/
theorem isFloatChar_of_readFloatChars {x : Float} (h : readFloatChars cs = some x) : ∀ c ∈ cs, isFloatChar c = true := by
  obtain ⟨magnitude, hMagnitude, -⟩ := Option.map_eq_some_iff.mp h
  exact isFloatChar_of_readSign (isFloatChar_of_readMagnitude hMagnitude)

-- ---------------------------------------------------------------------------
-- Case
-- ---------------------------------------------------------------------------

theorem lowerChar_of_isDigit (h : c.isDigit = true) : lowerChar c = c := by
  have hCode : 48 ≤ c.toNat ∧ c.toNat ≤ 57 := by
    simp only [Char.isDigit, Bool.and_eq_true, decide_eq_true_eq] at h
    exact h
  refine if_neg fun hCapital => ?_
  have hBounds : 65 ≤ c.toNat ∧ c.toNat ≤ 90 := hCapital
  omega

theorem isDigit_lowerChar (c : Char) : (lowerChar c).isDigit = c.isDigit := by
  by_cases hCapital : 'A' ≤ c ∧ c ≤ 'Z'
  · have hCode := toNat_lowerChar hCapital
    have hBounds : 65 ≤ c.toNat ∧ c.toNat ≤ 90 := hCapital
    have hNone {d : Char} (hAbove : 58 ≤ d.toNat) : d.isDigit = false := by
      refine Bool.eq_false_iff.mpr fun hDigit => ?_
      simp only [Char.isDigit, Bool.and_eq_true, decide_eq_true_eq] at hDigit
      have hBelow : d.toNat ≤ 57 := hDigit.2
      omega
    rw [hNone (by omega), hNone (by omega)]
  · rw [show lowerChar c = c from if_neg hCapital]

theorem lowerChar_exponent_iff : lowerChar c = 'e' ∨ lowerChar c = 'E' ↔ c = 'e' ∨ c = 'E' := by
  by_cases hCapital : 'A' ≤ c ∧ c ≤ 'Z'
  · have hCode := toNat_lowerChar hCapital
    have hBounds : 65 ≤ c.toNat ∧ c.toNat ≤ 90 := hCapital
    rw [← Char.toNat_inj, ← Char.toNat_inj, ← Char.toNat_inj, ← Char.toNat_inj, hCode]
    change c.toNat + 32 = 101 ∨ c.toNat + 32 = 69 ↔ c.toNat = 101 ∨ c.toNat = 69
    omega
  · rw [show lowerChar c = c from if_neg hCapital]

theorem readSign_lowerChars (cs : List Char) :
    readSign (lowerChars cs) = ((readSign cs).1, lowerChars (readSign cs).2) := by
  match cs with
  | [] => rfl
  | c :: rest =>
    by_cases hMinus : c = '-'
    · rw [hMinus]
      rfl
    · by_cases hPlus : c = '+'
      · rw [hPlus]
        rfl
      · have hNoMinus : lowerChar c ≠ '-' := fun h => hMinus (eq_of_lowerChar (by decide) h)
        have hNoPlus : lowerChar c ≠ '+' := fun h => hPlus (eq_of_lowerChar (by decide) h)
        simp [readSign, lowerChars, hMinus, hPlus, hNoMinus, hNoPlus]

theorem lowerChars_of_digits {digits : List Char} (h : ∀ c ∈ digits, c.isDigit = true) : lowerChars digits = digits :=
  (List.map_congr_left fun c hc => lowerChar_of_isDigit (h c hc)).trans (List.map_id _)

theorem spanDigits_lowerChars (cs : List Char) :
    spanDigits (lowerChars cs) = ((spanDigits cs).1, lowerChars (spanDigits cs).2) := by
  have hSame : (fun c => (lowerChar c).isDigit) = fun c : Char => c.isDigit := funext isDigit_lowerChar
  unfold spanDigits lowerChars
  rw [List.takeWhile_map, List.dropWhile_map]
  change ((cs.takeWhile fun c => (lowerChar c).isDigit).map lowerChar,
    (cs.dropWhile fun c => (lowerChar c).isDigit).map lowerChar) = _
  rw [hSame]
  exact congrArg (·, _) (lowerChars_of_digits fun c hc => List.mem_takeWhile_imp hc)

theorem readFraction_lowerChars (cs : List Char) :
    readFraction (lowerChars cs) = ((readFraction cs).1, lowerChars (readFraction cs).2) := by
  match cs with
  | [] => rfl
  | c :: rest =>
    by_cases hPoint : c = '.'
    · rw [hPoint]
      exact spanDigits_lowerChars rest
    · have hNoPoint : lowerChar c ≠ '.' := fun h => hPoint (eq_of_lowerChar (by decide) h)
      simp [readFraction, lowerChars, hPoint, hNoPoint]

theorem readExponent_lowerChars (cs : List Char) : readExponent (lowerChars cs) = readExponent cs := by
  match cs with
  | [] => rfl
  | mark :: rest =>
    change readExponent (lowerChar mark :: lowerChars rest) = _
    rw [readExponent, readExponent]
    refine if_congr lowerChar_exponent_iff ?_ rfl
    rw [readSign_lowerChars]
    dsimp only
    have hDigits : (lowerChars (readSign rest).2).all (·.isDigit) = (readSign rest).2.all (·.isDigit) := by
      rw [lowerChars, List.all_map]
      exact congrArg ((readSign rest).2.all ·) (funext isDigit_lowerChar)
    have hEmpty : (lowerChars (readSign rest).2).isEmpty = (readSign rest).2.isEmpty := List.isEmpty_map
    rw [hDigits, hEmpty]
    split
    · rfl
    · rename_i hAll
      rw [Bool.or_eq_true, not_or, Bool.not_eq_true', Bool.not_eq_false] at hAll
      rw [lowerChars_of_digits (List.all_eq_true.mp hAll.2)]

theorem readMagnitude_lowerChars (cs : List Char) : readMagnitude (lowerChars cs) = readMagnitude cs := by
  unfold readMagnitude
  dsimp only
  rw [lowerChars_lowerChars, spanDigits_lowerChars]
  dsimp only
  rw [readFraction_lowerChars]
  dsimp only
  rw [readExponent_lowerChars]

/-- **A text in lower case** is the same float. -/
theorem readFloatChars_lowerChars (cs : List Char) : readFloatChars (lowerChars cs) = readFloatChars cs := by
  unfold readFloatChars
  rw [readSign_lowerChars]
  dsimp only
  rw [readMagnitude_lowerChars]

end PlanReplay.Decimal
