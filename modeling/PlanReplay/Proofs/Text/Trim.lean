import Mathlib.Data.List.Basic
import PlanReplay.Text.Search

/-!
# Texts without blanks at their ends

* `trimChars_eq_self` — a text that neither begins nor ends with a blank is left as it is.
* `trimChars_between` — nor is one that begins and ends with texts without blanks.
* `trimChars_of_surrounded` — between blanks, a text without blanks is found again.
* `isBlank_of_head?_trimChars`, `of_getLast?_dropWhileEnd` — what is trimmed neither begins nor ends with a blank.
* `trim_trim` — trimming twice is trimming once.
* `isBlank_lowerChar` — case does not matter for blanks.
* `eq_of_lowerChar`, `lower_eq_singleton_iff` — nor for anything but letters.
-/

namespace PlanReplay.Text

variable {p : Char → Bool} {cs : List Char}

/-- Nothing is dropped from an end that is kept. -/
theorem dropWhileEnd_of_last (h : ∀ c ∈ cs.getLast?, p c = false) : dropWhileEnd p cs = cs := by
  induction cs with
  | nil => rfl
  | cons c rest ih =>
    cases rest with
    | nil =>
      have hc : p c = false := h c rfl
      simp [dropWhileEnd, hc]
    | cons d rest =>
      have hRest : dropWhileEnd p (d :: rest) = d :: rest := ih h
      rw [dropWhileEnd, hRest]

/-- A text that does not begin with a dropped character is left as it is. -/
theorem dropWhile_of_head (h : ∀ c ∈ cs.head?, p c = false) : cs.dropWhile p = cs := by
  cases cs with
  | nil => rfl
  | cons c rest => exact List.dropWhile_cons_of_neg (by simpa using h c rfl)

theorem trimChars_eq_self (hFirst : ∀ c ∈ cs.head?, isBlank c = false) (hLast : ∀ c ∈ cs.getLast?, isBlank c = false) :
    trimChars cs = cs := by
  rw [trimChars, dropWhile_of_head hFirst, dropWhileEnd_of_last hLast]

theorem trimChars_of_whole (h : ∀ c ∈ cs, isBlank c = false) : trimChars cs = cs :=
  trimChars_eq_self (fun c hc => h c (List.mem_of_mem_head? hc)) fun c hc => h c (List.mem_of_mem_getLast? hc)

/-- At the end nothing is dropped up to what is kept. -/
theorem dropWhileEnd_append_cons {c : Char} (hc : p c = false) (cs rest : List Char) :
    dropWhileEnd p (cs ++ c :: rest) = cs ++ c :: dropWhileEnd p rest := by
  have hHere : dropWhileEnd p (c :: rest) = c :: dropWhileEnd p rest := by
    rw [dropWhileEnd]
    cases dropWhileEnd p rest with
    | nil => exact if_neg (Bool.eq_false_iff.mp hc)
    | cons d kept => rfl
  induction cs with
  | nil => exact hHere
  | cons d cs ih =>
    rw [List.cons_append, dropWhileEnd, ih]
    cases cs <;> rfl

theorem dropWhile_append_cons {c : Char} (hc : p c = false) (cs rest : List Char) :
    (cs ++ c :: rest).dropWhile p = cs.dropWhile p ++ c :: rest := by
  induction cs with
  | nil => exact List.dropWhile_cons_of_neg (Bool.eq_false_iff.mp hc)
  | cons d cs ih =>
    rw [List.cons_append, List.dropWhile_cons, List.dropWhile_cons, ih]
    split <;> rfl

/-- Blanks in front do not matter. -/
theorem trimChars_blanks_append {blanks : List Char} (h : ∀ c ∈ blanks, isBlank c = true) (rest : List Char) :
    trimChars (blanks ++ rest) = trimChars rest := by
  rw [trimChars, List.dropWhile_append_of_pos h]
  rfl

/-- Nor do blanks at the end. -/
theorem dropWhileEnd_append_blanks {blanks : List Char} (h : ∀ c ∈ blanks, p c = true) (cs : List Char) :
    dropWhileEnd p (cs ++ blanks) = dropWhileEnd p cs := by
  induction cs with
  | nil => exact dropWhileEnd_eq_nil_iff.mpr h
  | cons c cs ih => rw [List.cons_append, dropWhileEnd, ih, dropWhileEnd]

/-- **Between blanks, a text without blanks is found again.** -/
theorem trimChars_of_surrounded {before whole after : List Char} (hBefore : ∀ c ∈ before, isBlank c = true)
    (hWhole : ∀ c ∈ whole, isBlank c = false) (hAfter : ∀ c ∈ after, isBlank c = true) :
    trimChars (before ++ (whole ++ after)) = whole := by
  rw [trimChars_blanks_append hBefore]
  cases whole with
  | nil => exact trim_eq_nil_iff.mpr hAfter
  | cons c whole =>
    rw [trimChars, List.cons_append, List.dropWhile_cons_of_neg (Bool.eq_false_iff.mp (hWhole c List.mem_cons_self)),
      ← List.cons_append, dropWhileEnd_append_blanks hAfter]
    exact dropWhileEnd_of_last fun d hd => hWhole d (List.mem_of_mem_getLast? hd)

/-- A text between two texts without blanks is left as it is. -/
theorem trimChars_between {first last : List Char} (hFirst : first ≠ [] ∧ ∀ c ∈ first, isBlank c = false)
    (middle : List Char) (hLast : last ≠ [] ∧ ∀ c ∈ last, isBlank c = false) :
    trimChars (first ++ (middle ++ last)) = first ++ (middle ++ last) := by
  refine trimChars_eq_self ?_ ?_
  · intro c hc
    rw [List.head?_append_of_ne_nil _ hFirst.1] at hc
    exact hFirst.2 c (List.mem_of_mem_head? hc)
  · intro c hc
    rw [← List.append_assoc, List.getLast?_append_of_ne_nil _ hLast.1] at hc
    exact hLast.2 c (List.mem_of_mem_getLast? hc)

theorem head?_dropWhileEnd {c : Char} (h : c ∈ (dropWhileEnd p cs).head?) : c ∈ cs.head? := by
  cases cs with
  | nil => exact h
  | cons d rest =>
    rw [dropWhileEnd] at h
    split at h
    · split at h
      · cases h
      · exact h
    · exact h

/-- What is left of a trimmed text stands in the text. -/
theorem trimChars_within (cs : List Char) : trimChars cs <:+: cs := by
  have hPrefix : ∀ cs : List Char, dropWhileEnd isBlank cs <+: cs := by
    intro cs
    induction cs with
    | nil => exact List.prefix_rfl
    | cons c rest ih =>
      rw [dropWhileEnd]
      cases hKept : dropWhileEnd isBlank rest with
      | nil =>
        dsimp only
        split
        · exact List.nil_prefix
        · exact List.cons_prefix_cons.mpr ⟨rfl, List.nil_prefix⟩
      | cons d kept => exact List.cons_prefix_cons.mpr ⟨rfl, hKept ▸ ih⟩
  exact (hPrefix _).isInfix.trans (List.dropWhile_suffix _).isInfix

/-- What is trimmed does not begin with a blank. -/
theorem isBlank_of_head?_trimChars {c : Char} (h : c ∈ (trimChars cs).head?) : isBlank c = false := by
  have hFirst := head?_dropWhileEnd h
  have hNot := List.head?_dropWhile_not isBlank cs
  rw [Option.mem_def.mp hFirst] at hNot
  exact hNot

/-- Nor does it end with one. -/
theorem of_getLast?_dropWhileEnd {c : Char} (h : c ∈ (dropWhileEnd p cs).getLast?) : p c = false := by
  induction cs with
  | nil => cases h
  | cons d rest ih =>
    rw [dropWhileEnd] at h
    cases hKept : dropWhileEnd p rest with
    | nil =>
      rw [hKept] at h
      dsimp only at h
      split at h
      · cases h
      · rename_i hd
        obtain rfl := Option.some.inj h
        exact Bool.eq_false_iff.mpr hd
    | cons e kept =>
      rw [hKept] at h ih
      dsimp only at h
      rw [List.getLast?_cons_cons] at h
      exact ih h

/-- Trimming twice is trimming once. -/
theorem trim_trim (s : String) : trim (trim s) = trim s := by
  have hAgain : trimChars (trimChars s.toList) = trimChars s.toList :=
    trimChars_eq_self (fun _ hc => isBlank_of_head?_trimChars hc) fun _ hc => of_getLast?_dropWhileEnd hc
  rw [trim, trim, String.toList_ofList, hAgain]

theorem isBlank_of_isDigit {c : Char} (h : c.isDigit = true) : isBlank c = false := by
  have hCode : 48 ≤ c.toNat ∧ c.toNat ≤ 57 := by
    simp only [Char.isDigit, Bool.and_eq_true, decide_eq_true_eq] at h
    exact h
  simp [isBlank]
  omega

/-- What is no letter is no lower-case form of another character. -/
theorem eq_of_lowerChar {c d : Char} (hLow : d.toNat < 97) (h : lowerChar c = d) : c = d := by
  by_cases hCapital : 'A' ≤ c ∧ c ≤ 'Z'
  · have hCode := toNat_lowerChar hCapital
    have hBounds : 65 ≤ c.toNat ∧ c.toNat ≤ 90 := hCapital
    rw [h] at hCode
    omega
  · rwa [show lowerChar c = c from if_neg hCapital] at h

/-- A text of one character that comes before the letters has no other spelling. -/
theorem lower_eq_singleton_iff {c : Char} (hLow : c.toNat < 65) (name : String) :
    lower name = String.ofList [c] ↔ name = String.ofList [c] := by
  constructor
  · intro h
    have hChars : lowerChars name.toList = [c] := by
      have hText := congrArg String.toList h
      rwa [lower, String.toList_ofList, String.toList_ofList] at hText
    obtain ⟨d, hName, hd⟩ := List.map_eq_singleton_iff.mp hChars
    rw [← String.ofList_toList (s := name), hName, eq_of_lowerChar (by omega) hd]
  · rintro rfl
    have hOther : ¬ ('A' ≤ c ∧ c ≤ 'Z') := fun hCapital => absurd (show 65 ≤ c.toNat from hCapital.1) (by omega)
    rw [lower, String.toList_ofList, lowerChars, List.map_singleton, lowerChar, if_neg hOther]

/-- A capital is no blank, nor is its lower-case form. -/
theorem isBlank_lowerChar (c : Char) : isBlank (lowerChar c) = isBlank c := by
  by_cases hCapital : 'A' ≤ c ∧ c ≤ 'Z'
  · have hBounds : 65 ≤ c.toNat ∧ c.toNat ≤ 90 := hCapital
    have hCode := toNat_lowerChar hCapital
    have hLetter {d : Char} (hAbove : 65 ≤ d.toNat) (hBelow : d.toNat ≤ 122) : isBlank d = false := by
      simp [isBlank]
      omega
    rw [hLetter (by omega) (by omega), hLetter hBounds.1 (by omega)]
  · rw [show lowerChar c = c from if_neg hCapital]

end PlanReplay.Text
