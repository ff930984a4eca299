import PlanReplay.Text.Blank

/-!
# Searching, replacing and folding case

Searches are for the first place where a text occurs. Case is folded in the ASCII letters only: names that
differ in other letters stay different.

Main statements:

* `splitAtFirst_eq_some` — what `splitAtFirst` returns are the parts around an occurrence;
* `lowerChars_lowerChars` — folding twice is folding once.
-/

namespace PlanReplay.Text

/-- The rest of a text after `pattern`, if it starts with it. -/
def afterPrefix : List Char → List Char → Option (List Char)
  | [], cs => some cs
  | _ :: _, [] => none
  | p :: pattern, c :: cs => if p = c then afterPrefix pattern cs else none

/-- The text before and the text after the first occurrence of `pattern`. -/
def splitAtFirst (pattern : List Char) : List Char → Option (List Char × List Char)
  | [] => if pattern.isEmpty then some ([], []) else none
  | c :: cs =>
    match afterPrefix pattern (c :: cs) with
    | some rest => some ([], rest)
    | none => (splitAtFirst pattern cs).map fun (before, rest) => (c :: before, rest)

/-- Whether `pattern` occurs in a text. -/
def occursIn (pattern cs : List Char) : Bool := (splitAtFirst pattern cs).isSome

/-- Replaces the occurrences of `pattern`, taken from the left and without overlap. The count `skip` is
of characters that an occurrence already covers. -/
def replaceFrom (pattern replacement : List Char) : Nat → List Char → List Char
  | _, [] => []
  | skip + 1, _ :: cs => replaceFrom pattern replacement skip cs
  | 0, c :: cs =>
    match afterPrefix pattern (c :: cs) with
    | some _ => replacement ++ replaceFrom pattern replacement (pattern.length - 1) cs
    | none => c :: replaceFrom pattern replacement 0 cs

/-- A text with every occurrence of the non-empty `pattern` replaced. -/
def replaceAll (pattern replacement text : String) : String :=
  String.ofList (replaceFrom pattern.toList replacement.toList 0 text.toList)

/-- The lower-case form of an ASCII capital; other characters stay. -/
def lowerChar (c : Char) : Char :=
  if 'A' ≤ c ∧ c ≤ 'Z' then Char.ofNat (c.toNat + 32) else c

/-- A text with its ASCII capitals in lower case. -/
def lowerChars (cs : List Char) : List Char := cs.map lowerChar

/-- A text with its ASCII capitals in lower case. -/
def lower (s : String) : String := String.ofList (lowerChars s.toList)

/-- Whether `pattern` occurs in `text`. -/
def contains (pattern text : String) : Bool := occursIn pattern.toList text.toList

/-- The first line of a text that is not blank, trimmed. -/
def firstFilledLine (s : String) : Option String :=
  ((lines s).map trim).find? (· ≠ "")

/-- A text between spaces: at least `width` characters, the spaces in front. -/
def padLeft (width : Nat) (s : String) : String :=
  String.ofList (List.replicate (width - s.toList.length) ' ') ++ s

theorem afterPrefix_eq_some {pattern cs rest : List Char} :
    afterPrefix pattern cs = some rest ↔ cs = pattern ++ rest := by
  induction pattern generalizing cs with
  | nil => simp [afterPrefix]
  | cons p pattern ih =>
    cases cs with
    | nil => simp [afterPrefix]
    | cons c cs =>
      by_cases h : p = c
      · simp [afterPrefix, h, ih]
      · simp [afterPrefix, h, Ne.symm h]

/-- The parts around the first occurrence, put together again, are the text. -/
theorem splitAtFirst_eq_some {pattern cs before rest : List Char}
    (found : splitAtFirst pattern cs = some (before, rest)) : cs = before ++ pattern ++ rest := by
  induction cs generalizing before with
  | nil =>
    simp only [splitAtFirst] at found
    split at found <;> simp_all
  | cons c cs ih =>
    simp only [splitAtFirst] at found
    split at found
    · rename_i h
      simp only [Option.some.injEq, Prod.mk.injEq] at found
      obtain ⟨rfl, rfl⟩ := found
      simpa using afterPrefix_eq_some.1 h
    · obtain ⟨⟨b, r⟩, h, eq⟩ := Option.map_eq_some_iff.1 found
      simp only [Prod.mk.injEq] at eq
      obtain ⟨rfl, rfl⟩ := eq
      simp [ih h]

/-- The lower-case form of a capital is 32 codes above it. -/
theorem toNat_lowerChar {c : Char} (h : 'A' ≤ c ∧ c ≤ 'Z') : (lowerChar c).toNat = c.toNat + 32 := by
  have hBounds : 65 ≤ c.toNat ∧ c.toNat ≤ 90 := h
  rw [lowerChar, if_pos h, Char.ofNat, dif_pos (by simp [Nat.isValidChar]; omega)]
  rfl

theorem lowerChar_lowerChar (c : Char) : lowerChar (lowerChar c) = lowerChar c := by
  by_cases h : 'A' ≤ c ∧ c ≤ 'Z'
  · have hCode := toNat_lowerChar h
    have hBounds : 65 ≤ c.toNat ∧ c.toNat ≤ 90 := h
    have hAbove : ¬ ('A' ≤ lowerChar c ∧ lowerChar c ≤ 'Z') := fun ⟨_, hHigh⟩ => by
      have hAtMost : (lowerChar c).toNat ≤ 90 := hHigh
      omega
    exact if_neg hAbove
  · rw [show lowerChar c = c from if_neg h]
    exact if_neg h

theorem lowerChars_lowerChars (cs : List Char) : lowerChars (lowerChars cs) = lowerChars cs := by
  simp [lowerChars, lowerChar_lowerChar]

end PlanReplay.Text
