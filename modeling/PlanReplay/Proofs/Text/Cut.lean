import Mathlib.Data.List.Infix
import PlanReplay.Text.Search

/-!
# Texts that are cut

A text is cut at every character of a kind, or at the first place where another text occurs.

* `Text.splitWhere_append`, `Text.splitWhere_of_none` — the pieces of a text that is put together.
* `Text.wordChars_word_append`, `Text.wordChars_intercalate` — words between blanks are found again.
* `Text.lineChars_flatMap` — lines that are each ended are found again.
* `Text.splitAtFirst_eq_none_iff`, `Text.splitAtFirst_of_not_infix`, `Text.splitAtFirst_append` — where a text occurs
  first.
* `Text.not_infix_append_cons` — a text without a separator does not occur across one.
-/

namespace PlanReplay.Text

-- ---------------------------------------------------------------------------
-- Pieces
-- ---------------------------------------------------------------------------

theorem splitWhere_ne_nil (p : Char → Bool) (cs : List Char) : splitWhere p cs ≠ [] := by
  cases cs with
  | nil => exact List.cons_ne_nil _ _
  | cons c rest =>
    unfold splitWhere
    split
    · exact List.cons_ne_nil _ _
    · split <;> exact List.cons_ne_nil _ _

/-- A text is cut at each character of the kind. -/
theorem splitWhere_append {p : Char → Bool} {c : Char} (hc : p c = true) (cs rest : List Char) :
    splitWhere p (cs ++ c :: rest) = splitWhere p cs ++ splitWhere p rest := by
  induction cs with
  | nil => simp [splitWhere, hc]
  | cons d cs ih =>
    rw [List.cons_append, splitWhere, splitWhere, ih]
    split
    · rfl
    · cases hPieces : splitWhere p cs with
      | nil => exact absurd hPieces (splitWhere_ne_nil p cs)
      | cons piece pieces => rfl

theorem splitWhere_of_none {p : Char → Bool} {cs : List Char} (h : ∀ c ∈ cs, p c = false) : splitWhere p cs = [cs] := by
  induction cs with
  | nil => rfl
  | cons c cs ih =>
    rw [splitWhere, if_neg (by simp [h c List.mem_cons_self]), ih fun d hd => h d (List.mem_cons_of_mem _ hd)]

/-- The pieces of a text are made of its characters. -/
theorem mem_of_mem_splitWhere {p : Char → Bool} {cs piece : List Char} (h : piece ∈ splitWhere p cs) :
    ∀ c ∈ piece, c ∈ cs := by
  induction cs generalizing piece with
  | nil =>
    obtain rfl := List.mem_singleton.mp h
    exact fun _ hc => hc
  | cons d rest ih =>
    intro c hc
    rw [splitWhere] at h
    split at h
    · rcases List.mem_cons.mp h with rfl | hLater
      · cases hc
      · exact List.mem_cons_of_mem _ (ih hLater c hc)
    · split at h
      · obtain rfl := List.mem_singleton.mp h
        exact List.mem_cons.mpr (Or.inl (List.mem_singleton.mp hc))
      · rename_i first pieces hPieces
        rcases List.mem_cons.mp h with rfl | hLater
        · rcases List.mem_cons.mp hc with rfl | hc
          · exact List.mem_cons_self
          · exact List.mem_cons_of_mem _ (ih (hPieces ▸ List.mem_cons_self) c hc)
        · exact List.mem_cons_of_mem _ (ih (hPieces ▸ List.mem_cons_of_mem _ hLater) c hc)

theorem mem_of_mem_wordChars {cs word : List Char} (h : word ∈ wordChars cs) : ∀ c ∈ word, c ∈ cs :=
  mem_of_mem_splitWhere (List.mem_filter.mp h).1

theorem wordChars_append {c : Char} (hc : isBlank c = true) (cs rest : List Char) :
    wordChars (cs ++ c :: rest) = wordChars cs ++ wordChars rest := by
  rw [wordChars, splitWhere_append hc, List.filter_append]
  rfl

/-- Blanks in front are no words. -/
theorem wordChars_blanks_append {blanks : List Char} (h : ∀ c ∈ blanks, isBlank c = true) (rest : List Char) :
    wordChars (blanks ++ rest) = wordChars rest := by
  induction blanks with
  | nil => rfl
  | cons c blanks ih =>
    rw [List.forall_mem_cons] at h
    exact (wordChars_append h.1 [] (blanks ++ rest)).trans (ih h.2)

theorem wordChars_of_whole {word : List Char} (hFilled : word ≠ []) (hWhole : ∀ c ∈ word, isBlank c = false) :
    wordChars word = [word] := by
  rw [wordChars, splitWhere_of_none hWhole]
  simp [hFilled]

/-- A word ends where a blank follows. -/
theorem wordChars_word_append {word blanks : List Char} (hFilled : word ≠ []) (hWhole : ∀ c ∈ word, isBlank c = false)
    (hSome : blanks ≠ []) (hBlanks : ∀ c ∈ blanks, isBlank c = true) (rest : List Char) :
    wordChars (word ++ (blanks ++ rest)) = word :: wordChars rest := by
  obtain ⟨c, later, rfl⟩ := List.exists_cons_of_ne_nil hSome
  rw [List.forall_mem_cons] at hBlanks
  rw [List.cons_append, wordChars_append hBlanks.1, wordChars_of_whole hFilled hWhole,
    wordChars_blanks_append hBlanks.2, List.singleton_append]

/-- **Words between spaces are found again.** -/
theorem wordChars_intercalate {words : List (List Char)} (h : ∀ word ∈ words, word ≠ [] ∧ ∀ c ∈ word, isBlank c = false) :
    wordChars ([' '].intercalate words) = words := by
  induction words with
  | nil => rfl
  | cons word rest ih =>
    rw [List.forall_mem_cons] at h
    obtain ⟨⟨hFilled, hWhole⟩, hRest⟩ := h
    cases rest with
    | nil =>
      rw [List.intercalate_singleton]
      exact wordChars_of_whole hFilled hWhole
    | cons next rest =>
      rw [List.intercalate_cons_cons, List.append_assoc,
        wordChars_word_append hFilled hWhole (List.cons_ne_nil _ _) (List.forall_mem_singleton.mpr rfl)]
      exact congrArg (word :: ·) (ih hRest)

/-- A text between whose pieces a separator stands is made of both. -/
theorem forall_mem_intercalate {holds : Char → Prop} {separator : List Char} {pieces : List (List Char)}
    (hSeparator : ∀ c ∈ separator, holds c) (h : ∀ piece ∈ pieces, ∀ c ∈ piece, holds c) :
    ∀ c ∈ separator.intercalate pieces, holds c := by
  induction pieces with
  | nil => exact nofun
  | cons piece rest ih =>
    rw [List.forall_mem_cons] at h
    cases rest with
    | nil =>
      rw [List.intercalate_singleton]
      exact h.1
    | cons next rest =>
      rw [List.intercalate_cons_cons, List.forall_mem_append, List.forall_mem_append]
      exact ⟨⟨h.1, hSeparator⟩, ih h.2⟩

/-- Lines are found again, each with its end. -/
theorem lineChars_flatMap {lines : List (List Char)} (h : ∀ line ∈ lines, '\n' ∉ line ∧ '\r' ∉ line) :
    lineChars (lines.flatMap (· ++ ['\n'])) = lines := by
  induction lines with
  | nil => rfl
  | cons line rest ih =>
    rw [List.forall_mem_cons] at h
    obtain ⟨⟨hFeed, hReturn⟩, hRest⟩ := h
    have hLine : ∀ more, lineChars (line ++ '\n' :: more) = line :: lineChars more := by
      intro more
      induction line with
      | nil => rfl
      | cons c line ihLine =>
        rw [List.mem_cons, not_or] at hFeed hReturn
        rw [List.cons_append, lineChars, ihLine hFeed.2 hReturn.2]
        · exact fun hc => hFeed.1 hc.symm
        · exact fun _ hc _ => hReturn.1 hc.symm
    rw [List.flatMap_cons, List.append_assoc, List.singleton_append, hLine, ih hRest]

-- ---------------------------------------------------------------------------
-- The first place
-- ---------------------------------------------------------------------------

/-- A text is found wherever it occurs. -/
theorem splitAtFirst_eq_none_iff {pattern cs : List Char} : splitAtFirst pattern cs = none ↔ ¬ pattern <:+: cs := by
  induction cs with
  | nil =>
    rw [splitAtFirst, List.infix_nil]
    split
    · rename_i hEmpty
      simpa using List.isEmpty_iff.mp hEmpty
    · rename_i hFilled
      simpa using fun hEmpty => hFilled (List.isEmpty_iff.mpr hEmpty)
  | cons c cs ih =>
    rw [splitAtFirst, List.infix_cons_iff]
    split
    · rename_i rest hHere
      have hPrefix : pattern <+: c :: cs := ⟨rest, (afterPrefix_eq_some.mp hHere).symm⟩
      simp [hPrefix]
    · rename_i hNot
      have hNoPrefix : ¬ pattern <+: c :: cs := by
        rintro ⟨rest, hRest⟩
        rw [afterPrefix_eq_some.mpr hRest.symm] at hNot
        cases hNot
      rw [Option.map_eq_none_iff, ih]
      simp [hNoPrefix]

/-- A text whose first character stands in it only once is found first where it is put, if it does not occur before. -/
theorem splitAtFirst_of_not_infix {p : Char} {pattern before : List Char} (hOnce : p ∉ pattern)
    (h : ¬ p :: pattern <:+: before) (rest : List Char) :
    splitAtFirst (p :: pattern) (before ++ (p :: pattern ++ rest)) = some (before, rest) := by
  induction before with
  | nil =>
    have hHere : afterPrefix (p :: pattern) (p :: pattern ++ rest) = some rest := afterPrefix_eq_some.mpr rfl
    rw [List.nil_append, List.cons_append, splitAtFirst]
    rw [List.cons_append] at hHere
    rw [hHere]
  | cons c before ih =>
    have hNot : afterPrefix (p :: pattern) (c :: (before ++ (p :: pattern ++ rest))) = none := by
      rw [Option.eq_none_iff_forall_ne_some]
      intro later hLater
      have hText := afterPrefix_eq_some.mp hLater
      rw [← List.cons_append] at hText
      rcases List.append_eq_append_iff.mp hText with ⟨more, hPattern, hMore⟩ | ⟨more, hBefore, -⟩
      · -- it would begin before its place and end there, so that its first character stood in it again
        cases more with
        | nil => exact h ⟨[], [], by rw [List.append_nil] at hPattern; rw [hPattern, List.nil_append, List.append_nil]⟩
        | cons d more =>
          rw [List.cons_append] at hPattern hMore
          obtain ⟨rfl, -⟩ := List.cons.inj hMore
          obtain ⟨-, rfl⟩ := List.cons.inj hPattern
          exact hOnce (List.mem_append_right _ List.mem_cons_self)
      · exact h ⟨[], more, by rw [List.nil_append, hBefore]⟩
    have hRest : ¬ p :: pattern <:+: before := fun hInfix => h (hInfix.trans (List.suffix_cons c before).isInfix)
    rw [List.cons_append, splitAtFirst, hNot, ih hRest]
    rfl

/-- A text is found first where its first character is. -/
theorem splitAtFirst_append {p : Char} {before : List Char} (h : p ∉ before) (pattern rest : List Char) :
    splitAtFirst (p :: pattern) (before ++ (p :: pattern ++ rest)) = some (before, rest) := by
  induction before with
  | nil =>
    have hHere : afterPrefix (p :: pattern) (p :: pattern ++ rest) = some rest := afterPrefix_eq_some.mpr rfl
    rw [List.nil_append, List.cons_append, splitAtFirst]
    rw [List.cons_append] at hHere
    rw [hHere]
  | cons c before ih =>
    rw [List.mem_cons, not_or] at h
    rw [List.cons_append, splitAtFirst]
    have hNot : afterPrefix (p :: pattern) (c :: (before ++ (p :: pattern ++ rest))) = none := if_neg h.1
    rw [hNot, ih h.2]
    rfl

/-- Before the first place of a character it does not stand. -/
theorem not_mem_of_splitAtFirst {c : Char} {cs before rest : List Char}
    (h : splitAtFirst [c] cs = some (before, rest)) : c ∉ before := by
  induction cs generalizing before with
  | nil => cases h
  | cons d cs ih =>
    rw [splitAtFirst] at h
    split at h
    · obtain ⟨rfl, -⟩ := Prod.mk.inj (Option.some.inj h)
      exact List.not_mem_nil
    · rename_i hNot
      obtain ⟨⟨later, _⟩, hLater, hParts⟩ := Option.map_eq_some_iff.mp h
      obtain ⟨rfl, rfl⟩ := Prod.mk.inj hParts
      have hOther : c ≠ d := by
        rintro rfl
        cases hNot.symm.trans (afterPrefix_eq_some.mpr (List.singleton_append (x := c)).symm)
      exact List.not_mem_cons_of_ne_of_not_mem hOther (ih hLater)

/-- What occurs in a text has its characters there. -/
theorem not_infix_of_not_mem {c : Char} {pattern cs : List Char} (hPattern : c ∈ pattern) (h : c ∉ cs) :
    ¬ pattern <:+: cs := fun hInfix => h (hInfix.subset hPattern)

/-- **A text without a separator does not occur across one.** -/
theorem not_infix_append_cons {c : Char} {pattern before rest : List Char} (hPattern : c ∉ pattern)
    (hBefore : ¬ pattern <:+: before) (hRest : ¬ pattern <:+: rest) : ¬ pattern <:+: before ++ c :: rest := by
  rintro ⟨start, tail, hText⟩
  rw [List.append_assoc] at hText
  rcases List.append_eq_append_iff.mp hText with ⟨more, rfl, hMore⟩ | ⟨more, rfl, hMore⟩
  · -- the text begins before the separator, and so it ends there as well
    rcases List.append_eq_append_iff.mp hMore with ⟨later, rfl, -⟩ | ⟨later, rfl, hLater⟩
    · exact hBefore ⟨start, later, List.append_assoc _ _ _⟩
    · cases later with
      | nil =>
        rw [List.append_nil] at hBefore
        exact hBefore (List.suffix_append start more).isInfix
      | cons d later =>
        obtain ⟨rfl, -⟩ := List.cons.inj hLater
        exact hPattern (List.mem_append_right _ List.mem_cons_self)
  · cases more with
    | nil =>
      cases pattern with
      | nil => exact hBefore List.nil_infix
      | cons d pattern =>
        obtain ⟨rfl, -⟩ := List.cons.inj hMore
        exact hPattern List.mem_cons_self
    | cons d more =>
      obtain ⟨-, rfl⟩ := List.cons.inj hMore
      exact hRest ⟨more, tail, List.append_assoc _ _ _⟩

theorem not_infix_cons {c : Char} {pattern rest : List Char} (hPattern : c ∉ pattern) (hSome : pattern ≠ [])
    (hRest : ¬ pattern <:+: rest) : ¬ pattern <:+: c :: rest :=
  not_infix_append_cons hPattern (fun hNone => hSome (List.infix_nil.mp hNone)) hRest

end PlanReplay.Text
