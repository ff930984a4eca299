import Mathlib.Data.List.Infix
import PlanReplay.Text.Search

/-!
# Replacing

A text is cut where a pattern occurs, and what replaces the pattern is put between the pieces. Which pieces these are does
not depend on what is put between them.

* `Text.exists_pieces` — replacing puts pieces together again.
* `Text.Occurs`, `Text.replaceAll_eq_self_iff` — when a text stays as it is.
* `Text.count_replaceFrom_le`, `Text.count_replaceFrom_lt` — how often a character stands in the text that comes out.
-/

namespace PlanReplay.Text

variable {pattern replacement cs : List Char}

-- ---------------------------------------------------------------------------
-- Pieces put together
-- ---------------------------------------------------------------------------

theorem intercalate_cons (between first : List Char) (later : List (List Char)) :
    between.intercalate (first :: later) = first ++ later.flatMap (between ++ ·) := by
  induction later generalizing first with
  | nil => simp
  | cons next later ih => simp [List.intercalate_cons_cons, ih]

/-- The characters of a text that is put together are those of its pieces, and once for each later piece those between. -/
theorem countP_intercalate (p : Char → Bool) (between first : List Char) (later : List (List Char)) :
    (between.intercalate (first :: later)).countP p =
      first.countP p + later.flatten.countP p + later.length * between.countP p := by
  rw [intercalate_cons, List.countP_append, Nat.add_assoc]
  congr 1
  induction later with
  | nil => simp
  | cons next later ih =>
    rw [List.flatMap_cons, List.countP_append, List.countP_append, ih, List.flatten_cons, List.countP_append,
      List.length_cons, Nat.add_one_mul]
    omega

/-- What stands between two pieces or more can be told from the text. -/
theorem eq_of_intercalate_eq {between between' first next : List Char} {later : List (List Char)}
    (h : between.intercalate (first :: next :: later) = between'.intercalate (first :: next :: later)) :
    between = between' := by
  have hLength : between.length = between'.length := by
    have hLengths := congrArg (List.countP fun _ => true) h
    rw [countP_intercalate, countP_intercalate, List.countP_true, Nat.add_left_cancel_iff] at hLengths
    exact Nat.eq_of_mul_eq_mul_left (Nat.succ_pos _) hLengths
  rw [List.intercalate_cons_cons, List.intercalate_cons_cons, List.append_assoc, List.append_assoc] at h
  exact (List.append_inj (List.append_cancel_left h) hLength).1

-- ---------------------------------------------------------------------------
-- Pieces of a text
-- ---------------------------------------------------------------------------

/-- What an occurrence covers is passed over. -/
theorem replaceFrom_covered (covered rest : List Char) :
    replaceFrom pattern replacement covered.length (covered ++ rest) = replaceFrom pattern replacement 0 rest := by
  induction covered with
  | nil => rfl
  | cons c covered ih => exact ih

theorem replaceFrom_occurrence (hSome : pattern ≠ []) (rest : List Char) :
    replaceFrom pattern replacement 0 (pattern ++ rest) = replacement ++ replaceFrom pattern replacement 0 rest := by
  obtain ⟨c, covered, rfl⟩ := List.exists_cons_of_ne_nil hSome
  have hHere : afterPrefix (c :: covered) (c :: (covered ++ rest)) = some rest := afterPrefix_eq_some.mpr rfl
  rw [List.cons_append, replaceFrom, hHere]
  show replacement ++ replaceFrom (c :: covered) replacement covered.length (covered ++ rest) = _
  rw [replaceFrom_covered]

theorem replaceFrom_of_elsewhere {c : Char} (h : ¬ pattern <+: c :: cs) :
    replaceFrom pattern replacement 0 (c :: cs) = c :: replaceFrom pattern replacement 0 cs := by
  have hNone : afterPrefix pattern (c :: cs) = none := by
    rw [Option.eq_none_iff_forall_ne_some]
    intro rest hRest
    exact h ⟨rest, (afterPrefix_eq_some.mp hRest).symm⟩
  rw [replaceFrom, hNone]

/-- **Replacing puts the pieces between the occurrences together again**, with something else between them. The induction
is on the length of the text, as an occurrence is passed over at once. -/
theorem exists_pieces (hSome : pattern ≠ []) (cs : List Char) :
    ∃ first later, pattern.intercalate (first :: later) = cs ∧ (∀ piece ∈ first :: later, ¬ pattern <:+: piece) ∧
      ∀ replacement, replaceFrom pattern replacement 0 cs = replacement.intercalate (first :: later) := by
  induction hLength : cs.length using Nat.strong_induction_on generalizing cs with
  | h n ih =>
    subst hLength
    cases cs with
    | nil => exact ⟨[], [], rfl, by simpa using hSome, fun _ => rfl⟩
    | cons c cs =>
      by_cases hHere : pattern <+: c :: cs
      · obtain ⟨rest, hRest⟩ := hHere
        have hShorter : rest.length < (c :: cs).length := by
          have hPos := List.length_pos_of_ne_nil hSome
          rw [← hRest, List.length_append]
          omega
        obtain ⟨first, later, rfl, hFree, hPieces⟩ := ih rest.length hShorter rest rfl
        refine ⟨[], first :: later, ?_, ?_, fun replacement => ?_⟩
        · rw [List.intercalate_cons_cons, List.nil_append, hRest]
        · exact List.forall_mem_cons.mpr ⟨by simpa using hSome, hFree⟩
        · rw [← hRest, replaceFrom_occurrence hSome, hPieces, List.intercalate_cons_cons, List.nil_append]
      · obtain ⟨first, later, rfl, hFree, hPieces⟩ := ih cs.length (Nat.lt_succ_self _) cs rfl
        rw [List.forall_mem_cons] at hFree
        refine ⟨c :: first, later, ?_, List.forall_mem_cons.mpr ⟨fun hInfix => ?_, hFree.2⟩, fun replacement => ?_⟩
        · rw [intercalate_cons, intercalate_cons, List.cons_append]
        · rcases List.infix_cons_iff.mp hInfix with hPrefix | hInfix
          · refine hHere (hPrefix.trans ?_)
            rw [intercalate_cons, ← List.cons_append]
            exact List.prefix_append _ _
          · exact hFree.1 hInfix
        · rw [replaceFrom_of_elsewhere hHere, hPieces, intercalate_cons, intercalate_cons, List.cons_append]

/-- Where a pattern occurs there are two pieces or more. -/
theorem exists_pieces_of_infix (hSome : pattern ≠ []) (h : pattern <:+: cs) :
    ∃ first next later, pattern.intercalate (first :: next :: later) = cs ∧
      ∀ replacement, replaceFrom pattern replacement 0 cs = replacement.intercalate (first :: next :: later) := by
  obtain ⟨first, later, rfl, hFree, hPieces⟩ := exists_pieces hSome cs
  cases later with
  | nil =>
    rw [List.intercalate_singleton] at h
    exact absurd h (hFree first List.mem_cons_self)
  | cons next later => exact ⟨first, next, later, rfl, hPieces⟩

theorem replaceFrom_of_absent (h : ¬ pattern <:+: cs) : replaceFrom pattern replacement 0 cs = cs := by
  induction cs with
  | nil => rfl
  | cons c cs ih =>
    rw [List.infix_cons_iff, not_or] at h
    rw [replaceFrom_of_elsewhere h.1, ih h.2]

-- ---------------------------------------------------------------------------
-- Texts that stay as they are
-- ---------------------------------------------------------------------------

/-- **A text stays as it is exactly if the pattern does not occur in it**, or is replaced by itself. -/
theorem replaceFrom_eq_self_iff (hSome : pattern ≠ []) :
    replaceFrom pattern replacement 0 cs = cs ↔ (pattern <:+: cs → replacement = pattern) := by
  constructor
  · intro hSame hInfix
    obtain ⟨first, next, later, hText, hPieces⟩ := exists_pieces_of_infix hSome hInfix
    rw [hPieces, ← hText] at hSame
    exact eq_of_intercalate_eq hSame
  · intro hItself
    by_cases hInfix : pattern <:+: cs
    · obtain ⟨first, next, later, hText, hPieces⟩ := exists_pieces_of_infix hSome hInfix
      rw [hPieces, hItself hInfix, hText]
    · exact replaceFrom_of_absent hInfix

section

variable {pattern replacement text : String}

/-- A text occurs in another one. -/
def Occurs (pattern text : String) : Prop := pattern.toList <:+: text.toList

instance (pattern text : String) : Decidable (Occurs pattern text) :=
  inferInstanceAs (Decidable (pattern.toList <:+: text.toList))

theorem replaceAll_eq_self_iff (hSome : pattern.toList ≠ []) :
    replaceAll pattern replacement text = text ↔ (Occurs pattern text → replacement = pattern) := by
  rw [replaceAll, ← String.toList_inj, String.toList_ofList, replaceFrom_eq_self_iff hSome, String.toList_inj]
  rfl

theorem replaceAll_of_not_occurs (h : ¬ Occurs pattern text) : replaceAll pattern replacement text = text := by
  rw [replaceAll, replaceFrom_of_absent h, String.ofList_toList]

/-- What is nothing but the pattern becomes the replacement. -/
theorem replaceAll_self (hSome : pattern.toList ≠ []) : replaceAll pattern replacement pattern = replacement := by
  have hWhole : replaceFrom pattern.toList replacement.toList 0 (pattern.toList ++ []) = _ :=
    replaceFrom_occurrence hSome []
  rw [List.append_nil, replaceFrom, List.append_nil] at hWhole
  rw [replaceAll, hWhole, String.ofList_toList]

end

-- ---------------------------------------------------------------------------
-- Characters
-- ---------------------------------------------------------------------------

variable {c : Char}

/-- A character gets no more frequent if the replacement does not have it. -/
theorem count_replaceFrom_le (hSome : pattern ≠ []) (h : c ∉ replacement) (cs : List Char) :
    (replaceFrom pattern replacement 0 cs).count c ≤ cs.count c := by
  obtain ⟨first, later, hText, -, hPieces⟩ := exists_pieces hSome cs
  have hNone : replacement.countP (· == c) = 0 := List.count_eq_zero.mpr h
  rw [hPieces, ← hText]
  simp only [List.count, countP_intercalate, hNone]
  omega

/-- A character of the pattern gets less frequent if the pattern occurs and the replacement does not have it. -/
theorem count_replaceFrom_lt (hPattern : c ∈ pattern) (h : c ∉ replacement) (hInfix : pattern <:+: cs) :
    (replaceFrom pattern replacement 0 cs).count c < cs.count c := by
  obtain ⟨first, next, later, hText, hPieces⟩ := exists_pieces_of_infix (List.ne_nil_of_mem hPattern) hInfix
  have hNone : replacement.countP (· == c) = 0 := List.count_eq_zero.mpr h
  have hOnce : 0 < (next :: later).length * pattern.countP (· == c) :=
    Nat.mul_pos (Nat.succ_pos _) (List.count_pos_iff.mpr hPattern)
  rw [hPieces, ← hText]
  simp only [List.count, countP_intercalate, hNone]
  omega

end PlanReplay.Text
