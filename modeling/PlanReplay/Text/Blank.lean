/-!
# Blank characters, trimming, words and lines

White space is the Unicode property White_Space, which is wider than the blanks of plain ASCII text and
does not hold the zero-width characters. Every function here works on `List Char`; the versions on `String`
at the end wrap them.

Main statements:

* `mem_splitWhere` — the pieces of a text hold none of the characters it was cut at;
* `mem_words` — a word is never empty and never holds a blank;
* `trim_eq_nil_iff` — only blank text is trimmed away.
-/

namespace PlanReplay.Text

/-- The characters with the Unicode property White_Space. -/
def isBlank (c : Char) : Bool :=
  let n := c.toNat
  (9 ≤ n && n ≤ 13) || n == 32 || n == 0x85 || n == 0xA0 || n == 0x1680 ||
    (0x2000 ≤ n && n ≤ 0x200A) || n == 0x2028 || n == 0x2029 || n == 0x202F || n == 0x205F || n == 0x3000

/-- Drops the last characters as long as they satisfy `p`. -/
def dropWhileEnd (p : Char → Bool) : List Char → List Char
  | [] => []
  | c :: rest =>
    match dropWhileEnd p rest with
    | [] => if p c then [] else [c]
    | kept => c :: kept

/-- Text without the blanks at its two ends. -/
def trimChars (cs : List Char) : List Char := dropWhileEnd isBlank (cs.dropWhile isBlank)

/-- The pieces of a text cut at every character that satisfies `p`; always at least one. -/
def splitWhere (p : Char → Bool) : List Char → List (List Char)
  | [] => [[]]
  | c :: rest =>
    if p c then
      [] :: splitWhere p rest
    else
      match splitWhere p rest with
      | [] => [[c]]
      | piece :: pieces => (c :: piece) :: pieces

/-- The words of a text: its longest blank-free pieces. -/
def wordChars (cs : List Char) : List (List Char) := (splitWhere isBlank cs).filter (!·.isEmpty)

/-- The lines of a text. A line feed ends a line, together with one carriage return right before it; a
last line without line feed keeps its carriage return, and an empty one is no line. -/
def lineChars : List Char → List (List Char)
  | [] => []
  | '\n' :: rest => [] :: lineChars rest
  | '\r' :: '\n' :: rest => [] :: lineChars rest
  | c :: rest =>
    match lineChars rest with
    | [] => [[c]]
    | line :: lines => (c :: line) :: lines

/-- A text without the blanks at its two ends. -/
def trim (s : String) : String := String.ofList (trimChars s.toList)

/-- The blank-separated words of a text. -/
def words (s : String) : List String := (wordChars s.toList).map String.ofList

/-- The lines of a text, without their ends. -/
def lines (s : String) : List String := (lineChars s.toList).map String.ofList

theorem dropWhileEnd_eq_nil_iff {p : Char → Bool} {cs : List Char} :
    dropWhileEnd p cs = [] ↔ ∀ c ∈ cs, p c = true := by
  induction cs with
  | nil => simp [dropWhileEnd]
  | cons c rest ih =>
    cases h : dropWhileEnd p rest with
    | nil =>
      have tail := ih.1 h
      by_cases hc : p c = true <;> simp [dropWhileEnd, h, hc]
      exact tail
    | cons d kept =>
      have tail : ¬ ∀ c ∈ rest, p c = true := fun all => by simp [ih.2 all] at h
      simp only [dropWhileEnd, h, List.mem_cons, forall_eq_or_imp, reduceCtorEq, false_iff, not_and]
      exact fun _ => tail

/-- Only blank text is trimmed away. -/
theorem trim_eq_nil_iff {cs : List Char} : trimChars cs = [] ↔ ∀ c ∈ cs, isBlank c = true := by
  rw [trimChars, dropWhileEnd_eq_nil_iff]
  induction cs with
  | nil => simp
  | cons c rest ih =>
    by_cases hc : isBlank c = true
    · simp [hc, ih]
    · simp [hc]

/-- The pieces of a text hold none of the characters it was cut at. -/
theorem mem_splitWhere {p : Char → Bool} {cs piece : List Char} (mem : piece ∈ splitWhere p cs) :
    ∀ c ∈ piece, p c = false := by
  induction cs generalizing piece with
  | nil => simp_all [splitWhere]
  | cons c rest ih =>
    unfold splitWhere at mem
    split at mem
    · rcases List.mem_cons.1 mem with rfl | mem
      · simp
      · exact ih mem
    · rename_i hc
      split at mem
      · simp_all
      · rename_i first pieces eq
        rcases List.mem_cons.1 mem with rfl | mem
        · intro d hd
          rcases List.mem_cons.1 hd with rfl | hd
          · simpa using hc
          · exact ih (eq ▸ List.mem_cons_self) d hd
        · exact ih (eq ▸ List.mem_cons_of_mem _ mem)

/-- A word is never empty and never holds a blank. -/
theorem mem_words {cs word : List Char} (mem : word ∈ wordChars cs) :
    word ≠ [] ∧ ∀ c ∈ word, isBlank c = false := by
  obtain ⟨mem, filled⟩ := List.mem_filter.1 mem
  exact ⟨by simpa using filled, mem_splitWhere mem⟩

end PlanReplay.Text
