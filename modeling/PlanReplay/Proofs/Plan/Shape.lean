import PlanReplay.Proofs.Decimal.FloatText
import PlanReplay.Proofs.Plan.Times
import PlanReplay.Proofs.Text.Cut

/-!
# The shapes of action lines

A line with an action has words in parentheses. A label may stand before them with a colon and a space, a duration in
brackets after them, and blanks wherever parts meet. Whatever characters the words and the label are made of, such a
line is read as its action: what looks like a delimiter inside a word or a label does not move any cut.

* `ActionShape` — a line by its parts, `ActionShape.chars` — the text of the line.
* `LabelSays` — what a label says about the start; `exists_labelSays` — every label says something.
* `splitAction?_of_shape`, `words_of_shape`, `parseDuration?_of_shape` — the cuts meet the parts.
* `readLine_of_shape` — a line of this shape is read as its action.
-/

namespace PlanReplay

open Decimal Text

-- ---------------------------------------------------------------------------
-- Parts of a line
-- ---------------------------------------------------------------------------

/-- Blanks between parts of a line. -/
structure Blanks where
  chars : List Char
  blank : ∀ c ∈ chars, isBlank c = true

/-- A word in parentheses. -/
structure LineWord where
  text : String
  filled : text.toList ≠ []
  whole : ∀ c ∈ text.toList, isBlank c = false ∧ c ≠ ')'

/-- A word and the blanks between it and the one before. -/
structure LineArgument where
  gap : Blanks
  apart : gap.chars ≠ []
  word : LineWord

def LineArgument.chars (a : LineArgument) : List Char := a.gap.chars ++ a.word.text.toList

/-- What stands before the colon of an action. It is no action itself, and no action begins in it. -/
structure LineLabel where
  chars : List Char
  noAction : (trimChars chars).head? ≠ some '('
  single : ¬ [':', ' ', '('] <:+: chars

/-- A duration in brackets, and the blanks between them and the action. -/
structure LineBracket where
  gap : Blanks
  opening : Blanks
  number : List Char
  closing : Blanks
  value : Float
  reads : readFloatChars number = some value
  lasting : Lasting value

/-- The text between the brackets. -/
def LineBracket.inside (b : LineBracket) : List Char := b.opening.chars ++ (b.number ++ b.closing.chars)

/-- A line with an action. -/
structure ActionShape where
  leading : Blanks
  label : Option LineLabel
  opening : Blanks
  verb : LineWord
  args : List LineArgument
  closing : Blanks
  bracket : Option LineBracket
  trailing : Blanks

namespace ActionShape

variable (s : ActionShape)

/-- The text before the parentheses. -/
def front : List Char := s.label.elim [] fun label => label.chars ++ [':', ' ']

/-- The text between the parentheses. -/
def inside : List Char :=
  s.opening.chars ++ (s.verb.text.toList ++ (s.args.flatMap LineArgument.chars ++ s.closing.chars))

/-- The text after the parentheses. -/
def back : List Char :=
  (s.bracket.elim [] fun b => b.gap.chars ++ '[' :: (b.inside ++ [']'])) ++ s.trailing.chars

/-- The text of a line. -/
def chars : List Char := s.leading.chars ++ (s.front ++ '(' :: (s.inside ++ ')' :: s.back))

/-- What the line says, if it says this about the start. -/
def action (time : LineTime) : ActionLine :=
  ⟨s.label.isSome, time, s.bracket.map LineBracket.value, lower s.verb.text,
    s.args.map fun a => EntityId.ofName a.word.text⟩

end ActionShape

/-- The characters that a number begins with. -/
def IsNumberStart (c : Char) : Prop := c.isDigit = true ∨ c = '.' ∨ c = '+' ∨ c = '-'

/-- What a label says about the start of its action: a number is an offset, no number and words say nothing. A number
that is not finite is a fault, and so is what only begins like one. -/
inductive LabelSays : Option LineLabel → Except LineFault LineTime → Prop
  | nothing : LabelSays none (.ok .positional)
  | blank {label : LineLabel} : trimChars label.chars = [] → LabelSays (some label) (.ok .positional)
  | words {label : LineLabel} :
      readFloatChars (trimChars label.chars) = none → (∀ c ∈ (trimChars label.chars).head?, ¬ IsNumberStart c) →
        LabelSays (some label) (.ok .positional)
  | offset {label : LineLabel} {value : Float} :
      readFloatChars (trimChars label.chars) = some value → value.isFinite = true →
        LabelSays (some label) (.ok (.explicit value))
  | nonFinite {label : LineLabel} {value : Float} :
      readFloatChars (trimChars label.chars) = some value → value.isFinite = false →
        LabelSays (some label) (.error (.nonFiniteTime value))
  | malformed {label : LineLabel} {c : Char} :
      readFloatChars (trimChars label.chars) = none → (trimChars label.chars).head? = some c → IsNumberStart c →
        LabelSays (some label) (.error (.malformedTime (String.ofList (trimChars label.chars))))

/-- Every label says something. -/
theorem exists_labelSays (label : Option LineLabel) : ∃ said, LabelSays label said := by
  cases label with
  | none => exact ⟨_, .nothing⟩
  | some label =>
    cases hRead : readFloatChars (trimChars label.chars) with
    | some value =>
      cases hFinite : value.isFinite with
      | true => exact ⟨_, .offset hRead hFinite⟩
      | false => exact ⟨_, .nonFinite hRead hFinite⟩
    | none =>
      by_cases hStart : ∃ c ∈ (trimChars label.chars).head?, IsNumberStart c
      · obtain ⟨c, hc, hStart⟩ := hStart
        exact ⟨_, .malformed hRead hc hStart⟩
      · exact ⟨_, .words hRead fun c hc hStarts => hStart ⟨c, hc, hStarts⟩⟩

-- ---------------------------------------------------------------------------
-- Reading the parts
-- ---------------------------------------------------------------------------

theorem looksNumeric_iff {cs : List Char} : PlanLine.looksNumeric cs = true ↔ ∃ c ∈ cs.head?, IsNumberStart c := by
  cases cs with
  | nil => simp [PlanLine.looksNumeric]
  | cons c rest =>
    simp only [PlanLine.looksNumeric, Bool.or_eq_true, beq_iff_eq, List.head?_cons, Option.mem_some_iff,
      exists_eq_left', IsNumberStart]
    tauto

/-- No text is no number, and does not begin like one. -/
theorem parseTime_eq (cs : List Char) : PlanLine.parseTime cs =
    match readFloatChars cs with
    | some value => if value.isFinite then .ok (.explicit value) else .error (.nonFiniteTime value)
    | none =>
      if PlanLine.looksNumeric cs then .error (.malformedTime (String.ofList cs)) else .ok .positional := by
  cases cs <;> rfl

/-- A label is read as what it says. -/
theorem parseTime_eq_said {label : LineLabel} {said : Except LineFault LineTime} (h : LabelSays (some label) said) :
    PlanLine.parseTime (trimChars label.chars) = said := by
  rw [parseTime_eq]
  cases h with
  | blank hBlank =>
    rw [hBlank]
    rfl
  | words hRead hStart =>
    rw [hRead]
    refine if_neg fun hLooks => ?_
    obtain ⟨c, hc, hStarts⟩ := looksNumeric_iff.mp hLooks
    exact hStart c hc hStarts
  | offset hRead hFinite =>
    rw [hRead]
    exact if_pos hFinite
  | nonFinite hRead hFinite =>
    rw [hRead]
    exact if_neg (Bool.eq_false_iff.mp hFinite)
  | malformed hRead hHead hStart =>
    rw [hRead]
    exact if_pos (looksNumeric_iff.mpr ⟨_, hHead, hStart⟩)

section Words

variable (verb : LineWord) (args : List LineArgument) {closing : List Char}

/-- The words of a line are found again, whatever blanks stand between them. -/
theorem wordChars_of_args (hClosing : ∀ c ∈ closing, isBlank c = true) :
    wordChars (verb.text.toList ++ (args.flatMap LineArgument.chars ++ closing)) =
      verb.text.toList :: args.map fun a => a.word.text.toList := by
  have hWhole (word : LineWord) : ∀ c ∈ word.text.toList, isBlank c = false := fun c hc => (word.whole c hc).1
  induction args generalizing verb with
  | nil =>
    rw [List.flatMap_nil, List.nil_append, List.map_nil]
    cases closing with
    | nil =>
      rw [List.append_nil]
      exact wordChars_of_whole verb.filled (hWhole verb)
    | cons c closing =>
      have hLast := wordChars_word_append verb.filled (hWhole verb) (List.cons_ne_nil c closing) hClosing []
      rwa [List.append_nil] at hLast
  | cons a args ih =>
    rw [List.flatMap_cons, LineArgument.chars, List.append_assoc, List.append_assoc,
      wordChars_word_append verb.filled (hWhole verb) a.apart a.gap.blank, ih a.word, List.map_cons]

end Words

/-- Brackets hold the text between them. -/
theorem bracketChars?_eq {inside : List Char} (h : ']' ∉ inside) :
    PlanLine.bracketChars? ('[' :: (inside ++ [']'])) = some (trimChars inside) := by
  have hOpen : splitAtFirst ['['] ('[' :: (inside ++ [']'])) = some ([], inside ++ [']']) :=
    splitAtFirst_append List.not_mem_nil [] _
  have hClose : splitAtFirst [']'] (inside ++ [']']) = some (inside, []) := splitAtFirst_append h [] []
  unfold PlanLine.bracketChars?
  simp only [hOpen, hClose, Option.bind_eq_bind, Option.bind_some]

theorem LineBracket.bracketNumber?_eq (b : LineBracket) :
    PlanLine.bracketNumber? (fun value => value.isFinite && 0 ≤ value) ('[' :: (b.inside ++ [']'])) = some b.value := by
  have hFloat := isFloatChar_of_readFloatChars b.reads
  have hClosed {c : Char} (hc : isBlank c = true ∨ isFloatChar c = true) : c ≠ ']' := by
    rintro rfl
    rcases hc with hBlank | hNumber
    · cases hBlank
    · cases hNumber
  have hUnclosed : ']' ∉ b.inside := by
    intro hMem
    rcases List.mem_append.mp hMem with hOpening | hRest
    · exact hClosed (Or.inl (b.opening.blank _ hOpening)) rfl
    · rcases List.mem_append.mp hRest with hNumber | hClosing
      · exact hClosed (Or.inr (hFloat _ hNumber)) rfl
      · exact hClosed (Or.inl (b.closing.blank _ hClosing)) rfl
  have hTrimmed : trimChars b.inside = b.number :=
    trimChars_of_surrounded b.opening.blank (fun c hc => isBlank_of_isFloatChar (hFloat c hc)) b.closing.blank
  unfold PlanLine.bracketNumber?
  rw [bracketChars?_eq hUnclosed, hTrimmed, Option.bind_some, b.reads, Option.filter_eq_some_iff, Bool.and_eq_true,
    decide_eq_true_iff]
  exact ⟨rfl, b.lasting⟩

-- ---------------------------------------------------------------------------
-- Cutting the line
-- ---------------------------------------------------------------------------

namespace ActionShape

variable (s : ActionShape)

/-- Trimming takes blanks only, in front of the label and behind the brackets. -/
theorem trimChars_chars : trimChars s.chars =
    s.front.dropWhile isBlank ++ '(' :: (s.inside ++ ')' :: dropWhileEnd isBlank s.back) := by
  rw [chars, trimChars_blanks_append s.leading.blank, trimChars, dropWhile_append_cons rfl, ← List.cons_append,
    ← List.append_assoc, dropWhileEnd_append_cons rfl, List.append_assoc]
  rfl

/-- The first cut is at the label. -/
theorem splitAction?_of_shape (body : List Char) :
    PlanLine.splitAction? (s.front.dropWhile isBlank ++ '(' :: body) =
      some (s.label.map fun label => trimChars label.chars, body) := by
  unfold front
  cases s.label with
  | none => rfl
  | some label =>
    have hFront : (label.chars ++ [':', ' ']).dropWhile isBlank = label.chars.dropWhile isBlank ++ [':', ' '] :=
      dropWhile_append_cons rfl _ _
    have hTrimmed : trimChars (label.chars.dropWhile isBlank) = trimChars label.chars := by
      rw [trimChars, List.dropWhile_idempotent]
      rfl
    have hSingle : ¬ [':', ' ', '('] <:+: label.chars.dropWhile isBlank := fun hInfix =>
      label.single (hInfix.trans (List.dropWhile_suffix _).isInfix)
    have hSplit := splitAtFirst_of_not_infix (by decide) hSingle body
    change PlanLine.splitAction? ((label.chars ++ [':', ' ']).dropWhile isBlank ++ '(' :: body) = _
    rw [hFront, List.append_assoc]
    unfold PlanLine.splitAction?
    split
    · rename_i hOpening
      cases hRest : label.chars.dropWhile isBlank with
      | nil =>
        rw [hRest] at hOpening
        cases hOpening
      | cons c rest =>
        rw [hRest] at hOpening hTrimmed
        obtain rfl : c = '(' := (List.cons.inj hOpening).1
        refine absurd ?_ label.noAction
        rw [← hTrimmed, trimChars, List.dropWhile_cons_of_neg (by decide)]
        exact congrArg List.head? (dropWhileEnd_append_cons rfl [] rest)
    · change (splitAtFirst [':', ' ', '('] (label.chars.dropWhile isBlank ++ ([':', ' ', '('] ++ body))).map _ = _
      rw [hSplit]
      exact congrArg (fun time => some (some time, body)) hTrimmed

theorem closing_not_mem_inside : ')' ∉ s.inside := by
  have hBlanks (blanks : Blanks) : ')' ∉ blanks.chars := fun hMem => absurd (blanks.blank _ hMem) (by decide)
  have hWord (word : LineWord) : ')' ∉ word.text.toList := fun hMem => (word.whole _ hMem).2 rfl
  unfold inside
  simp only [List.mem_append, List.mem_flatMap, not_or, not_exists, not_and]
  refine ⟨hBlanks _, hWord _, fun a _ => ?_, hBlanks _⟩
  unfold LineArgument.chars
  rw [List.mem_append, not_or]
  exact ⟨hBlanks _, hWord _⟩

/-- Between the parentheses stand the words. -/
theorem words_of_shape : Text.words (String.ofList s.inside) = s.verb.text :: s.args.map fun a => a.word.text := by
  rw [Text.words, String.toList_ofList, inside, wordChars_blanks_append s.opening.blank,
    wordChars_of_args s.verb s.args s.closing.blank, List.map_cons, List.map_map, String.ofList_toList]
  exact congrArg _ (List.map_congr_left fun a _ => String.ofList_toList)

/-- After the parentheses stands the duration. -/
theorem parseDuration?_of_shape :
    PlanLine.parseDuration? (trimChars (dropWhileEnd isBlank s.back)) = some (.ok (s.bracket.map LineBracket.value)) := by
  unfold back
  rw [dropWhileEnd_append_blanks s.trailing.blank]
  cases s.bracket with
  | none => rfl
  | some b =>
    have hEnd : dropWhileEnd isBlank (b.gap.chars ++ '[' :: (b.inside ++ [']'])) =
        b.gap.chars ++ '[' :: (b.inside ++ [']']) := by
      refine dropWhileEnd_of_last ?_
      rw [← List.cons_append, ← List.append_assoc, List.getLast?_concat]
      rintro c ⟨⟩
      rfl
    have hTrimmed : trimChars ('[' :: (b.inside ++ [']'])) = '[' :: (b.inside ++ [']']) := by
      refine trimChars_eq_self ?_ ?_
      · rintro c ⟨⟩
        rfl
      · rw [← List.cons_append, List.getLast?_concat]
        rintro c ⟨⟩
        rfl
    change PlanLine.parseDuration? (trimChars (dropWhileEnd isBlank (b.gap.chars ++ '[' :: (b.inside ++ [']'])))) = _
    rw [hEnd, trimChars_blanks_append b.gap.blank, hTrimmed]
    unfold PlanLine.parseDuration?
    rw [b.bracketNumber?_eq]
    rfl

/-- The cuts meet the parts. -/
theorem parseAction_of_shape {said : Except LineFault LineTime} (h : LabelSays s.label said) :
    PlanLine.parseAction (trimChars s.chars) = said.map fun time => .action (s.action time) := by
  have hInside : splitAtFirst [')'] (s.inside ++ ')' :: dropWhileEnd isBlank s.back) =
      some (s.inside, dropWhileEnd isBlank s.back) := splitAtFirst_append s.closing_not_mem_inside [] _
  rw [trimChars_chars, PlanLine.parseAction, splitAction?_of_shape]
  dsimp only
  rw [hInside]
  dsimp only
  rw [words_of_shape, parseDuration?_of_shape]
  dsimp only
  unfold action
  rw [List.map_map]
  cases hLabel : s.label with
  | none =>
    rw [hLabel] at h
    cases h
    rfl
  | some label =>
    rw [hLabel] at h
    dsimp only [Option.map_some]
    rw [parseTime_eq_said h]
    cases said <;> rfl

end ActionShape

/-- **All shapes of action lines are recognised.** A line with words in parentheses, with or without a label before and
a duration behind them, whatever blanks stand between the parts, is read as its action, unless it holds a waiting
marker: the first word in lower case is its name, the others are its arguments, and the duration is that of the
brackets. The label says when it starts, and nothing else on the line can be at fault. -/
theorem Plan.readLine_of_shape (s : ActionShape) (hUnmarked : ¬ PlanLine.waitingMarker <:+: s.chars) :
    (∃ said, LabelSays s.label said) ∧ ∀ said, LabelSays s.label said →
      (Plan.readLine (String.ofList s.chars)).2 = said.map fun time => .action (s.action time) := by
  refine ⟨exists_labelSays s.label, fun said hSaid => ?_⟩
  have hNone : splitAtFirst PlanLine.waitingMarker (trimChars s.chars) = none :=
    splitAtFirst_eq_none_iff.mpr fun hInfix => hUnmarked (hInfix.trans (trimChars_within _))
  have hLine : (Plan.readLine (String.ofList s.chars)).2 = PlanLine.parse (trimChars s.chars) := by
    unfold Plan.readLine
    dsimp only
    rw [trim, String.toList_ofList, String.toList_ofList]
  rw [hLine, PlanLine.parse, hNone]
  exact s.parseAction_of_shape hSaid

/-- Delimiters inside words and in a label. -/
theorem Plan.readLine_of_shape_of_delimiters :
    (Plan.readLine " +1.5 : ( Move [t:\t(a] ) [ 2e0 ]").2 =
      .ok (.action ⟨true, .explicit 1.5, some 2, "move", [⟨"[t:"⟩, ⟨"(a]"⟩]⟩) := by
  let space : Blanks := ⟨[' '], by simp [isBlank]⟩
  let s : ActionShape :=
    { leading := space
      label := some ⟨"+1.5 ".toList, by decide, by decide⟩
      opening := space
      verb := ⟨"Move", by simp, by simp [isBlank]⟩
      args := [⟨space, by simp [space], ⟨"[t:", by simp, by simp [isBlank]⟩⟩,
        ⟨⟨['\t'], by simp [isBlank]⟩, by simp, ⟨"(a]", by simp, by simp [isBlank]⟩⟩]
      closing := space
      bracket := some ⟨space, space, "2e0".toList, space, 2, by decide, ⟨by decide, by decide⟩⟩
      trailing := ⟨[], by simp⟩ }
  have hText : String.ofList s.chars = " +1.5 : ( Move [t:\t(a] ) [ 2e0 ]" := by decide
  have h := (Plan.readLine_of_shape s (by decide)).2 (.ok (.explicit 1.5))
    (.offset (by decide) (by decide))
  rw [← hText, h]
  decide

end PlanReplay
