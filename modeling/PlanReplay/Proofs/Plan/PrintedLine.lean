import PlanReplay.Proofs.Decimal.Thousandths
import PlanReplay.Proofs.Plan.Shape

/-!
# Printed lines

The line of an action is read again as the action, with the times that its decimals stand for. The line of a pause
says nothing: it has no parenthesis.

* `IsPlanWord` — the names and arguments that lines give.
* `TimedAction.printed` — what the printed line of an action says.
* `parse_text`, `parse_text_of_wait` — the line of an action and that of a pause are read as what they say.
* `lines_render` — a printed plan has one line for each action.
-/

namespace PlanReplay

open Decimal Text

-- ---------------------------------------------------------------------------
-- Numbers
-- ---------------------------------------------------------------------------

/-- The characters of which numbers are written. -/
def isNumeric (c : Char) : Bool := c.isDigit || ['.', '-', 'i', 'n', 'f', 'N', 'a'].contains c

theorem isNumeric_of_isDigit {c : Char} (h : c.isDigit = true) : isNumeric c = true := by
  rw [isNumeric, h, Bool.true_or]

theorem isBlank_of_isNumeric {c : Char} (h : isNumeric c = true) : isBlank c = false := by
  rw [isNumeric, Bool.or_eq_true] at h
  rcases h with hDigit | hOther
  · exact isBlank_of_isDigit hDigit
  · have hAll : ['.', '-', 'i', 'n', 'f', 'N', 'a'].all (fun d => !isBlank d) = true := rfl
    simpa using List.all_eq_true.mp hAll c (List.contains_iff_mem.mp hOther)

/-- A number is written of its characters, and of some of them. -/
theorem fixedText_numeric {places : Nat} (hPlaces : 0 < places) (x : Float) :
    (fixedText places x).toList ≠ [] ∧ ∀ c ∈ (fixedText places x).toList, isNumeric c = true := by
  have hWord : ∀ cs : List Char, cs.all isNumeric = true → ∀ c ∈ cs, isNumeric c = true :=
    fun cs => List.all_eq_true.mp
  have hSign : ∀ negative, ∀ c ∈ signChars negative, isNumeric c = true := by
    intro negative
    cases negative <;> exact hWord _ rfl
  unfold fixedText
  cases ofFloat x with
  | nan =>
    change "NaN".toList ≠ [] ∧ ∀ c ∈ "NaN".toList, isNumeric c = true
    exact ⟨by simp, hWord _ rfl⟩
  | infinite negative =>
    change (String.ofList (signChars negative ++ ['i', 'n', 'f'])).toList ≠ [] ∧
      ∀ c ∈ (String.ofList (signChars negative ++ ['i', 'n', 'f'])).toList, isNumeric c = true
    rw [String.toList_ofList, List.forall_mem_append]
    exact ⟨by simp, hSign negative, hWord _ rfl⟩
  | finite negative mantissa exponent edge =>
    unfold Value.fixed
    dsimp only
    obtain ⟨whole, fraction, hText, -, -, hDigits, -⟩ := withPoint_eq hPlaces
      (roundHalfEven (mantissa * twoTo exponent.toNat * tenTo places) (twoTo (-exponent).toNat))
    rw [List.forall_mem_append] at hDigits
    rw [String.toList_ofList, hText, List.forall_mem_append, List.forall_mem_append, List.forall_mem_cons]
    exact ⟨by simp, hSign negative, fun c hc => isNumeric_of_isDigit (hDigits.1 c hc), rfl,
      fun c hc => isNumeric_of_isDigit (hDigits.2 c hc)⟩

/-- A character that no number has is not in one. -/
theorem not_mem_fixedText {c : Char} (h : isNumeric c = false) {places : Nat} (hPlaces : 0 < places) (x : Float) :
    c ∉ (fixedText places x).toList := fun hc =>
  Bool.false_ne_true (h ▸ (fixedText_numeric hPlaces x).2 c hc)

-- ---------------------------------------------------------------------------
-- Words
-- ---------------------------------------------------------------------------

/-- A name as lines give it: a word in lower case, without a closing parenthesis. -/
structure IsPlanWord (word : String) : Prop where
  filled : word.toList ≠ []
  whole : ∀ c ∈ word.toList, isBlank c = false ∧ c ≠ ')'
  lowered : lowerChars word.toList = word.toList

theorem IsPlanWord.lower_eq {word : String} (h : IsPlanWord word) : lower word = word := by
  rw [lower, h.lowered, String.ofList_toList]

theorem IsPlanWord.ofName_eq {word : String} (h : IsPlanWord word) : EntityId.ofName word = ⟨word⟩ := by
  have hTrimmed : trimChars word.toList = word.toList := trimChars_of_whole fun c hc => (h.whole c hc).1
  rw [EntityId.ofName, trim, hTrimmed, String.ofList_toList, h.lower_eq]

/-- A word before a closing parenthesis, in lower case. -/
theorem isPlanWord_lower {cs word : List Char} (hClosing : ')' ∉ cs) (hWord : word ∈ wordChars cs) :
    IsPlanWord (lower (String.ofList word)) := by
  obtain ⟨hFilled, hWhole⟩ := mem_words hWord
  have hText : (lower (String.ofList word)).toList = lowerChars word := by
    rw [lower, String.toList_ofList, String.toList_ofList]
  refine ⟨?_, ?_, ?_⟩
  · rw [hText]
    exact fun hNone => hFilled (List.map_eq_nil_iff.mp hNone)
  · rw [hText]
    intro c hc
    obtain ⟨d, hd, rfl⟩ := List.mem_map.mp hc
    rw [isBlank_lowerChar]
    refine ⟨hWhole d hd, fun hSame => hClosing ?_⟩
    rw [← eq_of_lowerChar (by decide) hSame]
    exact mem_of_mem_wordChars hWord d hd
  · rw [hText, lowerChars_lowerChars]

/-- The words before a closing parenthesis make a name and arguments. -/
theorem isPlanWord_of_words {cs : List Char} (hClosing : ')' ∉ cs) {word : String}
    (h : word ∈ Text.words (String.ofList cs)) : IsPlanWord (lower word) ∧ IsPlanWord (EntityId.ofName word).text := by
  rw [Text.words, String.toList_ofList] at h
  obtain ⟨chars, hChars, rfl⟩ := List.mem_map.mp h
  have hLowered := isPlanWord_lower hClosing hChars
  refine ⟨hLowered, ?_⟩
  have hTrimmed : trimChars chars = chars := trimChars_of_whole (mem_words hChars).2
  rw [EntityId.ofName, trim, String.toList_ofList, hTrimmed]
  exact hLowered

theorem isPlanWord_wait : IsPlanWord "wait" := by
  refine ⟨by simp, ?_, rfl⟩
  have hAll : ("wait".toList.all fun c => !isBlank c && c != ')') = true := rfl
  intro c hc
  simpa using List.all_eq_true.mp hAll c hc

/-- The words of an action: its name and its arguments. -/
def TimedAction.words {α : Type} (a : TimedAction α) : List String := a.name :: a.args.map EntityId.text

-- ---------------------------------------------------------------------------
-- Lines
-- ---------------------------------------------------------------------------

/-- An action whose line can be read again. -/
structure TimedAction.Legible (a : TimedAction Float) : Prop where
  start : a.start.isFinite = true
  duration : a.duration.isFinite = true
  words : ∀ word ∈ a.words, IsPlanWord word
  unmarked : ∀ word ∈ a.words, ¬ PlanLine.waitingMarker <:+: word.toList

/-- What the printed line of an action says. -/
def TimedAction.printed (a : TimedAction Float) : PlanLine :=
  if a.isWait then .other
  else .action ⟨true, .explicit (reread a.start), if 0 < a.duration then some (reread a.duration) else none,
    a.name, a.args⟩

theorem printed_of_wait {a : TimedAction Float} (h : a.isWait = true) : a.printed = .other := if_pos h

theorem printed_of_not_wait {a : TimedAction Float} (h : a.isWait = false) :
    a.printed = .action ⟨true, .explicit (reread a.start), if 0 < a.duration then some (reread a.duration) else none,
      a.name, a.args⟩ :=
  if_neg (Bool.eq_false_iff.mp h)

/-- The brackets after an action. -/
def TimedAction.bracket (a : TimedAction Float) : List Char :=
  if 0 < a.duration then ' ' :: '[' :: ((fixedText 3 a.duration).toList ++ [']']) else []

variable {a : TimedAction Float}

theorem toList_text_of_wait (h : a.isWait = true) :
    a.text.toList = (fixedText 3 a.start).toList ++ (':' :: ' ' :: "wait".toList ++
      ' ' :: (fixedText 3 a.duration).toList) := by
  unfold TimedAction.text
  rw [if_pos h, String.toList_append, String.toList_append, List.append_assoc]
  rfl

theorem toList_text (h : a.isWait = false) :
    a.text.toList = (fixedText 3 a.start).toList ++ ([':', ' ', '('] ++
      ([' '].intercalate (a.words.map String.toList) ++ ')' :: a.bracket)) := by
  unfold TimedAction.text TimedAction.bracket
  rw [if_neg (Bool.eq_false_iff.mp h)]
  split
  · simp only [String.toList_append, String.toList_intercalate, List.append_assoc]
    rfl
  · simp only [String.toList_append, String.toList_intercalate, List.append_assoc]
    rfl

/-- The words of a line hold no marker, and so do its numbers. -/
theorem unmarked_words {words : List String} (h : ∀ word ∈ words, ¬ PlanLine.waitingMarker <:+: word.toList) :
    ¬ PlanLine.waitingMarker <:+: [' '].intercalate (words.map String.toList) := by
  induction words with
  | nil => exact fun hInfix => absurd (List.infix_nil.mp hInfix) (by decide)
  | cons word rest ih =>
    rw [List.forall_mem_cons] at h
    cases rest with
    | nil =>
      rw [List.map_singleton, List.intercalate_singleton]
      exact h.1
    | cons next rest =>
      rw [List.map_cons, List.map_cons, List.intercalate_cons_cons, List.append_assoc, List.singleton_append]
      exact not_infix_append_cons (by decide) h.1 (ih h.2)

theorem unmarked_fixedText (x : Float) : ¬ PlanLine.waitingMarker <:+: (fixedText 3 x).toList :=
  not_infix_of_not_mem (c := 'g') (by decide) (not_mem_fixedText (by decide) (by decide) x)

theorem numeric_fixedText (x : Float) :
    (fixedText 3 x).toList ≠ [] ∧ ∀ c ∈ (fixedText 3 x).toList, isBlank c = false := by
  obtain ⟨hFilled, hNumeric⟩ := fixedText_numeric (show 0 < 3 by decide) x
  exact ⟨hFilled, fun c hc => isBlank_of_isNumeric (hNumeric c hc)⟩

theorem trimChars_fixedText (x : Float) : trimChars (fixedText 3 x).toList = (fixedText 3 x).toList :=
  trimChars_of_whole (numeric_fixedText x).2

theorem whole_singleton {c : Char} (h : isBlank c = false) : [c] ≠ [] ∧ ∀ d ∈ [c], isBlank d = false :=
  ⟨List.cons_ne_nil _ _, by simpa using h⟩

/-- A printed line has no blanks at its ends. -/
theorem trimChars_text (a : TimedAction Float) : trimChars a.text.toList = a.text.toList := by
  cases h : a.isWait with
  | true =>
    have hLast := trimChars_between (numeric_fixedText a.start) (':' :: ' ' :: "wait".toList ++ [' '])
      (numeric_fixedText a.duration)
    rw [toList_text_of_wait h]
    simpa only [List.append_assoc, List.singleton_append] using hLast
  | false =>
    rw [toList_text h]
    unfold TimedAction.bracket
    split
    · have hLast := trimChars_between (numeric_fixedText a.start) ([':', ' ', '('] ++
        ([' '].intercalate (a.words.map String.toList) ++ ')' :: ' ' :: '[' :: (fixedText 3 a.duration).toList))
        (whole_singleton (c := ']') rfl)
      simpa only [List.append_assoc, List.cons_append] using hLast
    · have hLast := trimChars_between (numeric_fixedText a.start) ([':', ' ', '('] ++
        [' '].intercalate (a.words.map String.toList)) (whole_singleton (c := ')') rfl)
      simpa only [List.append_assoc] using hLast

/-- A printed line holds no marker, if none of its words does. -/
theorem unmarked_text (h : a.isWait = true ∨ ∀ word ∈ a.words, ¬ PlanLine.waitingMarker <:+: word.toList) :
    ¬ PlanLine.waitingMarker <:+: a.text.toList := by
  cases hWait : a.isWait with
  | true =>
    rw [toList_text_of_wait hWait]
    refine not_infix_append_cons (by decide) (unmarked_fixedText _) ?_
    refine not_infix_cons (by decide) (by decide) ?_
    exact not_infix_append_cons (by decide) (by decide) (unmarked_fixedText _)
  | false =>
    have hWords := unmarked_words (h.resolve_left (Bool.eq_false_iff.mp hWait))
    have hBracket : ¬ PlanLine.waitingMarker <:+: a.bracket := by
      unfold TimedAction.bracket
      split
      · refine not_infix_cons (by decide) (by decide) ?_
        refine not_infix_cons (by decide) (by decide) ?_
        exact not_infix_append_cons (by decide) (unmarked_fixedText _) (by decide)
      · decide
    rw [toList_text hWait]
    refine not_infix_append_cons (by decide) (unmarked_fixedText _) ?_
    refine not_infix_cons (by decide) (by decide) ?_
    refine not_infix_cons (by decide) (by decide) ?_
    exact not_infix_append_cons (by decide) hWords hBracket

-- ---------------------------------------------------------------------------
-- Reading
-- ---------------------------------------------------------------------------

/-- The parts of a line that begins with a number. -/
theorem splitAction?_of_numeric {before : List Char} (h : before ≠ [] ∧ ∀ c ∈ before, isNumeric c = true)
    (body : List Char) : PlanLine.splitAction? (before ++ ([':', ' ', '('] ++ body)) = some (some before, body) := by
  have hColon : ':' ∉ before := fun hc => Bool.false_ne_true (h.2 ':' hc)
  have hTrimmed : trimChars before = before := trimChars_of_whole fun c hc => isBlank_of_isNumeric (h.2 c hc)
  have hSplit := splitAtFirst_append hColon [' ', '('] body
  obtain ⟨c, later, rfl⟩ := List.exists_cons_of_ne_nil h.1
  unfold PlanLine.splitAction?
  split
  · rename_i hOpening
    have hFirst : c = '(' := (List.cons.inj hOpening).1
    exact absurd (h.2 '(' (hFirst ▸ List.mem_cons_self)) (by decide)
  · rw [hSplit, Option.map_some]
    exact congrArg (fun time => some (some time, body)) hTrimmed

/-- Brackets that are printed hold the duration. -/
theorem parseDuration?_bracket (h : a.duration.isFinite = true) :
    PlanLine.parseDuration? (trimChars a.bracket) =
      some (.ok (if 0 < a.duration then some (reread a.duration) else none)) := by
  unfold TimedAction.bracket
  split
  · rename_i hPos
    obtain ⟨hRead, hFinite⟩ := readFloatChars_fixedText h
    have hTrimmed : trimChars (' ' :: '[' :: ((fixedText 3 a.duration).toList ++ [']'])) =
        '[' :: ((fixedText 3 a.duration).toList ++ [']']) :=
      trimChars_between (whole_singleton (c := '[') rfl) _ (whole_singleton (c := ']') rfl)
    have hInside : PlanLine.bracketChars? ('[' :: ((fixedText 3 a.duration).toList ++ [']'])) =
        some (fixedText 3 a.duration).toList := by
      rw [bracketChars?_eq (not_mem_fixedText rfl (show 0 < 3 by decide) a.duration), trimChars_fixedText]
    have hNumber : PlanLine.bracketNumber? (fun value => value.isFinite && 0 ≤ value)
        ('[' :: ((fixedText 3 a.duration).toList ++ [']'])) = some (reread a.duration) := by
      unfold PlanLine.bracketNumber?
      rw [hInside, Option.bind_some, hRead, Option.filter_eq_some_iff]
      refine ⟨rfl, ?_⟩
      rw [Bool.and_eq_true, decide_eq_true_iff]
      exact ⟨hFinite, zero_le_reread h hPos⟩
    rw [hTrimmed]
    unfold PlanLine.parseDuration?
    rw [hNumber]
    rfl
  · rfl

/-- A printed start is read as an offset. -/
theorem parseTime_fixedText {x : Float} (h : x.isFinite = true) :
    PlanLine.parseTime (fixedText 3 x).toList = .ok (.explicit (reread x)) := by
  obtain ⟨hRead, hFinite⟩ := readFloatChars_fixedText h
  rw [parseTime_eq, hRead]
  exact if_pos hFinite

/-- The words of an action, joined by spaces, are found again. -/
theorem words_intercalate {words : List String} (h : ∀ word ∈ words, IsPlanWord word) :
    Text.words (String.ofList ([' '].intercalate (words.map String.toList))) = words := by
  have hWords : ∀ word ∈ words.map String.toList, word ≠ [] ∧ ∀ c ∈ word, isBlank c = false := by
    rw [List.forall_mem_map]
    exact fun word hWord => ⟨(h word hWord).filled, fun c hc => ((h word hWord).whole c hc).1⟩
  rw [Text.words, String.toList_ofList, wordChars_intercalate hWords, List.map_map]
  exact (List.map_congr_left fun word _ => String.ofList_toList).trans (List.map_id words)

theorem closing_not_mem_words {words : List String} (h : ∀ word ∈ words, IsPlanWord word) :
    ')' ∉ [' '].intercalate (words.map String.toList) := by
  have hNone : ∀ c ∈ [' '].intercalate (words.map String.toList), c ≠ ')' := by
    refine forall_mem_intercalate (by simp) ?_
    rw [List.forall_mem_map]
    exact fun word hWord c hc => ((h word hWord).whole c hc).2
  exact fun hClosing => hNone _ hClosing rfl

/-- **The line of an action is read as this action.** -/
theorem parse_text (h : a.isWait = false) (hLegible : a.Legible) : PlanLine.parse a.text.toList = .ok a.printed := by
  have hMarker := splitAtFirst_eq_none_iff.mpr (unmarked_text (Or.inr hLegible.unmarked))
  have hSplit := splitAction?_of_numeric (fixedText_numeric (show 0 < 3 by decide) a.start)
    ([' '].intercalate (a.words.map String.toList) ++ ')' :: a.bracket)
  have hClose : splitAtFirst [')'] ([' '].intercalate (a.words.map String.toList) ++ ')' :: a.bracket) =
      some ([' '].intercalate (a.words.map String.toList), a.bracket) :=
    splitAtFirst_append (closing_not_mem_words hLegible.words) [] a.bracket
  have hArgs : (a.args.map EntityId.text).map EntityId.ofName = a.args := by
    rw [List.map_map]
    refine (List.map_congr_left fun arg hArg => ?_).trans (List.map_id a.args)
    exact (hLegible.words _ (List.mem_cons_of_mem _ (List.mem_map_of_mem hArg))).ofName_eq
  unfold PlanLine.parse
  rw [hMarker]
  dsimp only
  rw [toList_text h]
  unfold PlanLine.parseAction
  rw [hSplit]
  dsimp only
  rw [hClose]
  dsimp only
  rw [words_intercalate hLegible.words, parseDuration?_bracket hLegible.duration]
  unfold TimedAction.words
  dsimp only
  rw [parseTime_fixedText hLegible.start, hArgs, (hLegible.words _ List.mem_cons_self).lower_eq,
    printed_of_not_wait h]

/-- **The line of a pause says nothing**: nothing in it is in parentheses. -/
theorem parse_text_of_wait (h : a.isWait = true) : PlanLine.parse a.text.toList = .ok a.printed := by
  have hMarker := splitAtFirst_eq_none_iff.mpr (unmarked_text (Or.inl h))
  have hOpening : '(' ∉ a.text.toList := by
    have hStart := not_mem_fixedText (c := '(') rfl (show 0 < 3 by decide) a.start
    have hDuration := not_mem_fixedText (c := '(') rfl (show 0 < 3 by decide) a.duration
    rw [toList_text_of_wait h]
    simp [hStart, hDuration]
  have hSplit : PlanLine.splitAction? a.text.toList = none := by
    unfold PlanLine.splitAction?
    split
    · rename_i hText
      rw [hText] at hOpening
      exact absurd List.mem_cons_self hOpening
    · rw [splitAtFirst_eq_none_iff.mpr (not_infix_of_not_mem (c := '(') (by decide) hOpening), Option.map_none]
  unfold PlanLine.parse
  rw [hMarker]
  dsimp only
  unfold PlanLine.parseAction
  rw [hSplit]
  rw [printed_of_wait h]

/-- What is printed is read again. -/
theorem readLine_text (h : a.isWait = true ∨ a.Legible) : Plan.readLine a.text = (a.text, .ok a.printed) := by
  have hTrimmed : trim a.text = a.text := by rw [trim, trimChars_text, String.ofList_toList]
  have hParsed : PlanLine.parse a.text.toList = .ok a.printed := by
    cases hWait : a.isWait with
    | true => exact parse_text_of_wait hWait
    | false => exact parse_text hWait (h.resolve_left (Bool.eq_false_iff.mp hWait))
  unfold Plan.readLine
  dsimp only
  rw [hTrimmed, hParsed]

/-- The only blanks of a printed line are spaces, and so it is one line. -/
theorem space_of_mem_text (h : a.isWait = true ∨ a.Legible) : ∀ c ∈ a.text.toList, isBlank c = true → c = ' ' := by
  have hPlain : ∀ cs : List Char, (cs.all fun c => !isBlank c || c == ' ') = true →
      ∀ c ∈ cs, isBlank c = true → c = ' ' := by
    intro cs hAll c hc hBlank
    have hThis := List.all_eq_true.mp hAll c hc
    rw [hBlank] at hThis
    exact eq_of_beq hThis
  have hNumber : ∀ x, ∀ c ∈ (fixedText 3 x).toList, isBlank c = true → c = ' ' := by
    intro x c hc hBlank
    exact absurd (hBlank.symm.trans ((numeric_fixedText x).2 c hc)) (by decide)
  cases hWait : a.isWait with
  | true =>
    rw [toList_text_of_wait hWait]
    refine List.forall_mem_append.mpr ⟨hNumber _, List.forall_mem_append.mpr ⟨hPlain _ rfl, ?_⟩⟩
    exact List.forall_mem_cons.mpr ⟨fun _ => rfl, hNumber _⟩
  | false =>
    have hLegible := h.resolve_left (Bool.eq_false_iff.mp hWait)
    have hWords : ∀ c ∈ [' '].intercalate (a.words.map String.toList), isBlank c = true → c = ' ' := by
      refine forall_mem_intercalate (hPlain _ rfl) ?_
      rw [List.forall_mem_map]
      intro word hWord c hc hBlank
      exact absurd (hBlank.symm.trans ((hLegible.words word hWord).whole c hc).1) (by decide)
    have hBracket : ∀ c ∈ a.bracket, isBlank c = true → c = ' ' := by
      unfold TimedAction.bracket
      split
      · refine List.forall_mem_cons.mpr ⟨fun _ => rfl, List.forall_mem_cons.mpr ⟨nofun, ?_⟩⟩
        exact List.forall_mem_append.mpr ⟨hNumber _, hPlain _ rfl⟩
      · exact nofun
    rw [toList_text hWait]
    refine List.forall_mem_append.mpr ⟨hNumber _, List.forall_mem_append.mpr ⟨hPlain _ rfl, ?_⟩⟩
    exact List.forall_mem_append.mpr ⟨hWords, List.forall_mem_cons.mpr ⟨nofun, hBracket⟩⟩

/-- **The lines of a printed plan** are those of its actions. -/
theorem lines_render {p : Plan Float} (h : ∀ a ∈ p.actions, a.isWait = true ∨ a.Legible) :
    Text.lines p.render = p.actions.map TimedAction.text := by
  have hText : p.render.toList = (p.actions.map fun a => a.text.toList).flatMap (· ++ ['\n']) := by
    unfold Plan.render
    rw [String.toList_join, List.flatMap_map, List.flatMap_map]
    exact List.flatMap_congr fun a _ => String.toList_append
  have hLines : ∀ line ∈ p.actions.map fun a => a.text.toList, '\n' ∉ line ∧ '\r' ∉ line := by
    rw [List.forall_mem_map]
    intro a ha
    have hSpace := space_of_mem_text (h a ha)
    exact ⟨fun hFeed => absurd (hSpace _ hFeed rfl) (by decide), fun hReturn => absurd (hSpace _ hReturn rfl) (by decide)⟩
  rw [Text.lines, hText, lineChars_flatMap hLines, List.map_map]
  exact List.map_congr_left fun a _ => String.ofList_toList

end PlanReplay
