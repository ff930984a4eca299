import Mathlib.Data.List.Basic
import PlanReplay.Text.Blank

/-!
# Symbolic expressions

A text is cut into tokens at blanks and parentheses, and the tokens are read as expressions: atoms, and lists of
expressions in parentheses. A reader keeps the lists that are not closed yet; it accepts a text that is one
expression from end to end.

* `Spells` — a text that contributes given tokens, whatever follows it. Spelled texts can be put one after the
  other, so the tokens of a long text are found piece by piece.
* `Expression.read?_eq_some_iff` — a text is read as an expression iff its tokens are those of the expression.
* `Expression.not_ends_with` — no expression ends with a whole other one.
* `Expression.count_of_read?` — in a text that is read, as many parentheses close as open.
-/

namespace PlanReplay.Text

-- ---------------------------------------------------------------------------
-- Tokens
-- ---------------------------------------------------------------------------

/-- A parenthesis, or a word between separators. -/
inductive Token where
  | opening
  | closing
  | word (text : String)
deriving DecidableEq

/-- Blanks and parentheses end a word. -/
def isSeparator (c : Char) : Bool := isBlank c || c == '(' || c == ')'

/-- A parenthesis is a token, a blank is none. -/
def separatorTokens (c : Char) : List Token :=
  if c = '(' then [.opening] else if c = ')' then [.closing] else []

/-- The characters since the last separator, as a word if there are any. -/
def wordTokens (word : List Char) : List Token := if word.isEmpty then [] else [.word (String.ofList word)]

/-- The tokens of a text that goes on after the beginning of a word. -/
def tokensFrom (word : List Char) : List Char → List Token
  | [] => wordTokens word
  | c :: rest =>
    if isSeparator c then wordTokens word ++ separatorTokens c ++ tokensFrom [] rest
    else tokensFrom (word ++ [c]) rest

/-- The tokens of a text. -/
def tokens (text : String) : List Token := tokensFrom [] text.toList

/-- Characters that do not separate go on with the word. -/
theorem tokensFrom_append {more : List Char} (h : ∀ c ∈ more, isSeparator c = false) (rest : List Char) :
    ∀ word, tokensFrom word (more ++ rest) = tokensFrom (word ++ more) rest := by
  induction more with
  | nil => simp
  | cons c more ih =>
    intro word
    have hc : isSeparator c = false := h c (by simp)
    have hMore : ∀ d ∈ more, isSeparator d = false := fun d hd => h d (by simp [hd])
    simp only [List.cons_append, tokensFrom, hc, Bool.false_eq_true, if_false]
    rw [ih hMore, List.append_assoc, List.singleton_append]

/-- A separator ends the word before it. -/
theorem tokensFrom_separator {c : Char} (h : isSeparator c = true) (word rest : List Char) :
    tokensFrom word (c :: rest) = wordTokens word ++ tokensFrom [] (c :: rest) := by
  simp [tokensFrom, h, wordTokens]

/-- What begins with a separator contributes its own tokens, whatever stands before it. -/
theorem tokensFrom_append_separator {c : Char} (h : isSeparator c = true) (rest cs : List Char) :
    ∀ word, tokensFrom word (cs ++ c :: rest) = tokensFrom word cs ++ tokensFrom [] (c :: rest) := by
  induction cs with
  | nil => exact fun word => tokensFrom_separator h word rest
  | cons d more ih =>
    intro word
    rw [List.cons_append, tokensFrom, tokensFrom, ih, ih]
    split
    · simp only [List.append_assoc]
    · rfl

/-- Only blanks have no tokens. -/
theorem isBlank_of_tokensFrom {cs : List Char} :
    ∀ {word : List Char}, tokensFrom word cs = [] → word = [] ∧ ∀ c ∈ cs, isBlank c = true := by
  have hWord : ∀ {word : List Char}, wordTokens word = [] → word = [] := by
    intro word h
    unfold wordTokens at h
    split at h
    · exact List.isEmpty_iff.mp ‹_›
    · cases h
  induction cs with
  | nil => exact fun h => ⟨hWord h, nofun⟩
  | cons c rest ih =>
    intro word h
    rw [tokensFrom] at h
    split at h
    · rename_i hSeparator
      rw [List.append_eq_nil_iff, List.append_eq_nil_iff] at h
      obtain ⟨⟨hEmpty, hNone⟩, hRest⟩ := h
      refine ⟨hWord hEmpty, List.forall_mem_cons.mpr ⟨?_, (ih hRest).2⟩⟩
      -- a separator that is no token is no parenthesis
      unfold separatorTokens at hNone
      by_contra hFilled
      simp only [isSeparator, Bool.or_eq_true, hFilled, false_or, beq_iff_eq] at hSeparator
      rcases hSeparator with rfl | rfl
      · cases hNone
      · cases hNone
    · exact absurd (ih h).1 (by simp)

-- ---------------------------------------------------------------------------
-- Spelling
-- ---------------------------------------------------------------------------

/-- A text that can stand as one word: it is not empty, and nothing in it separates. -/
structure IsWord (text : String) : Prop where
  filled : text ≠ ""
  whole : ∀ c ∈ text.toList, isSeparator c = false

/-- A text whose first character ends a word. -/
def EndsWord (text : String) : Prop := ∃ c rest, text.toList = c :: rest ∧ isSeparator c = true

theorem EndsWord.append {a : String} (h : EndsWord a) (b : String) : EndsWord (a ++ b) := by
  obtain ⟨c, rest, hText, hc⟩ := h
  exact ⟨c, rest ++ b.toList, by simp [hText], hc⟩

/-- A text that contributes the given tokens, whatever follows it. So it does not end within a word. -/
def Spells (text : String) (ts : List Token) : Prop :=
  ∀ rest, tokensFrom [] (text.toList ++ rest) = ts ++ tokensFrom [] rest

theorem Spells.tokens_eq {text : String} {ts : List Token} (h : Spells text ts) : tokens text = ts := by
  have hEnd := h []
  simpa [tokens, tokensFrom, wordTokens] using hEnd

/-- Spelled texts can be put one after the other. -/
theorem Spells.append {a b : String} {ts us : List Token} (ha : Spells a ts) (hb : Spells b us) :
    Spells (a ++ b) (ts ++ us) := by
  intro rest
  rw [String.toList_append, List.append_assoc, ha, hb, List.append_assoc]

/-- A word, and a spelled text that ends it. -/
theorem Spells.word {word text : String} {ts : List Token} (hWord : IsWord word) (hEnds : EndsWord text)
    (h : Spells text ts) : Spells (word ++ text) (.word word :: ts) := by
  intro rest
  obtain ⟨c, more, hText, hc⟩ := hEnds
  have hTokens : wordTokens word.toList = [.word word] := by
    have : word.toList ≠ [] := by simpa using hWord.filled
    simp [wordTokens, this]
  rw [String.toList_append, List.append_assoc, tokensFrom_append hWord.whole, List.nil_append]
  have hRest := h rest
  rw [hText, List.cons_append] at hRest ⊢
  rw [tokensFrom_separator hc, hRest, hTokens]
  rfl

/-- Words with a blank between any two, and a spelled text that ends the last one. -/
theorem Spells.words {text : String} {ts : List Token} (hEnds : EndsWord text) (h : Spells text ts) :
    ∀ {list : List String}, (∀ word ∈ list, IsWord word) →
      Spells (" ".intercalate list ++ text) (list.map .word ++ ts) := by
  have hSpace : EndsWord " " := ⟨' ', [], rfl, rfl⟩
  have hBlank : Spells " " [] := fun _ => rfl
  intro list hWords
  induction list with
  | nil => simpa using h
  | cons first rest ih =>
    have hFirst : IsWord first := hWords first (by simp)
    have hRest := ih fun word hWord => hWords word (by simp [hWord])
    cases rest with
    | nil => simpa using Spells.word hFirst hEnds h
    | cons second rest =>
      have hText : " ".intercalate (first :: second :: rest) ++ text =
          first ++ (" " ++ (" ".intercalate (second :: rest) ++ text)) := by
        simp [← String.toList_inj]
      rw [hText]
      refine Spells.word hFirst (hSpace.append _) ?_
      exact hBlank.append hRest

/-- Spelled texts, joined. -/
theorem Spells.join {α : Type} {text : α → String} {ts : α → List Token} :
    ∀ {list : List α}, (∀ a ∈ list, Spells (text a) (ts a)) →
      Spells (String.join (list.map text)) (list.flatMap ts) := by
  intro list h
  induction list with
  | nil => exact fun _ => rfl
  | cons a rest ih =>
    have hText : String.join ((a :: rest).map text) = text a ++ String.join (rest.map text) := by
      simp
    rw [hText]
    exact (h a (by simp)).append (ih fun b hb => h b (by simp [hb]))

-- ---------------------------------------------------------------------------
-- Expressions
-- ---------------------------------------------------------------------------

/-- An atom, or a list of expressions. -/
inductive Expression where
  | atom (text : String)
  | list (items : List Expression)

namespace Expression

mutual

/-- Equality is decided along the structure of the expressions. -/
def decEq : (a b : Expression) → Decidable (a = b)
  | .atom s, .atom t => decidable_of_iff (s = t) (by simp)
  | .list as, .list bs =>
    have := decEqItems as bs
    decidable_of_iff (as = bs) (by simp)
  | .atom _, .list _ | .list _, .atom _ => .isFalse (by simp)

def decEqItems : (as bs : List Expression) → Decidable (as = bs)
  | [], [] => .isTrue rfl
  | a :: as, b :: bs =>
    have := decEq a b
    have := decEqItems as bs
    decidable_of_iff (a = b ∧ as = bs) (by simp)
  | [], _ :: _ | _ :: _, [] => .isFalse (by simp)

end

instance : DecidableEq Expression := decEq

mutual

/-- The tokens of an expression. -/
def tokens : Expression → List Token
  | .atom text => [.word text]
  | .list items => .opening :: (tokensOfItems items ++ [.closing])

/-- The tokens of expressions, one after the other. -/
def tokensOfItems : List Expression → List Token
  | [] => []
  | item :: rest => tokens item ++ tokensOfItems rest

end

theorem tokensOfItems_eq (items : List Expression) : tokensOfItems items = items.flatMap tokens := by
  induction items with
  | nil => rfl
  | cons item rest ih => rw [tokensOfItems, ih, List.flatMap_cons]

/-- The lists that are being read, the innermost first, after one more token. The outermost list holds what is
read outside of parentheses; it is never closed. -/
def readToken : Token → List (List Expression) → Option (List (List Expression))
  | .word text, items :: outer => some ((items ++ [.atom text]) :: outer)
  | .opening, lists => some ([] :: lists)
  | .closing, items :: parent :: outer => some ((parent ++ [.list items]) :: outer)
  | _, _ => none

/-- The lists that are being read after more tokens. -/
def readTokens : List Token → List (List Expression) → Option (List (List Expression))
  | [], lists => some lists
  | token :: rest, lists => (readToken token lists).bind (readTokens rest)

/-- The expression that a text is, from end to end. -/
def read? (text : String) : Option Expression :=
  match readTokens (Text.tokens text) [[]] with
  | some [[expression]] => some expression
  | _ => none

mutual

/-- The tokens of an expression are read as that expression, and nothing else happens to the lists. -/
theorem readTokens_tokens (expression : Expression) (rest : List Token) (items : List Expression)
    (outer : List (List Expression)) :
    readTokens (expression.tokens ++ rest) (items :: outer) = readTokens rest ((items ++ [expression]) :: outer) := by
  cases expression with
  | atom text => rfl
  | list inner =>
    have hInner := readTokens_tokensOfItems inner (.closing :: rest) [] (items :: outer)
    simp only [tokens, List.cons_append, List.append_assoc, List.nil_append, readTokens, readToken,
      Option.bind_some] at hInner ⊢
    rw [hInner]

theorem readTokens_tokensOfItems (inner : List Expression) (rest : List Token) (items : List Expression)
    (outer : List (List Expression)) :
    readTokens (tokensOfItems inner ++ rest) (items :: outer) = readTokens rest ((items ++ inner) :: outer) := by
  cases inner with
  | nil => simp [tokensOfItems]
  | cons first more =>
    rw [tokensOfItems, List.append_assoc, readTokens_tokens, readTokens_tokensOfItems, List.append_assoc]
    rfl

end

/-- The tokens that lists which are being read have been read from. -/
def tokensOfLists : List (List Expression) → List Token
  | [] => []
  | [items] => tokensOfItems items
  | items :: outer => tokensOfLists outer ++ .opening :: tokensOfItems items

theorem tokensOfItems_append (first second : List Expression) :
    tokensOfItems (first ++ second) = tokensOfItems first ++ tokensOfItems second := by
  simp [tokensOfItems_eq]

/-- One more token is one more token of what has been read. -/
theorem tokensOfLists_readToken {token : Token} {lists next : List (List Expression)} (hOpen : lists ≠ [])
    (h : readToken token lists = some next) :
    next ≠ [] ∧ tokensOfLists next = tokensOfLists lists ++ [token] := by
  cases token with
  | opening =>
    obtain ⟨items, outer, rfl⟩ := List.exists_cons_of_ne_nil hOpen
    simp only [readToken, Option.some.injEq] at h
    subst h
    simp [tokensOfLists, tokensOfItems]
  | closing =>
    match lists, h with
    | items :: parent :: outer, h =>
      simp only [readToken, Option.some.injEq] at h
      subst h
      cases outer <;> simp [tokensOfLists, tokensOfItems_append, tokensOfItems, tokens]
  | word text =>
    match lists, h with
    | items :: outer, h =>
      simp only [readToken, Option.some.injEq] at h
      subst h
      cases outer <;> simp [tokensOfLists, tokensOfItems_append, tokensOfItems, tokens]

theorem tokensOfLists_readTokens {ts : List Token} :
    ∀ {lists final : List (List Expression)}, lists ≠ [] → readTokens ts lists = some final →
      tokensOfLists final = tokensOfLists lists ++ ts := by
  induction ts with
  | nil =>
    intro lists final _ h
    simp only [readTokens, Option.some.injEq] at h
    simp [h]
  | cons token rest ih =>
    intro lists final hOpen h
    obtain ⟨next, hNext, hRest⟩ := Option.bind_eq_some_iff.mp h
    obtain ⟨hOpen', hTokens⟩ := tokensOfLists_readToken hOpen hNext
    rw [ih hOpen' hRest, hTokens, List.append_assoc, List.singleton_append]

/-- **Reading.** A text is read as an expression iff its tokens are those of the expression. -/
theorem read?_eq_some_iff {text : String} {expression : Expression} :
    read? text = some expression ↔ Text.tokens text = expression.tokens := by
  constructor
  · intro h
    unfold read? at h
    split at h
    · rename_i found hRead
      simp only [Option.some.injEq] at h
      subst h
      have hTokens := tokensOfLists_readTokens (by simp) hRead
      simpa [tokensOfLists, tokensOfItems] using hTokens.symm
    · cases h
  · intro h
    have hRead := readTokens_tokens expression [] [] []
    rw [List.append_nil, ← h] at hRead
    simp [read?, hRead, readTokens]

-- ---------------------------------------------------------------------------
-- Expressions at the end of expressions
-- ---------------------------------------------------------------------------

theorem readTokens_append (first second : List Token) : ∀ lists,
    readTokens (first ++ second) lists = (readTokens first lists).bind (readTokens second) := by
  induction first with
  | nil => exact fun _ => rfl
  | cons token rest ih =>
    intro lists
    rw [List.cons_append, readTokens, readTokens, Option.bind_assoc]
    exact congrArg (Option.bind (readToken token lists)) (funext ih)

/-- The outermost list is never closed. -/
theorem ne_nil_of_readTokens {ts : List Token} : ∀ {lists final : List (List Expression)}, lists ≠ [] →
    readTokens ts lists = some final → final ≠ [] := by
  induction ts with
  | nil =>
    intro lists final hOpen h
    obtain rfl := Option.some.inj h
    exact hOpen
  | cons token rest ih =>
    intro lists final hOpen h
    obtain ⟨next, hNext, hRest⟩ := Option.bind_eq_some_iff.mp h
    exact ih (tokensOfLists_readToken hOpen hNext).1 hRest

/-- No expression ends with a whole other one: nothing stands before it. -/
theorem eq_nil_of_tokens {expression last : Expression} {before : List Token}
    (h : expression.tokens = before ++ last.tokens) : before = [] := by
  have hWhole := readTokens_tokens expression [] [] []
  rw [List.append_nil, h, readTokens_append] at hWhole
  obtain ⟨lists, hBefore, hLast⟩ := Option.bind_eq_some_iff.mp hWhole
  have hTokens : tokensOfLists lists = before := tokensOfLists_readTokens (by simp) hBefore
  obtain ⟨items, outer, rfl⟩ := List.exists_cons_of_ne_nil (ne_nil_of_readTokens (by simp) hBefore)
  -- the last expression is added to the innermost list, which ends as the only one
  rw [← List.append_nil last.tokens, readTokens_tokens] at hLast
  obtain ⟨hItems, rfl⟩ := List.cons.inj (Option.some.inj hLast)
  obtain ⟨rfl, -⟩ := List.append_inj' (hItems.trans (List.nil_append _).symm) rfl
  exact hTokens.symm

/-- A text that is one expression does not end with the text of another one after a character that is not blank. -/
theorem not_ends_with {expression last : Expression} {text other : String} {before : List Char} {c : Char}
    (hText : Text.tokens text = expression.tokens) (hOther : Text.tokens other = last.tokens) (hEnds : EndsWord other)
    (hFilled : isBlank c = false) : text.toList ≠ before ++ c :: other.toList := by
  intro hSame
  obtain ⟨d, more, hStart, hSeparator⟩ := hEnds
  rw [Text.tokens, hSame, List.append_cons, hStart, tokensFrom_append_separator hSeparator, ← hStart] at hText
  have hNone : tokensFrom [] (before ++ [c]) = [] := eq_nil_of_tokens (hText.symm.trans (congrArg _ hOther))
  exact absurd ((isBlank_of_tokensFrom hNone).2 c (by simp)) (by simp [hFilled])

-- ---------------------------------------------------------------------------
-- Parentheses
-- ---------------------------------------------------------------------------

mutual

theorem count_tokens (expression : Expression) :
    expression.tokens.count .opening = expression.tokens.count .closing := by
  cases expression with
  | atom text => rfl
  | list items => simp [tokens, count_tokensOfItems items]

theorem count_tokensOfItems (items : List Expression) :
    (tokensOfItems items).count .opening = (tokensOfItems items).count .closing := by
  cases items with
  | nil => rfl
  | cons item rest => simp [tokensOfItems, count_tokens item, count_tokensOfItems rest]

end

/-- Every parenthesis of a text is a token, and no word is one. -/
theorem count_tokensFrom (cs : List Char) :
    ∀ word, (tokensFrom word cs).count .opening = cs.count '(' ∧
      (tokensFrom word cs).count .closing = cs.count ')' := by
  have hWord : ∀ word, (wordTokens word).count .opening = 0 ∧ (wordTokens word).count .closing = 0 := by
    intro word
    unfold wordTokens
    split <;> simp
  induction cs with
  | nil =>
    intro word
    simpa [tokensFrom] using hWord word
  | cons c rest ih =>
    intro word
    by_cases hc : isSeparator c = true
    · by_cases hOpening : c = '('
      · subst hOpening
        simp [tokensFrom, hc, separatorTokens, hWord, ih]
      · by_cases hClosing : c = ')'
        · subst hClosing
          simp [tokensFrom, hc, separatorTokens, hWord, ih]
        · simp [tokensFrom, hc, hOpening, hClosing, separatorTokens, hWord, ih]
    · -- a character of a word is no parenthesis
      have hOpening : c ≠ '(' := fun h => hc (h ▸ rfl)
      have hClosing : c ≠ ')' := fun h => hc (h ▸ rfl)
      simp [tokensFrom, hc, hOpening, hClosing, ih]

/-- In a text that is read, as many parentheses close as open. -/
theorem count_of_read? {text : String} {expression : Expression} (h : read? text = some expression) :
    text.toList.count '(' = text.toList.count ')' := by
  have hCount := count_tokens expression
  rw [← read?_eq_some_iff.mp h, Text.tokens] at hCount
  rw [← (count_tokensFrom text.toList []).1, ← (count_tokensFrom text.toList []).2, hCount]

end Expression

end PlanReplay.Text
