import Mathlib
import PlanReplay.Json.Parser
import PlanReplay.Json.Printer
import PlanReplay.Proofs.Decimal.ReadBack

/-!
# Printed JSON reads back

Every printed value is parsed as the value that was printed, whatever follows it.

* `JsonValue.Reads` — a text is parsed as a value, and the parser stops behind it.
* `JsonValue.reads_printString` — a printed string, with any characters.
* `JsonValue.reads_printInt` — a printed whole number of 64 bits.
* `JsonValue.reads_printRecord` — a printed record, of fields that read back.
-/

namespace PlanReplay

open Decimal

namespace JsonValue

-- ---------------------------------------------------------------------------
-- Blanks
-- ---------------------------------------------------------------------------

theorem skipSpace_cons_of_not {c : Char} (h : isSpace c = false) (rest : List Char) :
    skipSpace (c :: rest) = c :: rest := by
  unfold skipSpace
  rw [List.dropWhile_cons_of_neg (by simp [h])]

/-- A new line is blank. -/
theorem skipSpace_newLine (depth : Nat) (rest : List Char) :
    skipSpace (Json.newLine depth ++ rest) = skipSpace rest := by
  unfold skipSpace Json.newLine
  rw [List.cons_append, List.dropWhile_cons_of_pos rfl]
  induction 2 * depth with
  | zero => rfl
  | succ n ih => rw [List.replicate_succ, List.cons_append, List.dropWhile_cons_of_pos rfl, ih]

-- ---------------------------------------------------------------------------
-- Strings
-- ---------------------------------------------------------------------------

/-- The two digits of a control character, in an escape. -/
theorem hexUnit_twoHexDigits : ∀ n < 0x20,
    hexUnit? '0' '0' (Nat.digitChar (n / 16)) (Nat.digitChar (n % 16)) = some n := by
  decide

/-- A character that is printed as it is, is scanned as it is. -/
theorem scanString_plain {c : Char} (hQuote : c ≠ '"') (hBackslash : c ≠ '\\') (hControl : ¬ c.toNat < 0x20)
    (rest : List Char) :
    scanString (c :: rest) = (scanString rest).map fun scanned => (.char c :: scanned.1, scanned.2) := by
  have hPlain : ¬ (c.toNat < 0x20 ∨ c = '\\') := not_or.mpr ⟨hControl, hBackslash⟩
  rw [scanString.eq_def]
  split
  · rename_i h
    exact absurd (List.cons.inj h).1 hQuote
  · rename_i h
    exact absurd (List.cons.inj h).1 hBackslash
  · rename_i h
    exact absurd (List.cons.inj h).1 hBackslash
  · rename_i h
    obtain ⟨rfl, rfl⟩ := List.cons.inj h
    rw [if_neg hPlain]
    cases scanString rest <;> rfl
  · rename_i h
    cases h

/-- An escape of one letter is scanned as the character that it stands for. -/
theorem scanString_escape {letter c : Char} (hUnit : letter ≠ 'u') (hEscape : escaped? letter = some c.toNat)
    (rest : List Char) :
    scanString ('\\' :: letter :: rest) = (scanString rest).map fun scanned => (.char c :: scanned.1, scanned.2) := by
  rw [scanString.eq_def]
  split
  · rename_i h
    cases h
  · rename_i h
    exact absurd (List.cons.inj (List.cons.inj h).2).1 hUnit
  · rename_i h
    obtain ⟨rfl, rfl⟩ := List.cons.inj (List.cons.inj h).2
    rw [hEscape]
    cases scanString rest with
    | none => rfl
    | some scanned =>
      dsimp only
      rw [Char.ofNat_toNat]
      rfl
  · rename_i hNone h
    obtain ⟨rfl, rfl⟩ := List.cons.inj h
    exact (hNone letter rest rfl rfl).elim
  · rename_i h
    cases h

/-- A printed character is one part of a string, and stands for the character. -/
theorem scanString_printChar (c : Char) : ∃ part,
    (∀ rest, scanString (Json.printChar c ++ rest) =
      (scanString rest).map fun scanned => (part :: scanned.1, scanned.2)) ∧
    ∀ parts, textOfUnits (part :: parts) = (textOfUnits parts).map (c :: ·) := by
  unfold Json.printChar
  split
  -- the escapes of one letter
  iterate 7
    exact ⟨.char _, scanString_escape (by decide) rfl, fun parts => rfl⟩
  · rename_i hQuote hBackslash _ _ _ _ _
    split
    · -- a control character is a unit
      rename_i hControl
      have hLow : c.toNat < 0xD800 ∨ 0xE000 ≤ c.toNat := Or.inl (by omega)
      refine ⟨.unit c.toNat, ?_, ?_⟩
      · intro rest
        have hHex := hexUnit_twoHexDigits c.toNat hControl
        simp only [Json.twoHexDigits, List.cons_append, List.nil_append, scanString, hHex]
        cases scanString rest <;> rfl
      · intro parts
        rw [textOfUnits.eq_def]
        simp only
        rw [if_pos hLow, Char.ofNat_toNat]
    · rename_i hControl
      exact ⟨.char c, fun rest => scanString_plain hQuote hBackslash hControl rest, fun parts => rfl⟩

/-- A printed text is scanned up to its closing quote. -/
theorem scanString_printed (cs rest : List Char) :
    ∃ parts, scanString (cs.flatMap Json.printChar ++ '"' :: rest) = some (parts, rest) ∧
      textOfUnits parts = some cs := by
  induction cs with
  | nil => exact ⟨[], rfl, rfl⟩
  | cons c later ih =>
    obtain ⟨parts, hParts, hText⟩ := ih
    obtain ⟨part, hScan, hMeans⟩ := scanString_printChar c
    refine ⟨part :: parts, ?_, ?_⟩
    · rw [List.flatMap_cons, List.append_assoc, hScan, hParts]
      rfl
    · rw [hMeans, hText]
      rfl

theorem parseString_printed (s : String) (rest : List Char) :
    parseString (s.toList.flatMap Json.printChar ++ '"' :: rest) = (string (some s), rest) := by
  obtain ⟨parts, hScan, hText⟩ := scanString_printed s.toList rest
  unfold parseString
  rw [hScan]
  dsimp only
  rw [hText, Option.map_some, String.ofList_toList]

-- ---------------------------------------------------------------------------
-- Whole numbers
-- ---------------------------------------------------------------------------

/-- What may follow a number: nothing, or a character that is no part of one. -/
def Delimits (rest : List Char) : Prop :=
  ∀ c ∈ rest.head?, c.isDigit = false ∧ c ≠ '.' ∧ c ≠ 'e' ∧ c ≠ 'E'

theorem delimits_nil : Delimits [] := nofun

theorem delimits_cons {c : Char} (h : c.isDigit = false ∧ c ≠ '.' ∧ c ≠ 'e' ∧ c ≠ 'E') (rest : List Char) :
    Delimits (c :: rest) := by
  rintro d ⟨⟩
  exact h

theorem digitChar_ne_zero : ∀ n, 0 < n → n < 10 → Nat.digitChar n ≠ '0' := by
  intro n hPos hSmall
  have hAll : ∀ n : Fin 10, 0 < n.val → Nat.digitChar n.val ≠ '0' := by decide
  exact hAll ⟨n, hSmall⟩ hPos

/-- No zero leads the digits of a number. -/
theorem isWholePart_toDigits (n : Nat) : Numeral.isWholePart (Nat.toDigits 10 n) = true := by
  -- of a positive number the first digit is no zero
  have hFirst : ∀ n, 0 < n → ∃ c rest, Nat.toDigits 10 n = c :: rest ∧ c ≠ '0' := by
    intro n
    induction n using Nat.strongRecOn with
    | ind n ih =>
      intro hPos
      rcases Nat.lt_or_ge n 10 with hSmall | hLarge
      · refine ⟨Nat.digitChar n, [], Nat.toDigits_of_lt_base hSmall, ?_⟩
        exact digitChar_ne_zero n hPos hSmall
      · obtain ⟨c, rest, hDigits, hZero⟩ := ih (n / 10) (by omega) (by omega)
        refine ⟨c, rest ++ [Nat.digitChar (n % 10)], ?_, hZero⟩
        rw [Nat.toDigits_of_base_le (by decide) hLarge, hDigits, List.cons_append]
  rcases Nat.eq_zero_or_pos n with rfl | hPos
  · rfl
  · obtain ⟨c, rest, hDigits, hZero⟩ := hFirst n hPos
    rw [hDigits]
    unfold Numeral.isWholePart
    split
    · rename_i h
      cases h
    · rfl
    · rename_i h
      obtain ⟨rfl, -⟩ := List.cons.inj h
      exact decide_eq_true hZero

/-- As long as a number fits, no digit is left out. -/
theorem appendDigits_eq {cs : List Char} {n : Nat} (h : Nat.ofDigitChars 10 cs n ≤ maxUInt64) :
    Numeral.appendDigits n cs = (Nat.ofDigitChars 10 cs n, 0) := by
  induction cs generalizing n with
  | nil => rfl
  | cons c rest ih =>
    have hStep : Nat.ofDigitChars 10 (c :: rest) n = Nat.ofDigitChars 10 rest (10 * n + digitValue c) :=
      Nat.ofDigitChars_cons
    rw [hStep] at h ⊢
    -- more digits make no number smaller
    have hFits : 10 * n + digitValue c ≤ maxUInt64 := by
      rw [Nat.ofDigitChars_eq_ofDigitChars_zero] at h
      have hPower : 0 < 10 ^ rest.length := Nat.pow_pos (by decide)
      have hGrows := Nat.mul_le_mul_right (10 * n + digitValue c) hPower
      omega
    rw [Numeral.appendDigits, if_pos hFits, ih h]

/-- The sign of a number, and its digits. -/
theorem printInt_eq (n : Int) :
    Json.printInt n = (if n < 0 then ['-'] else []) ++ Nat.toDigits 10 n.natAbs := by
  unfold Json.printInt
  cases n with
  | ofNat m =>
    rw [if_neg (by simp)]
    exact congrArg String.toList Nat.repr_eq_ofList_toDigits |>.trans (String.toList_ofList ..)
  | negSucc m =>
    rw [if_pos (Int.negSucc_lt_zero m)]
    have hText : toString (Int.negSucc m) = "-" ++ Nat.repr (m + 1) := rfl
    have hDigits : (Nat.repr (m + 1)).toList = Nat.toDigits 10 (m + 1) := by
      rw [Nat.repr_eq_ofList_toDigits, String.toList_ofList]
    rw [hText, String.toList_append, hDigits]
    rfl

/-- A printed whole number is scanned as its sign and its digits. -/
theorem scan_printInt (n : Int) {rest : List Char} (hRest : Delimits rest) :
    Numeral.scan (Json.printInt n ++ rest) = some (⟨decide (n < 0), Nat.toDigits 10 n.natAbs, [], none⟩, rest) := by
  have hDigits : ∀ c ∈ Nat.toDigits 10 n.natAbs, c.isDigit = true := fun c hc =>
    Nat.isDigit_of_mem_toDigits (by decide) (by decide) hc
  have hSpan := spanDigits_append hDigits fun c hc => (hRest c hc).1
  have hFraction : Numeral.scanFraction rest = some ([], rest) := by
    unfold Numeral.scanFraction
    split
    · exact absurd rfl (hRest '.' rfl).2.1
    · rfl
  have hExponent : Numeral.scanExponent rest = some (none, rest) := by
    unfold Numeral.scanExponent
    split
    · rename_i mark later
      rw [if_neg (not_or.mpr (hRest mark rfl).2.2)]
    · rfl
  rw [printInt_eq]
  by_cases hSign : n < 0
  · rw [if_pos hSign, decide_eq_true hSign]
    simp [Numeral.scan, hSpan, isWholePart_toDigits, hFraction, hExponent]
  · rw [if_neg hSign, decide_eq_false hSign, List.nil_append]
    have hWhole := isWholePart_toDigits n.natAbs
    cases hCase : Nat.toDigits 10 n.natAbs with
    | nil => exact absurd hCase Nat.toDigits_ne_nil
    | cons c later =>
      rw [hCase] at hDigits hSpan hWhole
      -- a digit is no sign
      have hMinus : c ≠ '-' := by
        rintro rfl
        exact absurd (hDigits '-' List.mem_cons_self) (by decide)
      rw [List.cons_append] at hSpan ⊢
      simp [Numeral.scan, hMinus, hSpan, hWhole, hFraction, hExponent]

/-- The whole numbers that 64 bits hold, with or without a sign. -/
def FitsWord (n : Int) : Prop := minInt64 ≤ n ∧ n ≤ maxUInt64

/-- The meaning of a printed whole number is the number. -/
theorem ofLiteral_printInt {n : Int} (h : FitsWord n) :
    Numeral.ofLiteral ⟨decide (n < 0), Nat.toDigits 10 n.natAbs, [], none⟩ = .whole n := by
  obtain ⟨hLow, hHigh⟩ := h
  have hDigits : Nat.ofDigitChars 10 (Nat.toDigits 10 n.natAbs) 0 = n.natAbs := Nat.ofDigitChars_ten_toDigits
  have hFits : Nat.ofDigitChars 10 (Nat.toDigits 10 n.natAbs) 0 ≤ maxUInt64 := by
    rw [hDigits]
    simp only [minInt64, maxUInt64] at hLow hHigh ⊢
    omega
  unfold Numeral.ofLiteral
  rw [appendDigits_eq hFits, hDigits]
  dsimp only
  rw [if_pos]
  · by_cases hSign : n < 0
    · rw [decide_eq_true hSign, if_pos rfl]
      congr 1
      omega
    · rw [decide_eq_false hSign, if_neg Bool.false_ne_true]
      congr 1
      omega
  · refine ⟨rfl, rfl, rfl, ?_⟩
    by_cases hSign : n < 0
    · refine Or.inr ⟨by omega, ?_⟩
      simp only [minInt64] at hLow ⊢
      omega
    · exact Or.inl (decide_eq_false hSign)

-- ---------------------------------------------------------------------------
-- Values
-- ---------------------------------------------------------------------------

/-- A text is parsed as a value, and the parser stops behind it. The depth need not be more than its length. -/
def Reads (text : List Char) (value : JsonValue) : Prop :=
  value ≠ broken ∧ ∀ depth rest, text.length < depth → Delimits rest → parseValue depth (text ++ rest) = (value, rest)

theorem reads_printString (s : String) : Reads (Json.printString s) (string (some s)) := by
  refine ⟨nofun, ?_⟩
  intro depth rest hDepth _
  obtain ⟨depth, rfl⟩ := Nat.exists_eq_succ_of_ne_zero (Nat.ne_zero_of_lt hDepth)
  have hText : Json.printString s ++ rest = '"' :: (s.toList.flatMap Json.printChar ++ '"' :: rest) := by
    simp [Json.printString]
  rw [hText, parseValue, skipSpace_cons_of_not rfl]
  exact parseString_printed s rest

/-- What begins with a sign or a digit is parsed as a number. -/
theorem parseValue_number {c : Char} (h : c = '-' ∨ c.isDigit = true) (depth : Nat) (rest : List Char) :
    parseValue (depth + 1) (c :: rest) = parseNumber (c :: rest) := by
  have hOther : ∀ d : Char, d ≠ '-' → d.isDigit = false → c ≠ d := by
    rintro d hMinus hDigit rfl
    rcases h with rfl | hIs
    · exact hMinus rfl
    · exact absurd (hIs.symm.trans hDigit) (by decide)
  have hSpace : isSpace c = false := by
    unfold isSpace
    rw [decide_eq_false (hOther ' ' (by decide) (by decide)), decide_eq_false (hOther '\n' (by decide) (by decide)),
      decide_eq_false (hOther '\t' (by decide) (by decide)), decide_eq_false (hOther '\r' (by decide) (by decide))]
    rfl
  rw [parseValue, skipSpace_cons_of_not hSpace]
  dsimp only
  rw [if_neg (hOther '[' (by decide) (by decide)), if_neg (hOther '{' (by decide) (by decide)),
    if_neg (hOther '"' (by decide) (by decide)), if_neg (hOther 'n' (by decide) (by decide)),
    if_neg (hOther 't' (by decide) (by decide)), if_neg (hOther 'f' (by decide) (by decide))]

theorem reads_printInt {n : Int} (h : FitsWord n) : Reads (Json.printInt n) (number (.whole n)) := by
  refine ⟨nofun, ?_⟩
  intro depth rest hDepth hRest
  obtain ⟨depth, rfl⟩ := Nat.exists_eq_succ_of_ne_zero (Nat.ne_zero_of_lt hDepth)
  have hNumber : parseNumber (Json.printInt n ++ rest) = (number (.whole n), rest) := by
    unfold parseNumber
    rw [scan_printInt n hRest]
    dsimp only
    rw [ofLiteral_printInt h]
  have hFirst : ∃ c later, Json.printInt n = c :: later ∧ (c = '-' ∨ c.isDigit = true) := by
    rw [printInt_eq]
    split
    · exact ⟨'-', _, rfl, Or.inl rfl⟩
    · obtain ⟨c, later, hDigits⟩ := List.exists_cons_of_ne_nil (Nat.toDigits_ne_nil (n := n.natAbs) (b := 10))
      refine ⟨c, later, hDigits, Or.inr ?_⟩
      refine Nat.isDigit_of_mem_toDigits (b := 10) (n := n.natAbs) (by decide) (by decide) ?_
      rw [hDigits]
      exact List.mem_cons_self
  obtain ⟨c, later, hText, hStarts⟩ := hFirst
  rw [hText, List.cons_append] at hNumber ⊢
  rw [parseValue_number hStarts, hNumber]

-- ---------------------------------------------------------------------------
-- Records
-- ---------------------------------------------------------------------------

/-- A blank before a value is skipped. -/
theorem parseValue_blank (depth : Nat) (cs : List Char) : parseValue depth (' ' :: cs) = parseValue depth cs := by
  have hSkip : skipSpace (' ' :: cs) = skipSpace cs := rfl
  cases depth with
  | zero => rfl
  | succ depth => rw [parseValue, parseValue, hSkip]

/-- A printed field, the first one or one after a comma, is parsed as an entry. -/
theorem parseEntries_field {text : List Char} {value : JsonValue} (h : Reads text value) {depth : Nat}
    (hDepth : text.length < depth) (isFirst : Bool) (inner : Nat) (name : String) {rest : List Char}
    (hRest : Delimits rest) :
    parseEntries (depth + 1) isFirst
        ((if isFirst then [] else [',']) ++
          (Json.newLine inner ++ (Json.printString name ++ ([':', ' '] ++ (text ++ rest))))) =
      ((some name, value) :: (parseEntries depth false rest).1, (parseEntries depth false rest).2) := by
  have hName : Json.printString name ++ ([':', ' '] ++ (text ++ rest)) =
      '"' :: (name.toList.flatMap Json.printChar ++ '"' :: ':' :: ' ' :: (text ++ rest)) := by
    simp [Json.printString]
  have hSkip : skipSpace (Json.newLine inner ++ (Json.printString name ++ ([':', ' '] ++ (text ++ rest)))) =
      '"' :: (name.toList.flatMap Json.printChar ++ '"' :: ':' :: ' ' :: (text ++ rest)) := by
    rw [skipSpace_newLine, hName, skipSpace_cons_of_not rfl]
  have hValue : parseValue depth (' ' :: (text ++ rest)) = (value, rest) := by
    rw [parseValue_blank, h.2 depth rest hDepth hRest]
  have hBroken : value ≠ broken := h.1
  generalize Json.newLine inner ++ (Json.printString name ++ ([':', ' '] ++ (text ++ rest))) = tail at hSkip ⊢
  cases isFirst with
  | true =>
    rw [parseEntries, if_pos rfl, List.nil_append, hSkip]
    simp [skipSpace_cons_of_not (show isSpace '"' = false from rfl), parseString_printed,
      skipSpace_cons_of_not (show isSpace ':' = false from rfl), hValue]
  | false =>
    rw [parseEntries, if_neg Bool.false_ne_true, List.cons_append, List.nil_append, skipSpace_cons_of_not rfl]
    simp [Text.afterPrefix, hSkip, parseString_printed, skipSpace_cons_of_not (show isSpace ':' = false from rfl),
      hValue]

/-- A field reads back as an entry. -/
def FieldReads (field : String × List Char) (entry : Option String × JsonValue) : Prop :=
  entry.1 = some field.1 ∧ Reads field.2 entry.2

/-- What follows a field is no part of a number. -/
theorem delimits_fields (inner outer : Nat) (fields : List (String × List Char)) (rest : List Char) :
    Delimits (Json.printFields inner fields ++ (Json.newLine outer ++ rest)) := by
  cases fields with
  | nil => exact delimits_cons (by decide) _
  | cons field later => exact delimits_cons (by decide) _

/-- The fields after the first one read back. -/
theorem parseEntries_fields {fields : List (String × List Char)} {entries : List (Option String × JsonValue)}
    (h : List.Forall₂ FieldReads fields entries) (inner outer : Nat) (rest : List Char) {depth : Nat}
    (hDepth : (Json.printFields inner fields).length < depth) :
    parseEntries depth false (Json.printFields inner fields ++ (Json.newLine outer ++ '}' :: rest)) =
      (entries, rest) := by
  induction h generalizing depth with
  | nil =>
    obtain ⟨depth, rfl⟩ := Nat.exists_eq_succ_of_ne_zero (Nat.ne_zero_of_lt hDepth)
    rw [Json.printFields, List.nil_append, parseEntries, skipSpace_newLine, skipSpace_cons_of_not rfl]
    rfl
  | @cons field entry fields entries hField hFields ih =>
    obtain ⟨depth, rfl⟩ := Nat.exists_eq_succ_of_ne_zero (Nat.ne_zero_of_lt hDepth)
    obtain ⟨name, text⟩ := field
    obtain ⟨key, value⟩ := entry
    obtain ⟨rfl, hValue⟩ : key = some name ∧ Reads text value := hField
    simp only [Json.printFields, List.length_cons, List.length_append] at hDepth
    have hFits : text.length < depth := by omega
    have hRoom : (Json.printFields inner fields).length < depth := by omega
    have hLater := ih hRoom
    have hEntry := parseEntries_field hValue hFits false inner name
      (delimits_fields inner outer fields ('}' :: rest))
    rw [hLater] at hEntry
    simpa [Json.printFields] using hEntry

/-- A printed record reads back as an object. -/
theorem reads_printRecord {fields : List (String × List Char)} {entries : List (Option String × JsonValue)}
    (h : List.Forall₂ FieldReads fields entries) (outer : Nat) :
    Reads (Json.printRecord outer fields) (object entries) := by
  refine ⟨nofun, ?_⟩
  intro depth rest hDepth _
  obtain ⟨depth, rfl⟩ := Nat.exists_eq_succ_of_ne_zero (Nat.ne_zero_of_lt hDepth)
  have hOpen : ∀ cs, parseValue (depth + 1) ('{' :: cs) =
      (object (parseEntries depth true cs).1, (parseEntries depth true cs).2) := by
    intro cs
    rw [parseValue, skipSpace_cons_of_not rfl]
    rfl
  cases h with
  | nil =>
    simp only [Json.printRecord, List.length_cons] at hDepth
    obtain ⟨depth, rfl⟩ := Nat.exists_eq_succ_of_ne_zero (show depth ≠ 0 by omega)
    rw [Json.printRecord, List.cons_append, hOpen, List.cons_append, parseEntries, skipSpace_cons_of_not rfl]
    rfl
  | @cons field entry fields entries hField hFields =>
    obtain ⟨name, text⟩ := field
    obtain ⟨key, value⟩ := entry
    obtain ⟨rfl, hValue⟩ : key = some name ∧ Reads text value := hField
    simp only [Json.printRecord, List.length_cons, List.length_append] at hDepth
    obtain ⟨depth, rfl⟩ := Nat.exists_eq_succ_of_ne_zero (show depth ≠ 0 by omega)
    have hFits : text.length < depth := by omega
    have hRoom : (Json.printFields (outer + 1) fields).length < depth := by omega
    have hLater := parseEntries_fields hFields (outer + 1) outer rest hRoom
    have hEntry := parseEntries_field hValue hFits true (outer + 1) name
      (delimits_fields (outer + 1) outer fields ('}' :: rest))
    rw [hLater] at hEntry
    have hText : Json.printRecord outer ((name, text) :: fields) ++ rest =
        '{' :: (Json.newLine (outer + 1) ++ (Json.printString name ++ ([':', ' '] ++ (text ++
          (Json.printFields (outer + 1) fields ++ (Json.newLine outer ++ '}' :: rest)))))) := by
      simp [Json.printRecord]
    rw [if_pos rfl, List.nil_append] at hEntry
    rw [hText, hOpen, hEntry]

/-- A printed value with nothing around it is the value of its text. -/
theorem Reads.parseWhole {text : List Char} {value : JsonValue} (h : Reads text value) :
    JsonValue.parseWhole (String.ofList text) = value := by
  have hParse := h.2 (2 * text.length + 2) [] (by omega) delimits_nil
  rw [List.append_nil] at hParse
  unfold JsonValue.parseWhole parsePrefix
  rw [String.toList_ofList, hParse]
  rfl

end JsonValue

end PlanReplay
