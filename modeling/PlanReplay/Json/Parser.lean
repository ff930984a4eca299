import PlanReplay.Json.Numeral
import PlanReplay.Text.Quoted

/-!
# Parsing JSON

`JsonValue.parse` takes the first value of a text and returns what follows it. It always gives a value: where
the text is no JSON, the value is `broken` at that place and nothing follows.
-/

namespace PlanReplay

namespace JsonValue

/-- The blanks that JSON allows between its tokens. -/
def isSpace (c : Char) : Bool := c = ' ' || c = '\n' || c = '\t' || c = '\r'

def skipSpace (cs : List Char) : List Char := cs.dropWhile isSpace

/-- The value of a hexadecimal digit. -/
def hexValue? (c : Char) : Option Nat :=
  if c.isDigit then some (c.toNat - '0'.toNat)
  else if 'a' ≤ c ∧ c ≤ 'f' then some (c.toNat - 'a'.toNat + 10)
  else if 'A' ≤ c ∧ c ≤ 'F' then some (c.toNat - 'A'.toNat + 10)
  else none

/-- The number that four hexadecimal digits stand for. -/
def hexUnit? (a b c d : Char) : Option Nat := do
  return 4096 * (← hexValue? a) + 256 * (← hexValue? b) + 16 * (← hexValue? c) + (← hexValue? d)

/-- What an escape of one letter stands for. -/
def escaped? : Char → Option Nat
  | '"' => some 0x22
  | '\\' => some 0x5C
  | '/' => some 0x2F
  | 'b' => some 0x08
  | 'f' => some 0x0C
  | 'n' => some 0x0A
  | 'r' => some 0x0D
  | 't' => some 0x09
  | _ => none

/-- A part of a string: a character, or a unit of 16 bits that was written in hexadecimal digits. -/
inductive StringUnit where
  | char (c : Char)
  | unit (n : Nat)
deriving DecidableEq

/-- The parts of a string up to its closing quote, and what follows; none if the string does not end, holds a
control character, or an escape that does not exist. -/
def scanString : List Char → Option (List StringUnit × List Char)
  | '"' :: rest => some ([], rest)
  | '\\' :: 'u' :: a :: b :: c :: d :: rest =>
    match hexUnit? a b c d, scanString rest with
    | some n, some (units, rest) => some (.unit n :: units, rest)
    | _, _ => none
  | '\\' :: c :: rest =>
    match escaped? c, scanString rest with
    | some n, some (units, rest) => some (.char (Char.ofNat n) :: units, rest)
    | _, _ => none
  | c :: rest =>
    if c.toNat < 0x20 ∨ c = '\\' then none
    else
      match scanString rest with
      | some (units, rest) => some (.char c :: units, rest)
      | none => none
  | [] => none

/-- The text of the parts of a string. A high surrogate and the low one after it are one character; a
surrogate that stands alone is none. -/
def textOfUnits : List StringUnit → Option (List Char)
  | [] => some []
  | .char c :: rest => (textOfUnits rest).map (c :: ·)
  | .unit n :: rest =>
    if n < 0xD800 ∨ 0xE000 ≤ n then (textOfUnits rest).map (Char.ofNat n :: ·)
    else
      match rest with
      | .unit low :: rest =>
        if n < 0xDC00 ∧ 0xDC00 ≤ low ∧ low < 0xE000 then
          (textOfUnits rest).map (Char.ofNat (0x10000 + 0x400 * (n - 0xD800) + (low - 0xDC00)) :: ·)
        else
          none
      | _ => none

/-- The text after a word, if it begins with the word. -/
def afterWord (word : String) (value : JsonValue) (cs : List Char) : JsonValue × List Char :=
  match Text.afterPrefix word.toList cs with
  | some rest => (value, rest)
  | none => (broken, [])

/-- A number at the head of a text. -/
def parseNumber (cs : List Char) : JsonValue × List Char :=
  match Numeral.scan cs with
  | some (literal, rest) => (number (.ofLiteral literal), rest)
  | none => (broken, [])

/-- A string after its opening quote. -/
def parseString (cs : List Char) : JsonValue × List Char :=
  match scanString cs with
  | some (units, rest) => (string ((textOfUnits units).map String.ofList), rest)
  | none => (broken, [])

mutual

/-- The value at the head of a text, found in at most `depth` nested calls. -/
def parseValue (depth : Nat) (cs : List Char) : JsonValue × List Char :=
  match depth with
  | 0 => (broken, [])
  | depth + 1 =>
    match skipSpace cs with
    | [] => (broken, [])
    | c :: rest =>
      if c = '[' then
        match parseItems depth true rest with
        | (items, rest) => (array items, rest)
      else if c = '{' then
        match parseEntries depth true rest with
        | (entries, rest) => (object entries, rest)
      else if c = '"' then parseString rest
      else if c = 'n' then afterWord "ull" null rest
      else if c = 't' then afterWord "rue" (boolean true) rest
      else if c = 'f' then afterWord "alse" (boolean false) rest
      else parseNumber (c :: rest)

/-- The items of an array up to its closing bracket; a comma comes before each but the first. -/
def parseItems (depth : Nat) (first : Bool) (cs : List Char) : List JsonValue × List Char :=
  match depth with
  | 0 => ([broken], [])
  | depth + 1 =>
    match skipSpace cs with
    | ']' :: rest => ([], rest)
    | cs =>
      match (if first then some cs else Text.afterPrefix [','] cs) with
      | none => ([broken], [])
      | some cs =>
        match parseValue depth cs with
        | (broken, _) => ([broken], [])
        | (item, rest) =>
          match parseItems depth false rest with
          | (items, rest) => (item :: items, rest)

/-- The entries of an object up to its closing brace; a comma comes before each but the first. -/
def parseEntries (depth : Nat) (first : Bool) (cs : List Char) : List (Option String × JsonValue) × List Char :=
  match depth with
  | 0 => ([(none, broken)], [])
  | depth + 1 =>
    match skipSpace cs with
    | '}' :: rest => ([], rest)
    | cs =>
      match (if first then some cs else Text.afterPrefix [','] cs) with
      | none => ([(none, broken)], [])
      | some cs =>
        match skipSpace cs with
        | '"' :: rest =>
          match parseString rest with
          | (string key, rest) =>
            match skipSpace rest with
            | ':' :: rest =>
              match parseValue depth rest with
              | (broken, _) => ([(key, broken)], [])
              | (value, rest) =>
                match parseEntries depth false rest with
                | (entries, rest) => ((key, value) :: entries, rest)
            | _ => ([(key, broken)], [])
          | _ => ([(none, broken)], [])
        | _ => ([(none, broken)], [])

end

/-- The first value of a text, and what follows it. -/
def parsePrefix (cs : List Char) : JsonValue × List Char := parseValue (2 * cs.length + 2) cs

/-- The first value of a text. -/
def parse (text : String) : JsonValue := (parsePrefix text.toList).1

/-- The value of a text that holds nothing else. -/
def parseWhole (text : String) : JsonValue :=
  match parsePrefix text.toList with
  | (value, rest) => if (skipSpace rest).isEmpty then value else broken

end JsonValue

end PlanReplay
