import PlanReplay.Text.Shape

/-!
# Quoted text

How messages show a text or a character so that nothing in it is invisible: in quotes, with a backslash
before the quote and the backslash, short escapes for the common controls, and the code point in braces for
every other character that does not show on its own.
-/

namespace PlanReplay.Text

/-- A hexadecimal numeral in lower case, without leading zeros. -/
def hexadecimal (n : Nat) : String := String.ofList (Nat.toDigits 16 n)

/-- The code point of a character, as an escape. -/
def codeEscape (c : Char) : String := "\\u\x7b" ++ hexadecimal c.toNat ++ "\x7d"

/-- A character as it appears between quotes of the kind `quote`. -/
def quotedChar (quote c : Char) : String :=
  if c = '\x00' then "\\0"
  else if c = '\t' then "\\t"
  else if c = '\r' then "\\r"
  else if c = '\n' then "\\n"
  else if c = '\\' ∨ c = quote then String.ofList ['\\', c]
  else if isExtending c || isShapeless c then codeEscape c
  else String.singleton c

/-- A text in double quotes. -/
def quoted (s : String) : String :=
  "\"" ++ String.join (s.toList.map (quotedChar '"')) ++ "\""

/-- A character in single quotes. -/
def quotedAlone (c : Char) : String := "'" ++ quotedChar '\'' c ++ "'"

/-- A list in brackets, its members after commas. -/
def bracketed (items : List String) : String := "[" ++ ", ".intercalate items ++ "]"

end PlanReplay.Text
