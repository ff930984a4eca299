import PlanReplay.Text.Quoted

/-!
# Printing JSON

Strings are printed with the shortest escapes; only quotes, backslashes and control characters are escaped.
Records have one field per line, indented by two blanks for each record around it.
-/

namespace PlanReplay.Json

/-- The digits of a number below 256 in hexadecimal. -/
def twoHexDigits (n : Nat) : List Char := [Nat.digitChar (n / 16), Nat.digitChar (n % 16)]

/-- A character as it is written in a string. -/
def printChar (c : Char) : List Char :=
  match c with
  | '"' => ['\\', '"']
  | '\\' => ['\\', '\\']
  | '\x08' => ['\\', 'b']
  | '\x0C' => ['\\', 'f']
  | '\n' => ['\\', 'n']
  | '\r' => ['\\', 'r']
  | '\t' => ['\\', 't']
  | c => if c.toNat < 0x20 then ['\\', 'u', '0', '0'] ++ twoHexDigits c.toNat else [c]

/-- A string between quotes. -/
def printString (s : String) : List Char := '"' :: s.toList.flatMap printChar ++ ['"']

def printInt (n : Int) : List Char := (toString n).toList

/-- A new line inside `depth` records. -/
def newLine (depth : Nat) : List Char := '\n' :: List.replicate (2 * depth) ' '

/-- The fields of a record after the first one, each after a comma. -/
def printFields (depth : Nat) : List (String × List Char) → List Char
  | [] => []
  | (name, value) :: rest =>
    ',' :: newLine depth ++ printString name ++ [':', ' '] ++ value ++ printFields depth rest

/-- A record inside `depth` others; its fields have names and printed values. -/
def printRecord (depth : Nat) : List (String × List Char) → List Char
  | [] => ['{', '}']
  | (name, value) :: rest =>
    '{' :: newLine (depth + 1) ++ printString name ++ [':', ' '] ++ value ++ printFields (depth + 1) rest ++
      newLine depth ++ ['}']

example : String.ofList (printRecord 0 [("a", printInt (-1)), ("b\t", printString "x\"")])
    = r#"{
  "a": -1,
  "b\t": "x\""
}"# := by decide

end PlanReplay.Json
