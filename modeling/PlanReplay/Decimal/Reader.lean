import PlanReplay.Text.Search

/-!
# Reading floats

A number is an optional sign, then a word for infinity or for no number in any case, or decimal digits with
an optional point and an optional exponent; at least one digit stands beside the point, and nothing else may
follow, blanks included. The value is the nearest double; what is too large is infinite.
-/

namespace PlanReplay.Decimal

/-- The value of a decimal digit. -/
def digitValue (c : Char) : Nat := c.toNat - '0'.toNat

/-- The natural number with the given decimal digits. -/
def natOfDigits (digits : List Char) : Nat := digits.foldl (fun n c => 10 * n + digitValue c) 0

/-- The double nearest to `digits * 10 ^ exponent`. Far outside the range of doubles the value is settled
by the number of digits alone. -/
def nearestFloat (digits : Nat) (exponent : Int) : Float :=
  if digits = 0 then 0
  else
    let magnitude : Int := (Nat.toDigits 10 digits).length + exponent
    if magnitude > 400 then 1.0 / 0.0
    else if magnitude < -400 then 0
    else Float.ofScientific digits (exponent < 0) exponent.natAbs

/-- An optional sign: whether it is a minus, and the rest. -/
def readSign : List Char → Bool × List Char
  | '-' :: rest => (true, rest)
  | '+' :: rest => (false, rest)
  | rest => (false, rest)

/-- The leading decimal digits and the rest. -/
def spanDigits (cs : List Char) : List Char × List Char := (cs.takeWhile (·.isDigit), cs.dropWhile (·.isDigit))

/-- An exponent to the end of the text; no text is the exponent zero. -/
def readExponent : List Char → Option Int
  | [] => some 0
  | mark :: rest =>
    if mark = 'e' ∨ mark = 'E' then
      match readSign rest with
      | (negative, digits) =>
        if digits.isEmpty || !digits.all (·.isDigit) then none
        else some (if negative then -(natOfDigits digits : Int) else natOfDigits digits)
    else
      none

/-- The digits after an optional point, and the rest. -/
def readFraction : List Char → List Char × List Char
  | '.' :: rest => spanDigits rest
  | rest => ([], rest)

/-- A number without sign. -/
def readMagnitude (cs : List Char) : Option Float :=
  let word := Text.lowerChars cs
  if word = "inf".toList ∨ word = "infinity".toList then some (1.0 / 0.0)
  else if word = "nan".toList then some (0.0 / 0.0)
  else
    let (whole, rest) := spanDigits cs
    let (fraction, rest) := readFraction rest
    if whole.isEmpty && fraction.isEmpty then none
    else
      (readExponent rest).map fun exponent =>
        nearestFloat (natOfDigits (whole ++ fraction)) (exponent - fraction.length)

/-- A number with an optional sign. -/
def readFloatChars (cs : List Char) : Option Float :=
  let (negative, rest) := readSign cs
  (readMagnitude rest).map fun x => if negative then -x else x

/-- The float that a text denotes. -/
def readFloat? (s : String) : Option Float := readFloatChars s.toList

example : readFloat? "1e400" = some (1.0 / 0.0) ∧ readFloat? "-.5e1" = some (-5.0) ∧ readFloat? "." = none := by
  decide

example : readFloat? "" = none ∧ readFloat? "1 " = none ∧ readFloat? "+Infinity" = some (1.0 / 0.0) := by
  decide

end PlanReplay.Decimal
