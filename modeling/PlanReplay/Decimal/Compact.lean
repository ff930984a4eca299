import PlanReplay.Decimal.Shortest

/-!
# The compact decimal text of a float

The text has the fewest digits that read back to the same float, the nearest decimal of those, and the one with
the even last digit if two are equally near. A float of moderate size is written with a point and at least one
digit after it; a very large or very small one has its point after the first digit and an exponent with its sign.
-/

namespace PlanReplay.Decimal

/-- The power of ten of the first digit of a decimal. -/
def Scaled.power (d : Scaled) : Int := d.exponent + (digitChars d.digits).length - 1

/-- Whether a power of ten is moderate: its decimals are written without an exponent. -/
def isModerate (power : Int) : Bool := -5 ≤ power && power ≤ 15

/-- A decimal with its point after the first digit, and an exponent. -/
def Scaled.scientific (d : Scaled) : List Char :=
  let fraction := (digitChars d.digits).drop 1
  (digitChars d.digits).take 1 ++ (if fraction = [] then [] else '.' :: fraction) ++
    'e' :: (if d.power < 0 then '-' else '+') :: digitChars d.power.natAbs

/-- The compact text of a decimal. -/
def Scaled.compact (d : Scaled) : List Char :=
  if isModerate d.power then d.text ++ (if d.exponent < 0 then [] else ['.', '0']) else d.scientific

/-- The compact text of a value. -/
def Value.compact : Value → String
  | .finite negative mantissa exponent edge =>
    String.ofList (signChars negative ++
      (if mantissa = 0 then ['0', '.', '0'] else (shortest .even mantissa exponent edge).compact))
  | other => other.text

/-- The compact text of a double. -/
def compactText (x : Float) : String := (ofFloat x).compact

example : compactText 100 = "100.0" ∧ compactText (-0.5) = "-0.5" ∧ compactText 1e15 = "1000000000000000.0" := by
  decide

example : compactText 1e16 = "1e+16" ∧ compactText 1e-5 = "0.00001" ∧ compactText 1.25e-6 = "1.25e-6" := by
  decide

example : compactText 1125899906842624.25 = "1125899906842624.2" ∧
    floatText 1125899906842624.25 = "1125899906842624.3" := by decide

end PlanReplay.Decimal
