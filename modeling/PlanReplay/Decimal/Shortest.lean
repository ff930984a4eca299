import PlanReplay.Decimal.Binary

/-!
# The shortest decimal text of a float

The text has the fewest digits that read back to the same float, never an exponent, and no point when no
digit follows it. Between the decimals with that many digits the one nearest to the float is taken; which of
two equally near ones is a matter of the format, and in this one it is the larger.

The search runs over the decimal grids `10 ^ p`, coarsest first. On each grid the two neighbours of the
float are compared with the interval of reals that read back to it; all comparisons are exact.
-/

namespace PlanReplay.Decimal

/-- The decimal `digits * 10 ^ exponent`. -/
structure Scaled where
  digits : Nat
  exponent : Int
deriving DecidableEq

/-- Which of two equally near neighbours on a grid is taken. -/
inductive TieRule where
  | larger
  | even
deriving DecidableEq

/-- Whether the lower one of two equally near neighbours is taken. -/
def TieRule.takesLower (tie : TieRule) (lower : Nat) : Bool :=
  match tie with
  | .larger => false
  | .even => lower % 2 = 0

/-- The decimal on the grid `10 ^ p` that reads back to `mantissa * 2 ^ exponent`, if there is one.

All quantities are multiples of a quarter of the unit in the last place: the float is `4 * mantissa`, the
upper end of its interval lies `2` above, and the lower end `2` below or, at an edge, `1`. The ends belong
to the interval exactly if the mantissa is even. -/
def onGrid (tie : TieRule) (mantissa : Nat) (exponent : Int) (edge : Bool) (p : Int) : Option Nat :=
  let scale := twoTo (exponent - 2).toNat * tenTo (-p).toNat
  let unit := twoTo (2 - exponent).toNat * tenTo p.toNat
  let value := 4 * mantissa * scale
  let high := (4 * mantissa + 2) * scale
  let low := (4 * mantissa - (if edge then 1 else 2)) * scale
  let inside := fun n : Nat =>
    if mantissa % 2 = 0 then decide (low ≤ n * unit ∧ n * unit ≤ high)
    else decide (low < n * unit ∧ n * unit < high)
  let below := value / unit
  if below = 0 then none
  else if inside below && inside (below + 1) then
    let twice := 2 * (value - below * unit)
    some (if twice < unit ∨ (twice = unit ∧ tie.takesLower below) then below else below + 1)
  else if inside below then some below
  else if inside (below + 1) then some (below + 1)
  else none

/-- The shortest decimal that reads back to `mantissa * 2 ^ exponent`, which is not zero. The first grid
lies above the float; seventeen grids below the first one that is not, one is sure to hold a hit. -/
def shortest (tie : TieRule) (mantissa : Nat) (exponent : Int) (edge : Bool) : Scaled :=
  let top : Int := (Nat.log2 mantissa + 1 + exponent) * 30103 / 100000 + 1
  let hit := (List.range 21).findSome? fun (i : Nat) =>
    (onGrid tie mantissa exponent edge (top - i)).map fun digits => (⟨digits, top - i⟩ : Scaled)
  match hit with
  | some ⟨digits, p⟩ => if digits % 10 = 0 then ⟨digits / 10, p + 1⟩ else ⟨digits, p⟩
  | none => ⟨0, 0⟩

/-- The decimal digits of a natural number. -/
def digitChars (n : Nat) : List Char := Nat.toDigits 10 n

/-- A text with a point before its last `places` digits; zeros fill up so that a digit stands before the
point. No places, no point. -/
def withPoint (places : Nat) (digits : List Char) : List Char :=
  if places = 0 then digits
  else
    let filled := List.replicate (places + 1 - digits.length) '0' ++ digits
    let whole := filled.length - places
    filled.take whole ++ '.' :: filled.drop whole

/-- The positional text of a decimal. -/
def Scaled.text (d : Scaled) : List Char :=
  withPoint (-d.exponent).toNat (digitChars d.digits ++ List.replicate d.exponent.toNat '0')

/-- The sign of a written number. -/
def signChars (negative : Bool) : List Char := if negative then ['-'] else []

/-- The shortest text of a value. -/
def Value.text : Value → String
  | .nan => "NaN"
  | .infinite negative => String.ofList (signChars negative ++ ['i', 'n', 'f'])
  | .finite negative mantissa exponent edge =>
    if mantissa = 0 then String.ofList (signChars negative ++ ['0'])
    else String.ofList (signChars negative ++ (shortest .larger mantissa exponent edge).text)

/-- The shortest text of a double. -/
def floatText (x : Float) : String := (ofFloat x).text

/-- The shortest text of a single-precision number. -/
def float32Text (x : Float32) : String := (ofFloat32 x).text

example : floatText 0.1 = "0.1" ∧ floatText 1e21 = "1000000000000000000000" ∧ floatText 1e-6 = "0.000001" := by
  decide

example : floatText 5e-324 = "0." ++ String.ofList (List.replicate 323 '0') ++ "5" := by
  decide +kernel

end PlanReplay.Decimal
