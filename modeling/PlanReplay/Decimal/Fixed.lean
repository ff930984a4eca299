import PlanReplay.Decimal.Shortest

/-!
# Decimals with fixed places

A float written with a given number of places is the exact binary value rounded to the nearest decimal with
that many places; a value halfway between two of them takes the one with the even last digit.

Main statements about `roundHalfEven`: the result is within half a unit (`roundHalfEven_near`), and a
tie is even (`roundHalfEven_tie`).
-/

namespace PlanReplay.Decimal

/-- The whole number nearest to `num / den`, the even one of two equally near. -/
def roundHalfEven (num den : Nat) : Nat :=
  let whole := num / den
  let twice := 2 * (num % den)
  if twice < den then whole
  else if den < twice then whole + 1
  else if whole % 2 = 0 then whole else whole + 1

theorem roundHalfEven_near (num : Nat) {den : Nat} (pos : 0 < den) :
    2 * num ≤ (2 * roundHalfEven num den + 1) * den ∧ 2 * (roundHalfEven num den * den) ≤ 2 * num + den := by
  have split := Nat.div_add_mod num den
  have comm : den * (num / den) = num / den * den := Nat.mul_comm _ _
  unfold roundHalfEven
  have small := Nat.mod_lt num pos
  simp only
  split
  · constructor <;> grind
  · split
    · constructor <;> grind
    · split <;> constructor <;> grind

theorem roundHalfEven_tie {num den : Nat} (tie : 2 * (num % den) = den) :
    roundHalfEven num den % 2 = 0 := by
  unfold roundHalfEven
  simp only [tie, Nat.lt_irrefl, if_false]
  split <;> omega

/-- A value with `places` digits after the point. -/
def Value.fixed (places : Nat) : Value → String
  | .finite negative mantissa exponent _ =>
    let units := roundHalfEven (mantissa * twoTo exponent.toNat * tenTo places) (twoTo (-exponent).toNat)
    String.ofList (signChars negative ++ withPoint places (digitChars units))
  | other => other.text

/-- A double with `places` digits after the point. -/
def fixedText (places : Nat) (x : Float) : String := (ofFloat x).fixed places

example : fixedText 0 2.5 = "2" ∧ fixedText 2 0.125 = "0.12" ∧ fixedText 3 (-0.0004) = "-0.000" := by
  decide

end PlanReplay.Decimal
