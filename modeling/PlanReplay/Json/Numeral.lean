import PlanReplay.Bounds
import PlanReplay.Decimal.Reader
import PlanReplay.Json.Value

/-!
# JSON numbers

A number without fraction and exponent that fits 64 bits is whole. Any other one becomes a double in two
steps: its leading digits are read as long as they fit 64 bits, the rest only counting for the power of ten,
and then they are multiplied or divided by that power. Minus zero is a double.
-/

namespace PlanReplay

open Decimal

namespace Numeral

/-- A JSON number as it is written. -/
structure Literal where
  negative : Bool
  whole : List Char
  /-- The digits after the point; empty if there is no point. -/
  fraction : List Char
  exponent : Option Int
deriving DecidableEq

/-- The digits after a point, if there is one; a point needs digits. -/
def scanFraction : List Char → Option (List Char × List Char)
  | '.' :: rest =>
    match spanDigits rest with
    | ([], _) => none
    | (digits, rest) => some (digits, rest)
  | cs => some ([], cs)

/-- The exponent, if there is one; its mark needs digits. -/
def scanExponent (cs : List Char) : Option (Option Int × List Char) :=
  match cs with
  | mark :: rest =>
    if mark = 'e' ∨ mark = 'E' then
      let (negative, rest) := readSign rest
      match spanDigits rest with
      | ([], _) => none
      | (digits, rest) =>
        let magnitude : Int := natOfDigits digits
        some (some (if negative then -magnitude else magnitude), rest)
    else
      some (none, cs)
  | [] => some (none, [])

/-- Whether digits are the whole part of a number: there is one, and no zero leads. -/
def isWholePart : List Char → Bool
  | [] => false
  | ['0'] => true
  | c :: _ => c ≠ '0'

/-- A number at the head of a text, and what follows it. -/
def scan (cs : List Char) : Option (Literal × List Char) := do
  let (negative, cs) :=
    match cs with
    | '-' :: rest => (true, rest)
    | _ => (false, cs)
  let (digits, cs) := spanDigits cs
  guard (isWholePart digits)
  let (fraction, cs) ← scanFraction cs
  let (exponent, cs) ← scanExponent cs
  return (⟨negative, digits, fraction, exponent⟩, cs)

/-- Appends digits to a number as long as it fits 64 bits; the second result counts the digits left out. -/
def appendDigits (n : Nat) : List Char → Nat × Nat
  | [] => (n, 0)
  | c :: rest =>
    let next := 10 * n + digitValue c
    if next ≤ maxUInt64 then appendDigits next rest else (n, rest.length + 1)

/-- A power of ten as a double. -/
def powerOfTen (n : Nat) : Float := nearestFloat 1 n

/-- A double divided by a power of ten, in steps of at most `10 ^ 308`. -/
def shrink (x : Float) (n : Nat) : Float :=
  if n ≤ 308 then x / powerOfTen n
  else if x == 0 then x
  else shrink (x / powerOfTen 308) (n - 308)
termination_by n

/-- A double times a power of ten, unless the result is too large. -/
def scale? (x : Float) (exponent : Int) : Option Float :=
  if exponent < 0 then some (shrink x exponent.natAbs)
  else if exponent ≤ 308 then
    let product := x * powerOfTen exponent.natAbs
    if product.isInf then none else some product
  else if x == 0 then some x
  else none

/-- The meaning of a number as it is written. -/
def ofLiteral (literal : Literal) : Numeral :=
  let (digits, skipped) := appendDigits 0 literal.whole
  if skipped = 0 ∧ literal.fraction = [] ∧ literal.exponent = none
      ∧ (literal.negative = false ∨ (0 < digits ∧ digits ≤ minInt64.natAbs)) then
    .whole (if literal.negative then -(digits : Int) else digits)
  else
    let (digits, unused) := appendDigits digits literal.fraction
    let exponent : Int := skipped - (literal.fraction.length - unused : Nat) + literal.exponent.getD 0
    match scale? (Float.ofNat digits) exponent with
    | some x => .real (if literal.negative then -x else x)
    | none => .tooLarge

end Numeral

example : (Numeral.scan "-12.5e3,".toList).map (fun (l, rest) => (Numeral.ofLiteral l, rest))
    = some (.real (-12500), [',']) := by decide +kernel

example : Numeral.scan "01".toList = none ∧ Numeral.scan "1.".toList = none ∧ Numeral.scan "-".toList = none := by
  decide

end PlanReplay
