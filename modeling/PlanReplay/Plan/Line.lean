import PlanReplay.Decimal.Reader
import PlanReplay.Plan.Basic

/-!
# The lines of a planner's text

A line holds an action, `(verb args)`, perhaps after a time and a colon and before a duration in brackets;
or a waiting marker with its target in brackets; or something else, which says nothing. A line that is an
action or a marker but for a number is faulty.
-/

namespace PlanReplay

open Decimal Text

/-- When a line says that its action starts. -/
inductive LineTime where
  /-- At its place among the actions. -/
  | positional
  /-- At an offset from the last waiting marker. -/
  | explicit (offset : Float)
deriving DecidableEq

/-- An action as a line gives it. -/
structure ActionLine where
  /-- Whether anything stands before the action. -/
  prefixed : Bool
  time : LineTime
  duration : Option Float
  name : String
  args : List EntityId
deriving DecidableEq

/-- What a line of a planner's text holds. -/
inductive PlanLine where
  | other
  | action (a : ActionLine)
  | waiting (target : Float)
deriving DecidableEq

namespace PlanLine

/-- The mark of a waiting line. -/
def waitingMarker : List Char := "-----waiting----".toList

/-- The text between the first opening bracket and the next closing one, trimmed. -/
def bracketChars? (cs : List Char) : Option (List Char) := do
  let (_, rest) ← splitAtFirst ['['] cs
  let (inside, _) ← splitAtFirst [']'] rest
  some (trimChars inside)

/-- The number in the first brackets of a text, if it is accepted. -/
def bracketNumber? (accept : Float → Bool) (cs : List Char) : Option Float :=
  ((bracketChars? cs).bind readFloatChars).filter accept

/-- Whether a text starts like a number. -/
def looksNumeric : List Char → Bool
  | [] => false
  | c :: _ => c.isDigit || c == '.' || c == '-' || c == '+'

/-- The time that stands before an action, trimmed. Words are no time and no fault. -/
def parseTime (cs : List Char) : Except LineFault LineTime :=
  if cs.isEmpty then .ok .positional
  else
    match readFloatChars cs with
    | some value => if value.isFinite then .ok (.explicit value) else .error (.nonFiniteTime value)
    | none =>
      if looksNumeric cs then .error (.malformedTime (String.ofList cs)) else .ok .positional

/-- The duration that stands after an action, trimmed; `none` for text that is no duration at all. -/
def parseDuration? (cs : List Char) : Option (Except LineFault (Option Float)) :=
  match cs with
  | [] => some (.ok none)
  | '[' :: _ =>
    match bracketNumber? (fun value => value.isFinite && 0 ≤ value) cs with
    | some value => some (.ok (some value))
    | none => some (.error (.malformedDuration (String.ofList cs)))
  | _ => none

/-- The text before an action, if any, and the text after its opening parenthesis. -/
def splitAction? (cs : List Char) : Option (Option (List Char) × List Char) :=
  match cs with
  | '(' :: body => some (none, body)
  | _ => (splitAtFirst [':', ' ', '('] cs).map fun (before, body) => (some (trimChars before), body)

/-- What a trimmed line without waiting marker holds. Of two faults that of the duration is reported. -/
def parseAction (cs : List Char) : Except LineFault PlanLine :=
  match splitAction? cs with
  | none => .ok .other
  | some (before, body) =>
    match splitAtFirst [')'] body with
    | none => .ok .other
    | some (inside, after) =>
      match words (String.ofList inside), parseDuration? (trimChars after) with
      | [], _ => .ok .other
      | _, none => .ok .other
      | _, some (.error fault) => .error fault
      | verb :: args, some (.ok duration) =>
        match before with
        | none => .ok (.action ⟨false, .positional, duration, lower verb, args.map EntityId.ofName⟩)
        | some timeText =>
          match parseTime timeText with
          | .ok time => .ok (.action ⟨true, time, duration, lower verb, args.map EntityId.ofName⟩)
          | .error fault => .error fault

/-- What a trimmed line holds. -/
def parse (cs : List Char) : Except LineFault PlanLine :=
  match splitAtFirst waitingMarker cs with
  | some (_, rest) =>
    match bracketNumber? Float.isFinite rest with
    | some target => .ok (.waiting target)
    | none => .error (.malformedWaitTarget (String.ofList (trimChars rest)))
  | none => parseAction cs

end PlanLine

end PlanReplay
