import PlanReplay.Decimal.Fixed
import PlanReplay.Replay.Event
import PlanReplay.Text.Search

/-!
# Event lines

A session prints one line for each event that a reader wants to see, with the clock of the last event that had
one.
-/

namespace PlanReplay

open Decimal Text

/-- A point of the clock as event lines begin with it: three places, in nine columns. -/
def clockText (clock : Float) : String := "[" ++ padLeft 9 (fixedText 3 clock) ++ "] "

namespace ReplayEvent

/-- The clock after an event. -/
def clockAfter (clock : Float) : ReplayEvent Float → Float
  | dispatched _ _ now | finished _ now => now
  | _ => clock

/-- The line of an event. -/
def line? (clock : Float) : ReplayEvent Float → Option String
  | dispatched _ _ _ | finished _ _ => none
  | applied index transition => some (clockText clock ++ "#" ++ toString index ++ " " ++ transition.text)
  | rejected index action reason =>
    some (clockText clock ++ "#" ++ toString index ++ " rejected " ++ action.text ++ ": " ++ reason.message)
  | phaseChanged change =>
    some (clockText clock ++ "robot " ++ change.robot.text ++ " " ++ change.before.name ++ " -> " ++
      change.after.name)
  | completed clock stats =>
    some ("completed at " ++ fixedText 3 clock ++ ": dispatched=" ++ toString stats.dispatched ++ " applied=" ++
      toString stats.applied ++ " rejected=" ++ toString stats.rejected ++ " waits=" ++ toString stats.waits)
  | aborted reason => some ("aborted: " ++ reason.text)

/-- The lines of events that follow each other, and the clock after them. -/
def lines (clock : Float) : List (ReplayEvent Float) → List String × Float
  | [] => ([], clock)
  | event :: rest =>
    let clock := event.clockAfter clock
    match lines clock rest with
    | (lines, last) => ((event.line? clock).toList ++ lines, last)

end ReplayEvent

end PlanReplay
