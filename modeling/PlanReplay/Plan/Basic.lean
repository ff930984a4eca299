import PlanReplay.Decimal.Fixed
import PlanReplay.Scalar
import PlanReplay.World.Entity

/-!
# Plans

A plan is a list of actions in the order of their start times, with the lines of the planner's text that
looked like actions and could not be used. `Plan.render` writes it with one timed action per line.
-/

namespace PlanReplay

open Decimal

/-- One action of a plan. An action without duration is instantaneous. The line is that of the planner's
text, counted from one. -/
structure TimedAction (α : Type) where
  start : α
  duration : α
  name : String
  args : List EntityId
  line : Nat
deriving DecidableEq

namespace TimedAction

variable {α : Type}

/-- The pause before a waiting marker is reached. -/
def wait (start duration : α) (line : Nat) : TimedAction α := ⟨start, duration, "wait", [], line⟩

def isWait (a : TimedAction α) : Bool := a.name = "wait"

/-- When an action that starts on time ends. -/
def finish [Scalar α] (a : TimedAction α) : α := a.start + a.duration

/-- An action as a line of a plan. Times have three places; a duration is written if it is positive. -/
def text (a : TimedAction Float) : String :=
  let start := fixedText 3 a.start
  let duration := fixedText 3 a.duration
  if a.isWait then start ++ ": wait " ++ duration
  else
    start ++ ": (" ++ " ".intercalate (a.name :: a.args.map EntityId.text) ++
      (if 0 < a.duration then ") [" ++ duration ++ "]" else ")")

end TimedAction

/-- The ways in which planners write plans. -/
inductive Dialect where
  /-- No action. -/
  | empty
  /-- Actions without times. -/
  | unordered
  /-- Actions after their start times. -/
  | classical
  /-- Actions with durations in brackets. -/
  | temporal
  /-- Waiting markers between actions. -/
  | event
deriving DecidableEq

/-- Why a line that looks like an action or a marker is not used. -/
inductive LineFault where
  | malformedTime (text : String)
  | nonFiniteTime (value : Float)
  | malformedDuration (text : String)
  | malformedWaitTarget (text : String)
deriving DecidableEq

namespace LineFault

def name : LineFault → String
  | .malformedTime _ => "MalformedTime"
  | .nonFiniteTime _ => "NonFiniteTime"
  | .malformedDuration _ => "MalformedDuration"
  | .malformedWaitTarget _ => "MalformedWaitTarget"

def message : LineFault → String
  | .malformedTime text => "start time '" ++ text ++ "' is not a number"
  | .nonFiniteTime value => "start time " ++ floatText value ++ " is not finite"
  | .malformedDuration text => "duration bracket is not a non-negative number: '" ++ text ++ "'"
  | .malformedWaitTarget text => "waiting marker has no usable [time] bracket: '" ++ text ++ "'"

end LineFault

/-- A line of a planner's text that is not used. -/
structure Diagnostic where
  fault : LineFault
  line : Nat
  text : String
deriving DecidableEq

def Diagnostic.message (d : Diagnostic) : String :=
  d.fault.name ++ ": " ++ d.fault.message ++ " (line=" ++ toString d.line ++ ", text='" ++ d.text ++ "')"

/-- The actions of a planner's text, in the order of their start times. -/
structure Plan (α : Type) where
  dialect : Dialect
  actions : List (TimedAction α)
  diagnostics : List Diagnostic
deriving DecidableEq

namespace Plan

variable {α : Type}

/-- The plan without actions. -/
def empty : Plan α := ⟨.empty, [], []⟩

/-- The latest end of an action. -/
def makespan [Scalar α] (p : Plan α) : α :=
  p.actions.foldl (fun latest a => Scalar.larger latest a.finish) 0

/-- The text of a plan, one timed action per line. -/
def render (p : Plan Float) : String := String.join (p.actions.map fun a => a.text ++ "\n")

end Plan

end PlanReplay
