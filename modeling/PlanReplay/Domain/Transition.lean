import PlanReplay.Plan.Basic
import PlanReplay.World.Violation

/-!
# Transitions

What an accepted action looks like while it runs: who moves from where to where, and when it counts as
finished. `Progress` follows a transition on the virtual clock.
-/

namespace PlanReplay

open Decimal

variable {α : Type}

/-- The kinds of transitions. -/
inductive TransitionKind where
  | move
  | attach
  | detach
  | consumeResource
  | wait
  | marker
deriving DecidableEq

def TransitionKind.name : TransitionKind → String
  | .move => "Move"
  | .attach => "Attach"
  | .detach => "Detach"
  | .consumeResource => "ConsumeResource"
  | .wait => "Wait"
  | .marker => "Marker"

/-- A state in which a transition starts or ends. -/
inductive Endpoint (α : Type) where
  | entity (id : EntityId)
  | level (value : α)
  /-- Part of the way along a route. -/
  | between (start goal : EntityId) (fraction : α)
  | nowhere
deriving DecidableEq

def Endpoint.text : Endpoint Float → String
  | .entity id => id.text
  | .level value => fixedText 2 value
  | .between start goal fraction =>
    start.text ++ "->" ++ goal.text ++ "@" ++ fixedText 0 (fraction * 100) ++ "%"
  | .nowhere => "-"

/-- When a transition counts as finished. -/
inductive Completion (α : Type) where
  /-- After a time. -/
  | elapsed (duration : α)
  /-- After a distance at a speed. -/
  | distance (threshold speed : α)
deriving DecidableEq

/-- The time a transition takes, never negative. -/
def Completion.nominal [Scalar α] : Completion α → α
  | .elapsed duration => Scalar.nonNegative duration
  | .distance threshold speed => if 0 < speed then Scalar.nonNegative (threshold / speed) else 0

/-- What an accepted action looks like. -/
structure Transition (α : Type) where
  action : String
  subject : Option EntityId
  kind : TransitionKind
  start : Endpoint α
  goal : Endpoint α
  completion : Completion α
deriving DecidableEq

/-- The time a transition takes. -/
def Transition.nominal [Scalar α] (t : Transition α) : α := t.completion.nominal

def Transition.text (t : Transition Float) : String :=
  t.action ++ " " ++ t.kind.name ++ " " ++ ((t.subject.map EntityId.text).getD "-") ++ ": " ++
    t.start.text ++ " -> " ++ t.goal.text ++ " (" ++ fixedText 3 t.nominal ++ ")"

/-- How far a transition has come. -/
structure Progress (α : Type) where
  completion : Completion α
  elapsed : α
  distance : α
deriving DecidableEq

namespace Progress

variable [Scalar α]

/-- The progress of a transition that begins. -/
def begin (completion : Completion α) : Progress α := ⟨completion, 0, 0⟩

/-- The time that is left, never negative. -/
def remaining (p : Progress α) : α :=
  match p.completion with
  | .elapsed duration => Scalar.nonNegative (duration - p.elapsed)
  | .distance threshold speed =>
    if speed ≤ 0 then 0 else Scalar.nonNegative ((threshold - p.distance) / speed)

/-- Whether the transition counts as finished. -/
def isComplete (p : Progress α) : Bool :=
  match p.completion with
  | .elapsed duration => decide (duration ≤ p.elapsed)
  | .distance threshold speed => decide (speed ≤ 0) || decide (threshold ≤ p.distance)

/-- The progress after a time `dt`, and the part of `dt` that is left over at the end. -/
def advance (p : Progress α) (dt : α) : Progress α × α :=
  let dt := Scalar.nonNegative dt
  let needed := p.remaining
  if needed ≤ dt then
    let distance :=
      match p.completion with
      | .elapsed _ => p.distance
      | .distance threshold _ => threshold
    (⟨p.completion, p.elapsed + needed, distance⟩, dt - needed)
  else
    let distance :=
      match p.completion with
      | .elapsed _ => p.distance
      | .distance _ speed => p.distance + speed * dt
    (⟨p.completion, p.elapsed + dt, distance⟩, 0)

end Progress

end PlanReplay
