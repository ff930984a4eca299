import PlanReplay.Ordered.Sort
import PlanReplay.Plan.Line

/-!
# From a planner's text to a plan

The lines are placed on one time axis. An offset counts from the target of the last waiting marker; an
action without a time starts at its place among the actions; a marker becomes a wait from the latest start
so far to its target. The placed actions are then put in the order of their start times, lines first to last
where times agree.
-/

namespace PlanReplay

open Text

/-- Where the next line is placed. -/
structure PlanCursor where
  /-- The number of actions so far. -/
  position : Nat
  /-- The target of the last waiting marker. -/
  base : Float
  /-- The latest start or target so far. -/
  last : Float

/-- An action on the time axis; `openEnded` tells that its line gave no duration. -/
structure PlacedAction where
  action : TimedAction Float
  openEnded : Bool

namespace Plan

/-- Places one line: the next cursor and what the line adds. -/
def placeLine (cursor : PlanCursor) (number : Nat) : PlanLine → PlanCursor × Option PlacedAction
  | .other => (cursor, none)
  | .waiting target =>
    let gap := target - cursor.last
    (⟨cursor.position, target, Scalar.larger cursor.last target⟩,
      if 0 < gap then some ⟨.wait cursor.last gap number, false⟩ else none)
  | .action a =>
    let start :=
      match a.time with
      | .explicit offset => cursor.base + offset
      | .positional => Float.ofNat cursor.position
    (⟨cursor.position + 1, cursor.base, Scalar.larger cursor.last start⟩,
      some ⟨⟨start, a.duration.getD 0, a.name, a.args, number⟩, a.duration.isNone⟩)

/-- Places the lines from `number` on. -/
def placeLines : PlanCursor → Nat → List PlanLine → List PlacedAction
  | _, _, [] => []
  | cursor, number, line :: rest =>
    match placeLine cursor number line with
    | (next, some placed) => placed :: placeLines next (number + 1) rest
    | (next, none) => placeLines next (number + 1) rest

/-- The dialect in which lines are written. -/
def dialectOf (lines : List PlanLine) (isEmpty : Bool) : Dialect :=
  if lines.any fun | .waiting _ => true | _ => false then .event
  else if lines.any fun | .action a => a.duration.isSome | _ => false then .temporal
  else if lines.any fun | .action a => a.prefixed | _ => false then .classical
  else if isEmpty then .empty
  else .unordered

/-- The rank of a double in the order of all doubles: along the numbers, the zero with a sign before the
one without, and what is no number at the ends. -/
def startRank (x : Float) : Int :=
  let bits := x.toBits.toNat
  if bits < twoTo 63 then bits else -((bits - twoTo 63 : Nat) : Int) - 1

/-- Puts actions in the order of their start times; those that agree keep their order. -/
def sortByStart (actions : List (TimedAction Float)) : List (TimedAction Float) :=
  sortByKey (fun a => startRank a.start) actions

/-- A line, trimmed, with what it holds. -/
def readLine (raw : String) : String × Except LineFault PlanLine :=
  let text := trim raw
  (text, PlanLine.parse text.toList)

/-- What a line adds to the plan; a faulty line adds nothing. -/
def usable : Except LineFault PlanLine → PlanLine
  | .ok line => line
  | .error _ => .other

/-- The plan of a list of lines. In the temporal dialect, actions without a duration get `fallback`. -/
def ofLines (fallback : Float) (lines : List String) : Plan Float :=
  let readings := lines.map readLine
  let used := readings.map fun (_, reading) => usable reading
  let placed := placeLines ⟨0, 0, 0⟩ 1 used
  let dialect := dialectOf used placed.isEmpty
  { dialect := dialect
    actions := sortByStart (placed.map fun entry =>
      if entry.openEnded = true ∧ dialect = .temporal then { entry.action with duration := fallback }
      else entry.action)
    diagnostics := readings.zipIdx.filterMap fun ((text, reading), index) =>
      match reading with
      | .error fault => some ⟨fault, index + 1, text⟩
      | .ok _ => none }

/-- The plan of a planner's text. -/
def ofText (fallback : Float) (text : String) : Plan Float := ofLines fallback (Text.lines text)

end Plan

end PlanReplay
