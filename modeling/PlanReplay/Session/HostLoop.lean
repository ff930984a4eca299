import PlanReplay.Host.Script
import PlanReplay.Replay.Rate
import PlanReplay.Replay.Run
import PlanReplay.Session.EventLine

/-!
# The host loop

The loop steps a run by ticks of a fixed length until it is complete, and prints its events. In real time, a
frame runs as many ticks as fit the time since the frame before; what does not fit is held back for the next
frame, and what is more than a frame may run is dropped. Without real time, every frame is one tick. When the program
ends in a tick, the lines of the ticks before it have been printed.
-/

namespace PlanReplay

/-- The length of a tick in nanoseconds: a sixtieth of a second. -/
def tickNanos : Nat := 16666667

/-- The longest time that counts for one frame, in nanoseconds. -/
def longestFrame : Nat := 250000000

/-- The number of ticks that a frame may run. -/
def ticksPerFrame : Nat := 5

/-- The time of a frame that counts. -/
def clampFrame (frame longest : Nat) : Nat := min frame longest

/-- What to do in a frame: the ticks to run, the time that is held back, and the time that is dropped. -/
structure TickPlan where
  ticks : Nat
  rest : Nat
  dropped : Nat
deriving DecidableEq

/-- Takes ticks of a length out of a time, up to `limit` of them; the ticks are added to those taken before. -/
def takeTicks (tick : Nat) : (limit taken time : Nat) → Nat × Nat
  | 0, taken, time => (taken, time)
  | limit + 1, taken, time =>
    if tick ≤ time then takeTicks tick limit (taken + 1) (time - tick) else (taken, time)

/-- The plan of a frame for a time that is held. A backlog of a tick or more is dropped. -/
def planTicks (time tick limit : Nat) : TickPlan :=
  match takeTicks tick limit 0 time with
  | (ticks, rest) => if tick ≤ rest then ⟨ticks, 0, rest⟩ else ⟨ticks, rest, 0⟩

/-- A run in the host loop, with the clock of its last event. -/
structure HostLoop where
  run : Run
  clock : Float

namespace HostLoop

/-- One tick, and the lines of its events. -/
def tick (l : HostLoop) : Except Crash (HostLoop × List String) :=
  match l.run.step (secondsOfNanos tickNanos) with
  | .error crash => .error crash
  | .ok (run, events) =>
    let (lines, clock) := ReplayEvent.lines l.clock events
    .ok (⟨run, clock⟩, lines)

/-- Up to `count` ticks: the lines of their events, and the loop after them. A run that is complete is not stepped
again. -/
def ticks : Nat → HostLoop → List String × Except Crash HostLoop
  | 0, l => ([], .ok l)
  | count + 1, l =>
    match l.tick with
    | .error crash => ([], .error crash)
    | .ok (l, lines) =>
      if l.run.isComplete then (lines, .ok l)
      else
        let (later, outcome) := ticks count l
        (lines ++ later, outcome)

/-- Ticks until one has lines or the run is complete, at most `limit` of them. -/
def untilLines : Nat → HostLoop → Except Crash (HostLoop × List String)
  | 0, l => .ok (l, [])
  | limit + 1, l =>
    match l.tick with
    | .error crash => .error crash
    | .ok (l, lines) => if l.run.isComplete || !lines.isEmpty then .ok (l, lines) else untilLines limit l

/-- Prints lines until one cannot be printed. -/
def printLines : List String → Script (Except FileError Unit)
  | [] => return .ok ()
  | line :: rest => do
    match ← .request (.print (line ++ "\n")) with
    | .error error => return .error error
    | .ok () => printLines rest

/-- Runs a loop as fast as possible. Between two lines, and in lines, it is bounded by `limit`. -/
def runFast : Nat → HostLoop → Script (Except (Failure FileError) HostLoop)
  | 0, l => return .ok l
  | limit + 1, l => do
    if l.run.isComplete then return .ok l
    match untilLines (limit + 1) l with
    | .error crash => return .error (.crashed crash)
    | .ok (l, lines) =>
      match ← printLines lines with
      | .error error => return .error (.refused error)
      | .ok () => runFast limit l

/-- Runs a loop in real time, for at most `limit` frames: `last` is the time of the frame before, and `held` the
time held back by it. -/
def runPaced : Nat → (last held : Nat) → HostLoop → Script (Except (Failure FileError) HostLoop)
  | 0, _, _, l => return .ok l
  | limit + 1, last, held, l => do
    if l.run.isComplete then return .ok l
    let now ← .request .now
    let plan := planTicks (held + clampFrame (now - last) longestFrame) tickNanos ticksPerFrame
    let (lines, outcome) := l.ticks plan.ticks
    match ← printLines lines, outcome with
    | .error error, _ => return .error (.refused error)
    | .ok (), .error crash => return .error (.crashed crash)
    | .ok (), .ok l =>
      if l.run.isComplete then return .ok l
      let after ← .request .now
      if after - now < tickNanos then .request (.pause (tickNanos - (after - now)))
      runPaced limit now plan.rest l

/-- Runs a run to its end. -/
def toEnd (limit : Nat) (realtime : Bool) (run : Run) : Script (Except (Failure FileError) Run) := do
  let l : HostLoop := ⟨run, 0⟩
  let outcome ←
    if realtime then do
      let start ← .request .now
      runPaced limit start 0 l
    else
      runFast limit l
  return outcome.map (·.run)

end HostLoop

end PlanReplay
