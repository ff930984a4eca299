import PlanReplay.Replay.Event

/-!
# The rate of a replay

A meter counts the steps of the host and reports, once per interval, how many steps went by in a second and
how fast the virtual time went. Times of the host are whole nanoseconds.
-/

namespace PlanReplay

/-- Nanoseconds in a second. -/
def nanosPerSecond : Nat := 1000000000

/-- A time in nanoseconds as seconds: the whole seconds, and the rest as a fraction. -/
def secondsOfNanos (nanos : Nat) : Float :=
  Float.ofNat (nanos / nanosPerSecond) + Float.ofNat (nanos % nanosPerSecond) / Float.ofNat nanosPerSecond

/-- Counts the steps since the last report. -/
structure RateMeter where
  /-- When the last report was made. -/
  since : Nat
  interval : Nat
  steps : Nat
  /-- The virtual time at the last report. -/
  virtualSince : Float

/-- What a meter reports. -/
structure RateReport where
  stepsPerSecond : Float32
  virtualTime : Float
  /-- Virtual time per second of the host. -/
  virtualRate : Float
  stats : ReplayStats Float

namespace RateMeter

/-- A meter that begins at a point of time. -/
def begin (now interval : Nat) : RateMeter := ⟨now, interval, 0, 0⟩

/-- Counts a step. -/
def count (m : RateMeter) : RateMeter := { m with steps := countUp m.steps }

/-- The shortest time that rates are computed for, in seconds. -/
def shortestTime : Float := Float.scaleB 1 (-52)

/-- Reports if an interval has gone by since the last report, and begins anew. -/
def report? (m : RateMeter) (now : Nat) (stats : ReplayStats Float) : Option (RateReport × RateMeter) :=
  let elapsed := now - m.since
  if elapsed < m.interval then none
  else
    let seconds := Scalar.larger (secondsOfNanos elapsed) shortestTime
    some (⟨(Float.ofNat m.steps / seconds).toFloat32, stats.virtualTime,
        (stats.virtualTime - m.virtualSince) / seconds, stats⟩,
      ⟨now, m.interval, 0, stats.virtualTime⟩)

end RateMeter

end PlanReplay
