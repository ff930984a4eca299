import PlanReplay.Domain.Rejection

/-!
# What happens during a replay

The events of a replay, in the order in which they happen, and the counters of a replay. Events about an
action carry its position in the plan, counted from zero.
-/

namespace PlanReplay

variable {α : Type}

/-- Counters have 32 bits and stay at their largest value. -/
def countUp (n : Nat) : Nat := min (n + 1) maxUInt32

/-- The counters of a replay, and the virtual time it has reached. -/
structure ReplayStats (α : Type) where
  dispatched : Nat
  applied : Nat
  rejected : Nat
  waits : Nat
  virtualTime : α
deriving DecidableEq

namespace ReplayStats

/-- The counters before anything has happened. -/
def zero [Zero α] : ReplayStats α := ⟨0, 0, 0, 0, 0⟩

/-- Counts an action that is carried out; a wait is counted apart. -/
def countApplied (s : ReplayStats α) (isWait : Bool) : ReplayStats α :=
  if isWait then { s with waits := countUp s.waits } else { s with applied := countUp s.applied }

def countDispatched (s : ReplayStats α) : ReplayStats α := { s with dispatched := countUp s.dispatched }

def countRejected (s : ReplayStats α) : ReplayStats α := { s with rejected := countUp s.rejected }

end ReplayStats

/-- Why a replay ends before its last action. -/
inductive AbortReason where
  | noPlan
  | cancelled
deriving DecidableEq

def AbortReason.text : AbortReason → String
  | .noPlan => "no plan"
  | .cancelled => "cancelled"

/-- Something that happens during a replay. -/
inductive ReplayEvent (α : Type) where
  /-- An action is tried. -/
  | dispatched (index : Nat) (action : TimedAction α) (clock : α)
  /-- The action is accepted; its transition begins. -/
  | applied (index : Nat) (transition : Transition α)
  /-- The action is refused and changes nothing. -/
  | rejected (index : Nat) (action : TimedAction α) (reason : Rejection α)
  /-- The transition of an action is finished. -/
  | finished (index : Nat) (clock : α)
  | phaseChanged (change : PhaseChange)
  /-- Every action has been tried, and every transition is finished. -/
  | completed (clock : α) (stats : ReplayStats α)
  | aborted (reason : AbortReason)
deriving DecidableEq

/-- Whether a replay waits for its start, runs, or has ended. -/
inductive ReplayStatus where
  | idle
  | running
  | completed
  | aborted (reason : AbortReason)
  /-- The program has ended over an action. -/
  | crashed (crash : Crash)
deriving DecidableEq

namespace ReplayStatus

/-- Whether nothing more happens. -/
def isTerminal : ReplayStatus → Bool
  | completed | aborted _ | crashed _ => true
  | idle | running => false

def text : ReplayStatus → String
  | idle => "idle"
  | running => "running"
  | completed => "completed"
  | aborted reason => "aborted (" ++ reason.text ++ ")"
  | crashed _ => "crashed"

end ReplayStatus

end PlanReplay
