import PlanReplay.World.Entity

/-!
# Crashes

Some operations have no result on some values, and then the program ends in the middle of what it does. A crash is not a
reason that anybody is told: it ends the action, the replay and the session in which it happens, and what they would have
reported is lost with them.
-/

namespace PlanReplay

/-- Where the program ends in the middle. -/
inductive Crash where
  /-- The number next to the floor index `index` does not have 64 bits. -/
  | floorOverflow (elevator : EntityId) (index : Int)
  /-- The time between two reports of progress is not to be counted. -/
  | uncountableInterval (seconds : Float)
deriving DecidableEq

/-- Why there is no result: it is refused for a reason, or the program has ended. -/
inductive Failure (ρ : Type) where
  | refused (reason : ρ)
  | crashed (crash : Crash)
deriving DecidableEq

/-- A failure, and its reason in other words. -/
def Failure.map {ρ σ : Type} (f : ρ → σ) : Failure ρ → Failure σ
  | refused reason => .refused (f reason)
  | crashed crash => .crashed crash

section

variable {ρ τ : Type}

/-- An outcome that may be refused, where another one may crash as well. -/
def refusing (outcome : Except ρ τ) : Except (Failure ρ) τ := outcome.mapError .refused

@[simp] theorem refusing_ok (result : τ) : refusing (.ok result : Except ρ τ) = .ok result := rfl

@[simp] theorem refusing_error (reason : ρ) : refusing (.error reason : Except ρ τ) = .error (.refused reason) := rfl

@[simp] theorem refusing_eq_ok_iff {outcome : Except ρ τ} {result : τ} :
    refusing outcome = .ok result ↔ outcome = .ok result := by
  cases outcome <;> simp

@[simp] theorem refusing_eq_refused_iff {outcome : Except ρ τ} {reason : ρ} :
    refusing outcome = .error (.refused reason) ↔ outcome = .error reason := by
  cases outcome <;> simp

@[simp] theorem refusing_ne_crashed (outcome : Except ρ τ) (crash : Crash) :
    refusing outcome ≠ .error (.crashed crash) := by
  cases outcome <;> simp

end

end PlanReplay
