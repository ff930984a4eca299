import PlanReplay.Proofs.Domain.Deed

/-!
# What accepted actions leave alone

An accepted action declares nothing and moves nobody but its subject. For the rest it changes levels of its own
elevator, vehicle or robot and the facts of its own, and nobody loses a place in the world.
-/

namespace PlanReplay

namespace World

variable {α : Type}

/-- What stays of a world when `subject?` is put somewhere and the scope allows the rest. -/
structure Conserves (scope : Scope) (subject? : Option EntityId) (w next : World α) : Prop where
  entities : next.entities = w.entities
  /-- A relation of only one of the worlds places the subject. -/
  relations : ∀ r, w.holds r ≠ next.holds r → ∃ x, subject? = some x ∧ r.places x = true
  facts : ∀ fact, w.hasFact fact ≠ next.hasFact fact → fact ∈ scope.facts
  /-- A fluent with different values is about the mover alone. -/
  fluents : ∀ key args, w.fluent? key args ≠ next.fluent? key args →
    ∃ mover, scope.mover? = some mover ∧ args = [mover]
  placed : ∀ entity, 0 < w.state.placements entity → next.state.placements entity = 1

variable [Scalar α] {scope : Scope} {w next : World α}

theorem Conserves.refl (hSound : w.Sound) (subject? : Option EntityId) : Conserves scope subject? w w := by
  refine ⟨rfl, fun _ h => absurd rfl h, fun _ h => absurd rfl h, fun _ _ h => absurd rfl h, ?_⟩
  intro entity hPlaced
  exact Nat.le_antisymm (hSound.state.placedOnce entity) hPlaced

/-- A batch that shifts `x` and is accepted conserves the rest. -/
theorem conserves_of_shift {x : EntityId} {effects : List (Effect α)} {landing : Option Placement}
    (hSound : w.Sound) (hShift : Shift scope x effects landing) (h : w.applyEffects effects = .ok next) :
    Conserves scope (some x) w next := by
  have hNext : next.Sound := applyEffects_sound hSound h
  obtain ⟨-, staged, hStaged, -, rfl⟩ := applyEffects_eq_ok_iff.mp h
  have hFrame := hShift.frame hStaged
  refine ⟨rfl, ?_, ?_, ?_, ?_⟩
  · intro r hDiffers
    refine ⟨x, rfl, ?_⟩
    by_contra hElsewhere
    refine hDiffers (decide_eq_decide.mpr ?_)
    exact (hFrame.relations r (Bool.eq_false_iff.mpr hElsewhere)).symm
  · intro fact hDiffers
    by_contra hForeign
    exact hDiffers (decide_eq_decide.mpr (hFrame.facts fact hForeign).symm)
  · intro key args hDiffers
    by_contra hForeign
    exact hDiffers (hFrame.fluents ⟨key, args⟩ hForeign).symm
  · intro entity hPlaced
    exact hShift.placed hStaged hNext.state hPlaced

end World

namespace ActionTable

/--
**Frame and conservation.** An accepted action, of whatever domain and in whatever reachable world, declares
nothing; only relations that place its subject come or go; only the fact about its robot's gripper or about its
person having reached its floor comes or goes; only levels of its own elevator, vehicle or robot change; and
whoever had a placement has exactly one.
-/
theorem dispatch_conserves {t table : ActionTable Float} {action : DomainAction} {a : TimedAction Float}
    {w next : World Float} {clock : Float} {applied : Applied Float} (hReachable : w.Reachable)
    (h : t.dispatch action a w clock = .ok (table, next, applied)) :
    w.Conserves action.scope applied.transition.subject next := by
  rcases deed_of_dispatch h with ⟨rfl, -⟩ | ⟨effects, hApply, hDeed⟩
  · exact .refl hReachable.sound _
  · obtain ⟨x, landing, hSubject, hShift⟩ := hDeed.shift
    rw [hSubject]
    exact World.conserves_of_shift hReachable.sound hShift hApply

/-- A robot picks up itself: it is no longer in the room, its gripper is no longer free, and it is carried. -/
theorem dispatch_conserves_of_grasped_self :
    let calls : List (WorldCall Float) :=
      [.declare ⟨"r"⟩ .robot, .declare ⟨"a"⟩ .room, .declare ⟨"b"⟩ .ball,
        .applyEffects [.relate ⟨.isAt, ⟨"r"⟩, ⟨"a"⟩⟩, .relate ⟨.isAt, ⟨"b"⟩, ⟨"a"⟩⟩,
          .assert ⟨Robot.free, [⟨"r"⟩]⟩, .assert ⟨Robot.free, [⟨"b"⟩]⟩]]
    let w := calls.foldl (fun w call => (w.perform call).1) World.empty
    let t : ActionTable Float := .robot { Robot.Table.ofConfig .default with usesGripper := true }
    let action : DomainAction := .robot (.pick ⟨"r"⟩ ⟨"a"⟩ ⟨"r"⟩)
    let a : TimedAction Float := ⟨0, 0, "pick", [⟨"r"⟩, ⟨"a"⟩, ⟨"r"⟩], 1⟩
    w.Reachable ∧ ∃ table next applied, t.dispatch action a w 0 = .ok (table, next, applied) ∧
      applied.transition.subject = some ⟨"r"⟩ ∧
      next.relations = [⟨.isAt, ⟨"b"⟩, ⟨"a"⟩⟩, ⟨.carries, ⟨"r"⟩, ⟨"r"⟩⟩] ∧
      next.facts = [⟨Robot.free, [⟨"b"⟩]⟩] ∧ w.Conserves action.scope applied.transition.subject next := by
  intro calls w t action a
  have hReachable : w.Reachable := .perform (.perform (.perform (.perform .empty _) _) _) _
  have hAccepted : t.dispatch action a w 0 = .ok (_, _, _) := rfl
  refine ⟨hReachable, _, _, _, hAccepted, ?_, ?_, ?_, dispatch_conserves hReachable hAccepted⟩
  · decide
  · decide
  · decide

end ActionTable

end PlanReplay
