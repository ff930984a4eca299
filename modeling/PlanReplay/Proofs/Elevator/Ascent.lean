import PlanReplay.Proofs.Elevator.Position

/-!
# Moves up and down

Where floors are above one another, a move between two floors is let through if it goes along the order of the floors.
The order is one line, and `above` need not be: two floors may be above one another in neither way, and the order has
one of them first all the same, by heights and names. So a move up leads to a floor that is above the first one, or to
one that is not comparable with it and stands after it in the order; it never leads down.

* `Elevator.Table.goesAlong_iff` — a move along the order of a layered world.
* `World.Layered.higher_or_apart` — what follows for `above` itself.
* `Simulation.run_move_upwards` — accepted moves along a run.
* `Simulation.run_move_sideways` — a move up to a floor that is above nothing.
-/

namespace PlanReplay

open Elevator

variable {α : Type}

namespace World

/-- A floor is above another one, directly or through others. -/
def Higher (w : World α) : EntityId → EntityId → Prop := Relation.TransGen w.Above

variable {w : World α} {upper lower : EntityId}

/-- In a layered world the higher floor comes later in the order. -/
theorem Layered.idxOf_lt_of_higher (h : w.Layered) (hHigher : w.Higher upper lower) :
    w.floorOrder.idxOf lower < w.floorOrder.idxOf upper := by
  induction hHigher with
  | single hAbove => exact h.idxOf_lt hAbove
  | tail _ hAbove ih => exact (h.idxOf_lt hAbove).trans ih

/-- What comes later in the order of a layered world is higher, or neither floor is higher than the other. -/
theorem Layered.higher_or_apart (h : w.Layered) (hLess : w.floorOrder.idxOf lower < w.floorOrder.idxOf upper) :
    w.Higher upper lower ∨ ¬ w.Higher upper lower ∧ ¬ w.Higher lower upper := by
  have hNotBelow : ¬ w.Higher lower upper := fun hBelow => Nat.lt_asymm hLess (h.idxOf_lt_of_higher hBelow)
  exact (em (w.Higher upper lower)).imp_right fun hNotAbove => ⟨hNotAbove, hNotBelow⟩

/-- Which of two floors stands lower is settled by `above`. -/
theorem standsLower_congr {w' : World α} (h : w'.Above = w.Above) :
    w'.StandsLower lower upper ↔ w.StandsLower lower upper := by
  simp only [StandsLower, IsHeight, h]

end World

-- ---------------------------------------------------------------------------
-- Moves along the order
-- ---------------------------------------------------------------------------

namespace Elevator.Table

variable {t : Table α} {w : World α} {floor upper lower : EntityId}

theorem floorIndex?_of_mem (h : floor ∈ t.floorOrder) : t.floorIndex? floor = some (t.floorOrder.idxOf floor) := by
  obtain ⟨i, hPlace⟩ := Option.isSome_iff_exists.mp (List.isSome_idxOf?.mpr h)
  rw [List.idxOf_eq_getD_idxOf?, floorIndex?, hPlace, Option.getD_some]

/-- Where the order has all that is above something, a move goes along it iff both ends are in it, the lower one first. -/
theorem goesAlong_iff
    (hAbove : ∀ upper lower, w.holds ⟨.above, upper, lower⟩ = true → upper ∈ t.floorOrder ∧ lower ∈ t.floorOrder) :
    t.goesAlong w upper lower = true ↔
      upper ∈ t.floorOrder ∧ lower ∈ t.floorOrder ∧ t.floorOrder.idxOf lower < t.floorOrder.idxOf upper := by
  by_cases hEnds : upper ∈ t.floorOrder ∧ lower ∈ t.floorOrder
  · obtain ⟨hUpper, hLower⟩ := hEnds
    rw [goesAlong, floorIndex?_of_mem hUpper, floorIndex?_of_mem hLower]
    simp [hUpper, hLower]
  · -- one end has no place, and then `above` itself is asked
    have hAsked : t.goesAlong w upper lower = w.holds ⟨.above, upper, lower⟩ := by
      rw [goesAlong]
      split
      · rename_i i j hUpper hLower
        exact absurd ⟨List.isSome_idxOf?.mp (Option.isSome_of_eq_some hUpper),
          List.isSome_idxOf?.mp (Option.isSome_of_eq_some hLower)⟩ hEnds
      · rfl
    rw [hAsked]
    exact iff_of_false (fun hHolds => hEnds (hAbove _ _ hHolds)) fun hPlaces => hEnds ⟨hPlaces.1, hPlaces.2.1⟩

end Elevator.Table

-- ---------------------------------------------------------------------------
-- Runs
-- ---------------------------------------------------------------------------

namespace Simulation

/-- What is above what is fixed before a run. -/
theorem above_run {t : Table Float} {table : ActionTable Float} {w start : World Float}
    (h : (ActionTable.elevator t).prepare w = .ok (table, start)) (calls : List (SimulationCall Float)) :
    ((Simulation.mk table start).run calls).world.Above = w.Above := by
  funext upper lower
  rw [World.Above, run_holds_of_unplaced _ _ fun _ => rfl]
  exact congrArg (· = true) (ActionTable.holds_prepare h _)

/--
**Moves go upwards, or sideways.** Take any calls on a table of elevators that was prepared for a world, and an accepted
move after them between two named floors, where some floors are above others and none is above itself, directly or
through others. The goal of a move up stands higher in the order than the start, and for a move down it is the other way
round. So the one floor is above the other, directly or through others; or neither is above the other, and then the
longest way down from the one is longer than that from the other, or as long, with the names in this order.
-/
theorem run_move_upwards {t : Table Float} {table : ActionTable Float} {w first : World Float}
    (hPrepare : (ActionTable.elevator t).prepare w = .ok (table, first)) (calls : List (SimulationCall Float))
    {direction : Direction} {e start goal : EntityId} {next : Simulation Float}
    (hDispatch : ((Simulation.mk table first).run calls).Dispatches
      (.elevator (.move direction e (some (start, goal)))) next)
    (hOrdered : ((Simulation.mk table first).run calls).world.hasRelations .above = true)
    (hLayered : ((Simulation.mk table first).run calls).world.Layered) :
    let world := ((Simulation.mk table first).run calls).world
    let upper := direction.upperEnd start goal
    let lower := direction.lowerEnd start goal
    world.StandsLower lower upper ∧
      (world.Higher upper lower ∨ ¬ world.Higher upper lower ∧ ¬ world.Higher lower upper) := by
  have hSame := above_run hPrepare calls
  obtain ⟨hTable, -⟩ := ActionTable.prepare_elevator hPrepare
  obtain ⟨timed, clock, applied, hAccepted⟩ := hDispatch
  rw [(run_elevator (s := ⟨table, first⟩) hTable calls).1] at hAccepted
  simp only [World.Layered, World.Higher, World.standsLower_congr hSame, hSame] at hLayered ⊢
  have hInitial : w.Layered := hLayered
  rcases (ActionTable.dispatch_elevator hAccepted).2 with ⟨hWait, -⟩ | ⟨act, effects, hAct, hEffects, -⟩
  · cases hWait
  · cases hAct
    have hAlong := (Table.moveBetween_eq_ok (refusing_eq_ok_iff.mp hEffects)).1 hOrdered
    rw [Table.goesAlong_iff] at hAlong
    · obtain ⟨hUpper, hLower, hLess⟩ := hAlong
      exact ⟨(hInitial.idxOf_lt_iff hLower hUpper).mp hLess, hInitial.higher_or_apart hLess⟩
    · intro upper lower hHolds
      have hAbove : w.Above upper lower := hSame ▸ hHolds
      exact World.mem_floorOrder_of_above hAbove

/-- An elevator goes up two floors at once, and down to the annex, which is above nothing and below nothing. -/
theorem run_move_upwards_of_annex :
    let lift : Problem := ⟨"lift", "elevator",
      [⟨"e", "elevator"⟩, ⟨"f1", "floor"⟩, ⟨"f2", "floor"⟩, ⟨"f3", "floor"⟩, ⟨"annex", "floor"⟩],
      [⟨"at", ["e", "f1"]⟩, ⟨"above", ["f2", "f1"]⟩, ⟨"above", ["f3", "f2"]⟩], [], []⟩
    let call (name : String) (action : Action) : SimulationCall Float :=
      .dispatch (.elevator action) ⟨0, 0, name, action.referenced, 1⟩ 0
    let up : Action := .move .up ⟨"e"⟩ (some (⟨"f1"⟩, ⟨"f3"⟩))
    let down : Action := .move .down ⟨"e"⟩ (some (⟨"f3"⟩, ⟨"annex"⟩))
    ∃ w table first, World.ofProblem lift = .ok w ∧
      (ActionTable.elevator (.ofConfig .default)).prepare w = .ok (table, first) ∧
      let last := (Simulation.mk table first).run [call "move-up" up]
      let next := last.perform (call "move-down" down)
      last.world.related? .isAt ⟨"e"⟩ = some ⟨"f3"⟩ ∧ last.Dispatches (.elevator down) next ∧
        last.world.hasRelations .above = true ∧ last.world.Layered ∧
        last.world.StandsLower ⟨"annex"⟩ ⟨"f3"⟩ ∧
        (last.world.Higher ⟨"f3"⟩ ⟨"annex"⟩ ∨
          ¬ last.world.Higher ⟨"f3"⟩ ⟨"annex"⟩ ∧ ¬ last.world.Higher ⟨"annex"⟩ ⟨"f3"⟩) := by
  intro lift call up down
  have hRun : (ofProblem? lift (.elevator (.ofConfig .default))).any (fun begun => decide (
      (begun.2.run [call "move-up" up]).world.related? .isAt ⟨"e"⟩ = some ⟨"f3"⟩ ∧
      (begun.2.run [call "move-up" up]).accepted? (call "move-down" down) = some (.elevator down) ∧
      (begun.2.run [call "move-up" up]).world.hasRelations .above = true ∧
      ∀ r ∈ (begun.2.run [call "move-up" up]).world.relations, r.kind = .above →
        begun.1.floorOrder.idxOf r.object < begun.1.floorOrder.idxOf r.subject)) = true := by
    decide
  obtain ⟨w, table, first, hWorld, hPrepare, hFacts⟩ := exists_of_ofProblem? hRun
  obtain ⟨hAt, hAccepted, hOrdered, hRanks⟩ := of_decide_eq_true hFacts
  have hDispatch := dispatches_of_accepted? hAccepted
  have hLayered : ((Simulation.mk table first).run [call "move-up" up]).world.Layered :=
    World.layered_of_rank w.floorOrder.idxOf hRanks
  exact ⟨w, table, first, hWorld, hPrepare, hAt, hDispatch, hOrdered, hLayered,
    run_move_upwards hPrepare _ hDispatch hOrdered hLayered⟩

/-- One floor is above another, and a third one is mentioned nowhere. A move up from the lowest floor to the third one is
accepted, and the third one is above nothing. -/
theorem run_move_sideways :
    let lift : Problem := ⟨"lift", "elevator",
      [⟨"e", "elevator"⟩, ⟨"f1", "floor"⟩, ⟨"f2", "floor"⟩, ⟨"f3", "floor"⟩],
      [⟨"at", ["e", "f1"]⟩, ⟨"above", ["f2", "f1"]⟩], [], []⟩
    let up : Action := .move .up ⟨"e"⟩ (some (⟨"f1"⟩, ⟨"f3"⟩))
    let call : SimulationCall Float := .dispatch (.elevator up) ⟨0, 0, "move-up", up.referenced, 1⟩ 0
    ∃ w table start, World.ofProblem lift = .ok w ∧
      (ActionTable.elevator (.ofConfig .default)).prepare w = .ok (table, start) ∧
      let first : Simulation Float := ⟨table, start⟩
      first.world.hasRelations .above = true ∧ first.world.Layered ∧
        first.Dispatches (.elevator up) (first.perform call) ∧
        (first.perform call).world.related? .isAt ⟨"e"⟩ = some ⟨"f3"⟩ ∧
        ¬ Relation.TransGen first.world.Above ⟨"f3"⟩ ⟨"f1"⟩ := by
  intro lift up call
  have hRun : (ofProblem? lift (.elevator (.ofConfig .default))).any (fun begun => decide (
      begun.2.world.hasRelations .above = true ∧
      (∀ r ∈ begun.2.world.relations, r.kind = .above →
        begun.1.floorOrder.idxOf r.object < begun.1.floorOrder.idxOf r.subject) ∧
      begun.2.accepted? call = some (.elevator up) ∧
      (begun.2.perform call).world.related? .isAt ⟨"e"⟩ = some ⟨"f3"⟩ ∧
      ∀ r ∈ begun.2.world.relations, r.kind = .above → r.subject ≠ ⟨"f3"⟩)) = true := by
    decide
  obtain ⟨w, table, start, hWorld, hPrepare, hFacts⟩ := exists_of_ofProblem? hRun
  obtain ⟨hOrdered, hRanks, hAccepted, hAt, hNothing⟩ := of_decide_eq_true hFacts
  refine ⟨w, table, start, hWorld, hPrepare, hOrdered, World.layered_of_rank w.floorOrder.idxOf hRanks,
    dispatches_of_accepted? hAccepted, hAt, ?_⟩
  intro hHigher
  obtain ⟨lower, hAbove, -⟩ := Relation.TransGen.head'_iff.mp hHigher
  exact hNothing _ (World.mem_relations_of_above hAbove) rfl rfl

end Simulation

end PlanReplay
