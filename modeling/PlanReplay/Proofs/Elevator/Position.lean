import PlanReplay.Proofs.Double.Whole
import PlanReplay.Proofs.Elevator.Unloading

/-!
# Where an elevator is

An elevator may be told twice where it is: by a relation that puts it at a floor, and by its floor index. Getting in
and out trusts the one, moves by one floor the other. Each of the two forms of a move brings both to the same floor,
except where it is not told a floor of the order: a move between two named entities goes to whatever entity is named,
and a move by one floor counts on where the fluent `floors` says that there are more floors than the world knows.

* `World.InStep` — both accounts tell the same floor, and `World.InStep.readings` whatever reads them.
* `Elevator.Table.moveBetween_eq_ok`, `Elevator.Table.moveNext_eq_ok` — the effects of both forms of a move.
* `Elevator.Astray` — the two exceptions.
* `Simulation.run_move_inStep` — after every accepted move along a run the accounts are in step, or it is an exception.
* `Simulation.run_move_astray` — both exceptions happen to an elevator that was in step.
-/

namespace PlanReplay

open Elevator

variable {α : Type}

-- ---------------------------------------------------------------------------
-- Two accounts
-- ---------------------------------------------------------------------------

/-- An elevator is at a floor of the order, and its floor index is the place of this floor. -/
def World.InStep [Scalar α] (w : World α) (order : List EntityId) (elevator : EntityId) : Prop :=
  ∃ floor i, w.related? .isAt elevator = some floor ∧ order[i]? = some floor ∧
    w.level? elevator .floorIndex = some (Scalar.ofInt (i : Nat))

/-- What is in step is read so. The floor index leads to the floor of the relation, whether it is taken as a position in
the order, as those do who get in and out, or as the nearest whole number, as a move by one floor does. -/
theorem World.InStep.readings {w : World Float} {order : List EntityId} {elevator : EntityId}
    (h : w.InStep order elevator) (hLength : order.length ≤ 2 ^ 53) :
    ∃ floor index, w.related? .isAt elevator = some floor ∧ w.level? elevator .floorIndex = some index ∧
      order[Scalar.position index]? = some floor ∧ order[(Scalar.nearest index).toNat]? = some floor := by
  obtain ⟨floor, i, hAt, hPlace, hIndex⟩ := h
  obtain ⟨hInside, -⟩ := List.getElem?_eq_some_iff.mp hPlace
  have hBits : i < 2 ^ 53 := Nat.lt_of_lt_of_le hInside hLength
  refine ⟨floor, Float.ofNat i, hAt, hIndex, ?_, ?_⟩
  · rwa [Double.position_ofNat hBits]
  · rwa [Double.nearest_ofNat hBits, Int.toNat_natCast]

/-- The moves that leave only one account up to date, by the floors that they name. The place of a named goal is not
known; or the move counts on from a floor that is not, or to one. -/
inductive Elevator.Astray [Scalar α] (order : List EntityId) (w next : World α) (elevator : EntityId) :
    Option (EntityId × EntityId) → Prop where
  /-- The goal is no floor of the order, in a world without an order of its own. The floor index is the old one. -/
  | elsewhere {start goal : EntityId} (hGoal : goal ∉ order) (hUnordered : w.hasRelations .above = false)
      (hAt : next.related? .isAt elevator = some goal)
      (hIndex : next.level? elevator .floorIndex = w.level? elevator .floorIndex) :
      Astray order w next elevator (some (start, goal))
  /-- There are no floors and no fluent `floors`, or the fluent promises a floor that is not in the order. The elevator is
  told to be where it was. -/
  | beyond {target : Nat} (hBeyond : order.length ≤ target)
      (hCount : order = [] ∧ w.fluent? (.other "floors") [] = none ∨
        ∃ count, w.fluent? (.other "floors") [] = some count ∧ target < Scalar.truncate count)
      (hAt : next.related? .isAt elevator = w.related? .isAt elevator)
      (hIndex : next.level? elevator .floorIndex = some (Scalar.ofInt target)) :
      Astray order w next elevator none

-- ---------------------------------------------------------------------------
-- The effects of moves
-- ---------------------------------------------------------------------------

/-- Whatever stands in the `above` relation is in the order of the floors. -/
theorem World.mem_floorOrder_of_above {w : World α} {upper lower : EntityId}
    (h : w.holds ⟨.above, upper, lower⟩ = true) : upper ∈ w.floorOrder ∧ lower ∈ w.floorOrder :=
  ⟨mem_floorOrder_iff.mpr (Or.inr ⟨lower, Or.inl h⟩), mem_floorOrder_iff.mpr (Or.inr ⟨upper, Or.inr h⟩)⟩

namespace Direction

/-- The end of a move in this direction that is to be above the other one. -/
def upperEnd : Direction → EntityId → EntityId → EntityId
  | .up, _, goal => goal
  | .down, start, _ => start

/-- The end of a move in this direction that is to be below the other one. -/
def lowerEnd : Direction → EntityId → EntityId → EntityId
  | .up, start, _ => start
  | .down, _, goal => goal

theorem goal_eq_end (direction : Direction) (start goal : EntityId) :
    goal = direction.upperEnd start goal ∨ goal = direction.lowerEnd start goal := by
  cases direction with
  | up => exact Or.inl rfl
  | down => exact Or.inr rfl

end Direction

namespace Elevator.Table

variable [Scalar α] {t : Table α} {w : World α} {direction : Direction} {elevator : EntityId} {effects : List (Effect α)}

/-- A move between two floors that is accepted goes along the order where there is one. -/
theorem moveBetween_eq_ok {start goal : EntityId} (h : t.moveBetween w direction elevator start goal = .ok effects) :
    (w.hasRelations .above = true →
      t.goesAlong w (direction.upperEnd start goal) (direction.lowerEnd start goal) = true) ∧
      effects = .relate ⟨.isAt, elevator, goal⟩ ::
        indexEffects w elevator ((t.floorIndex? goal).map Int.ofNat) := by
  have hArrival : ∀ {upper lower : EntityId} {violation : Violation α} {arrival : List (Effect α)},
      (if w.hasRelations .above && !t.goesAlong w upper lower then .error violation else .ok arrival) =
        Except.ok effects →
      (w.hasRelations .above = true → t.goesAlong w upper lower = true) ∧ effects = arrival := by
    intro upper lower violation arrival hOk
    split at hOk
    · cases hOk
    · rename_i hFree
      cases hOk
      refine ⟨fun hOrdered => ?_, rfl⟩
      simpa [hOrdered] using hFree
  have hPlace : ((t.floorIndex? goal).map fun index => (index : Int) : Option Int) =
      (t.floorIndex? goal).map Int.ofNat := by
    cases t.floorIndex? goal <;> rfl
  unfold moveBetween at h
  dsimp only at h
  rw [← hPlace]
  split at h
  · split at h
    · cases direction <;> exact hArrival h
    · cases h
  · cases direction <;> exact hArrival h

/-- The effects of going to the floor at a place of the order, if there is one, for an elevator that is at a floor. -/
def arriveEffects (t : Table α) (w : World α) (elevator : EntityId) (target : Nat) : List (Effect α) :=
  match w.related? .isAt elevator, t.floorOrder[target]? with
  | some _, some floor => [.relate ⟨.isAt, elevator, floor⟩]
  | _, _ => []

/-- A move by one floor that is accepted leads to the number next to the current one, which is in range, is not below
zero and is below the number of floors. -/
theorem moveNext_eq_ok (h : t.moveNext w direction elevator = .ok effects) :
    ∃ (current : Int) (target : Nat), t.currentIndex? w elevator = some current ∧
      (target : Int) = current + direction.step ∧ Scalar.fits α (target : Int) = true ∧
      (∀ count, t.floorCount? w = some count → (target : Int) < count) ∧
      effects = t.arriveEffects w elevator target ++ indexEffects w elevator (some (target : Int)) := by
  unfold moveNext at h
  split at h
  · cases h
  · rename_i current hCurrent
    dsimp only at h
    split at h
    · cases h
    rename_i hRange
    split at h
    · cases h
    rename_i hInside
    cases h
    simp only [Bool.or_eq_true, decide_eq_true_eq, Option.any_eq_true, not_or, not_exists, not_and, Int.not_lt,
      Int.not_le] at hInside
    obtain ⟨hLow, hHigh⟩ := hInside
    have hTarget : ((current + direction.step).toNat : Int) = current + direction.step := Int.toNat_of_nonneg hLow
    refine ⟨current, (current + direction.step).toNat, hCurrent, hTarget, ?_, ?_, ?_⟩
    · rw [hTarget]
      simpa using hRange
    · intro count hCount
      rw [hTarget]
      exact hHigh count hCount
    · rw [hTarget]
      rfl

omit [Scalar α] in
/-- The place of a floor in the order is where the order has it. -/
theorem getElem?_of_floorIndex? {floor : EntityId} {i : Nat} (h : t.floorIndex? floor = some i) :
    t.floorOrder[i]? = some floor := by
  obtain ⟨hLength, hFound, -⟩ := List.findIdx?_eq_some_iff_getElem.mp h
  rw [List.getElem?_eq_getElem hLength, beq_iff_eq.mp hFound]

omit [Scalar α] in
theorem not_mem_of_floorIndex? {floor : EntityId} (h : t.floorIndex? floor = none) : floor ∉ t.floorOrder :=
  List.idxOf?_eq_none_iff.mp h

-- ---------------------------------------------------------------------------
-- After a move
-- ---------------------------------------------------------------------------

/-- An elevator that is put at a floor is there. -/
theorem related?_of_relate {next : World α} {goal : EntityId} {target : Option Int} (hSound : w.Sound)
    (h : w.applyEffects (.relate ⟨.isAt, elevator, goal⟩ :: indexEffects w elevator target) = .ok next) :
    next.related? .isAt elevator = some goal := by
  have hShift : Shift ⟨some elevator, []⟩ elevator
      (.relate ⟨.isAt, elevator, goal⟩ :: indexEffects w elevator target) (some (.isAt goal)) :=
    .enter (.isAt goal) (indexEffects_within rfl target)
  refine (World.related?_eq_some_iff (World.applyEffects_sound hSound h) rfl).mpr ?_
  exact (World.holds_of_shift_iff hSound hShift h elevator (.isAt goal)).mpr (Or.inl ⟨rfl, rfl⟩)

/-- The floor index of an elevator that has one is set to the target. -/
theorem level?_of_indexEffects {next : World α} {target : Int}
    (hIndex : (w.level? elevator .floorIndex).isSome = true) (before : List (Effect α))
    (h : w.applyEffects (before ++ indexEffects w elevator (some target)) = .ok next) :
    next.level? elevator .floorIndex = some (Scalar.ofInt target) := by
  refine World.level?_of_getLast? h ?_
  rw [indexEffects, if_pos hIndex]
  exact List.getLast?_concat

/-- A move between two floors brings both accounts in step, or its goal is no floor of the order. -/
theorem inStep_of_moveBetween {next : World α} {start goal : EntityId} (hSound : w.Sound)
    (hAbove : ∀ upper lower, w.holds ⟨.above, upper, lower⟩ = true → upper ∈ t.floorOrder ∧ lower ∈ t.floorOrder)
    (hIndex : (w.level? elevator .floorIndex).isSome = true)
    (hEffects : t.moveBetween w direction elevator start goal = .ok effects) (h : w.applyEffects effects = .ok next) :
    next.InStep t.floorOrder elevator ∨ Astray t.floorOrder w next elevator (some (start, goal)) := by
  obtain ⟨hAlong, rfl⟩ := moveBetween_eq_ok hEffects
  have hAt := related?_of_relate hSound h
  cases hPlace : t.floorIndex? goal with
  | some i =>
    rw [hPlace] at h
    have hLevel := level?_of_indexEffects hIndex [.relate ⟨.isAt, elevator, goal⟩] h
    exact Or.inl ⟨goal, i, hAt, getElem?_of_floorIndex? hPlace, hLevel⟩
  | none =>
    rw [hPlace] at h
    have hGoal := not_mem_of_floorIndex? hPlace
    refine Or.inr (.elsewhere hGoal ?_ hAt ?_)
    · -- an order of the world would have to have the goal
      refine Bool.eq_false_iff.mpr fun hOrdered => hGoal ?_
      have hGoes := hAlong hOrdered
      have hEnd := direction.goal_eq_end start goal
      generalize direction.upperEnd start goal = upper, direction.lowerEnd start goal = lower at hGoes hEnd
      have hHolds : w.holds ⟨.above, upper, lower⟩ = true := by
        unfold goesAlong at hGoes
        rcases hEnd with rfl | rfl <;> simpa [hPlace] using hGoes
      rcases hEnd with rfl | rfl
      · exact (hAbove _ _ hHolds).1
      · exact (hAbove _ _ hHolds).2
    · obtain ⟨-, staged, hStaged, -, rfl⟩ := World.applyEffects_eq_ok_iff.mp h
      refine State.fluent_of_spared ?_ hStaged
      intro effect hEffect
      obtain rfl := List.mem_singleton.mp hEffect
      exact nofun

/-- A move by one floor brings both accounts in step, or counts beyond the order. -/
theorem inStep_of_moveNext {next : World α} (hSound : w.Sound) (hAt : (w.related? .isAt elevator).isSome = true)
    (hIndex : (w.level? elevator .floorIndex).isSome = true)
    (hEffects : t.moveNext w direction elevator = .ok effects) (h : w.applyEffects effects = .ok next) :
    next.InStep t.floorOrder elevator ∨ Astray t.floorOrder w next elevator none := by
  obtain ⟨-, target, -, -, -, hBelow, rfl⟩ := moveNext_eq_ok hEffects
  have hLevel := level?_of_indexEffects hIndex _ h
  obtain ⟨current, hCurrent⟩ := Option.isSome_iff_exists.mp hAt
  unfold arriveEffects at h
  rw [hCurrent] at h
  cases hFloor : t.floorOrder[target]? with
  | some floor =>
    rw [hFloor] at h
    exact Or.inl ⟨floor, target, related?_of_relate hSound h, hFloor, hLevel⟩
  | none =>
    rw [hFloor] at h
    have hBeyond : t.floorOrder.length ≤ target := List.getElem?_eq_none_iff.mp hFloor
    have hStay : Shift ⟨some elevator, []⟩ elevator (indexEffects w elevator (some (target : Int))) none :=
      .stay (indexEffects_within rfl _)
    have hSame : next.related? .isAt elevator = w.related? .isAt elevator := by
      rw [hCurrent]
      refine (World.related?_eq_some_iff (World.applyEffects_sound hSound h) rfl).mpr ?_
      refine (World.holds_of_shift_iff hSound hStay h elevator (.isAt current)).mpr (Or.inr ⟨fun _ => rfl, ?_⟩)
      exact World.holds_of_related? hCurrent
    -- without the fluent the order tells the number of floors
    cases hCount : w.fluent? (.other "floors") [] with
    | some count =>
      refine Or.inr (.beyond hBeyond (Or.inr ⟨count, hCount, hBelow _ ?_⟩) hSame hLevel)
      rw [floorCount?, hCount]
    | none =>
      refine Or.inr (.beyond hBeyond (Or.inl ⟨by_contra fun hFloors => ?_, hCount⟩) hSame hLevel)
      have hLength := hBelow t.floorOrder.length (by rw [floorCount?, hCount]; simp [hFloors])
      omega

/-- An accepted move brings both accounts in step, or it is an exception. -/
theorem inStep_of_move {next : World α} {floors : Option (EntityId × EntityId)} (hSound : w.Sound)
    (hAbove : ∀ upper lower, w.holds ⟨.above, upper, lower⟩ = true → upper ∈ t.floorOrder ∧ lower ∈ t.floorOrder)
    (hAt : (w.related? .isAt elevator).isSome = true) (hIndex : (w.level? elevator .floorIndex).isSome = true)
    (hEffects : t.effects w (.move direction elevator floors) = .ok effects) (h : w.applyEffects effects = .ok next) :
    next.InStep t.floorOrder elevator ∨ Astray t.floorOrder w next elevator floors := by
  cases floors with
  | none => exact inStep_of_moveNext hSound hAt hIndex hEffects h
  | some ends => exact inStep_of_moveBetween hSound hAbove hIndex (refusing_eq_ok_iff.mp hEffects) h

end Elevator.Table

-- ---------------------------------------------------------------------------
-- Runs
-- ---------------------------------------------------------------------------

/-- Preparing a table of elevators changes no relation. -/
theorem ActionTable.holds_prepare [Scalar α] {t : Table α} {w start : World α} {table : ActionTable α}
    (h : (elevator t).prepare w = .ok (table, start)) (r : Relation) : start.holds r = w.holds r := by
  obtain ⟨-, staged, hStaged, -, rfl⟩ := World.applyEffects_eq_ok_iff.mp (prepare_elevator h).2
  have hKept := (State.rest_of_fluents ?_ hStaged).1
  · simp only [World.holds, hKept]
  · intro effect hEffect
    obtain ⟨lift, -, hSeed⟩ := List.mem_flatMap.mp hEffect
    rcases Table.mem_seedEffects hSeed with rfl | rfl <;> exact Option.some_ne_none _

namespace Simulation

/--
**The two accounts of where an elevator is.** Take any calls on a table of elevators that was prepared for a reachable
world, and an accepted move after them of an elevator that is at a floor and has a floor index. Afterwards the floor
index is the place, in the order of the floors, of the floor that it is at; unless the move was one of the exceptions.
A move between two named entities is one if its goal is not in the order, which takes a world that tells no floors
above others; only the relation is up to date then. A move by one floor is one if there are not that many floors in the
order, which takes a fluent `floors` that promises more, or no floors and no such fluent; only the floor index is up to
date then.
-/
theorem run_move_inStep {t : Table Float} {table : ActionTable Float} {w start : World Float}
    (hReachable : w.Reachable) (hPrepare : (ActionTable.elevator t).prepare w = .ok (table, start))
    (calls : List (SimulationCall Float)) {direction : Direction} {e : EntityId}
    {floors : Option (EntityId × EntityId)} {next : Simulation Float}
    (hDispatch : ((Simulation.mk table start).run calls).Dispatches (.elevator (.move direction e floors)) next)
    (hAt : (((Simulation.mk table start).run calls).world.related? .isAt e).isSome = true)
    (hIndex : (((Simulation.mk table start).run calls).world.level? e .floorIndex).isSome = true) :
    next.world.InStep w.floorOrder e ∨
      Astray w.floorOrder ((Simulation.mk table start).run calls).world next.world e floors := by
  obtain ⟨hTable, hApply⟩ := ActionTable.prepare_elevator hPrepare
  have hSound : ((Simulation.mk table start).run calls).world.Sound :=
    run_sound (World.applyEffects_sound hReachable.sound hApply) calls
  obtain ⟨timed, clock, applied, hAccepted⟩ := hDispatch
  rw [(run_elevator (s := ⟨table, start⟩) hTable calls).1] at hAccepted
  rcases (ActionTable.dispatch_elevator hAccepted).2 with ⟨hWait, -⟩ | ⟨act, effects, hAct, hEffects, hMoved⟩
  · cases hWait
  · cases hAct
    refine Table.inStep_of_move hSound ?_ hAt hIndex hEffects hMoved
    -- what is above what has not changed since the order was made
    intro upper lower hHolds
    rw [run_holds_of_unplaced _ _ fun _ => rfl, ActionTable.holds_prepare hPrepare] at hHolds
    exact World.mem_floorOrder_of_above hHolds

/-- An elevator goes up by one floor, and down again between two named floors. -/
theorem run_move_inStep_of_two_floors :
    let lift : Problem := ⟨"lift", "elevator", [⟨"e", "elevator"⟩, ⟨"f1", "floor"⟩, ⟨"f2", "floor"⟩],
      [⟨"at", ["e", "f1"]⟩, ⟨"above", ["f2", "f1"]⟩], [⟨"floor-index", ["e"], 0⟩], []⟩
    let call (name : String) (action : Action) : SimulationCall Float :=
      .dispatch (.elevator action) ⟨0, 0, name, action.referenced, 1⟩ 0
    let up : Action := .move .up ⟨"e"⟩ none
    let down : Action := .move .down ⟨"e"⟩ (some (⟨"f2"⟩, ⟨"f1"⟩))
    ∃ w table start, World.ofProblem lift = .ok w ∧ w.Reachable ∧
      (ActionTable.elevator (.ofConfig .default)).prepare w = .ok (table, start) ∧
      let last := (Simulation.mk table start).run [call "up" up]
      let next := last.perform (call "down" down)
      last.Dispatches (.elevator down) next ∧ last.world.related? .isAt ⟨"e"⟩ = some ⟨"f2"⟩ ∧
        last.world.level? ⟨"e"⟩ .floorIndex = some 1 ∧ next.world.related? .isAt ⟨"e"⟩ = some ⟨"f1"⟩ ∧
        next.world.level? ⟨"e"⟩ .floorIndex = some 0 ∧
        (next.world.InStep w.floorOrder ⟨"e"⟩ ∨
          Astray w.floorOrder last.world next.world ⟨"e"⟩ (some (⟨"f2"⟩, ⟨"f1"⟩))) := by
  intro lift call up down
  have hRun : (ofProblem? lift (.elevator (.ofConfig .default))).any (fun begun => decide (
      (begun.2.run [call "up" up]).accepted? (call "down" down) = some (.elevator down) ∧
      (begun.2.run [call "up" up]).world.related? .isAt ⟨"e"⟩ = some ⟨"f2"⟩ ∧
      (begun.2.run [call "up" up]).world.level? ⟨"e"⟩ .floorIndex = some 1 ∧
      ((begun.2.run [call "up" up]).perform (call "down" down)).world.related? .isAt ⟨"e"⟩ = some ⟨"f1"⟩ ∧
      ((begun.2.run [call "up" up]).perform (call "down" down)).world.level? ⟨"e"⟩ .floorIndex = some 0)) = true := by
    decide +kernel
  obtain ⟨w, table, start, hWorld, hPrepare, hFacts⟩ := exists_of_ofProblem? hRun
  obtain ⟨hAccepted, hAt, hIndex, hAfter, hLevel⟩ := of_decide_eq_true hFacts
  have hReachable : w.Reachable := .ofProblem hWorld
  have hDispatch := dispatches_of_accepted? hAccepted
  exact ⟨w, table, start, hWorld, hReachable, hPrepare, hDispatch, hAt, hIndex, hAfter, hLevel,
    run_move_inStep hReachable hPrepare _ hDispatch (Option.isSome_of_eq_some hAt) (Option.isSome_of_eq_some hIndex)⟩

/-- An elevator is at the only floor, and its floor index says so. It goes up to a second floor that the fluent `floors`
promises, and its relation stays; or it goes to a place that is no floor, and its floor index stays. -/
theorem run_move_astray :
    let lift : Problem := ⟨"lift", "elevator", [⟨"e", "elevator"⟩, ⟨"f1", "floor"⟩, ⟨"x", "location"⟩],
      [⟨"at", ["e", "f1"]⟩], [⟨"floor-index", ["e"], 0⟩, ⟨"floors", [], 2⟩], []⟩
    let call (name : String) (action : Action) : SimulationCall Float :=
      .dispatch (.elevator action) ⟨0, 0, name, action.referenced, 1⟩ 0
    let up : Action := .move .up ⟨"e"⟩ none
    let away : Action := .move .up ⟨"e"⟩ (some (⟨"f1"⟩, ⟨"x"⟩))
    ∃ w table start, World.ofProblem lift = .ok w ∧
      (ActionTable.elevator (.ofConfig .default)).prepare w = .ok (table, start) ∧
      let first : Simulation Float := ⟨table, start⟩
      first.world.InStep w.floorOrder ⟨"e"⟩ ∧
        first.Dispatches (.elevator up) (first.perform (call "move-up" up)) ∧
        ¬ (first.perform (call "move-up" up)).world.InStep w.floorOrder ⟨"e"⟩ ∧
        first.Dispatches (.elevator away) (first.perform (call "move-up" away)) ∧
        ¬ (first.perform (call "move-up" away)).world.InStep w.floorOrder ⟨"e"⟩ := by
  intro lift call up away
  have hRun : (ofProblem? lift (.elevator (.ofConfig .default))).any (fun begun => decide (
      begun.1.floorOrder = [⟨"f1"⟩] ∧ begun.2.world.related? .isAt ⟨"e"⟩ = some ⟨"f1"⟩ ∧
      begun.2.world.level? ⟨"e"⟩ .floorIndex = some (Float.ofInt 0) ∧
      begun.2.accepted? (call "move-up" up) = some (.elevator up) ∧
      (begun.2.perform (call "move-up" up)).world.level? ⟨"e"⟩ .floorIndex = some 1 ∧
      begun.2.accepted? (call "move-up" away) = some (.elevator away) ∧
      (begun.2.perform (call "move-up" away)).world.related? .isAt ⟨"e"⟩ = some ⟨"x"⟩)) = true := by
    decide +kernel
  obtain ⟨w, table, start, hWorld, hPrepare, hFacts⟩ := exists_of_ofProblem? hRun
  obtain ⟨hOrder, hAt, hIndex, hUp, hSecond, hAway, hPlace⟩ := of_decide_eq_true hFacts
  refine ⟨w, table, start, hWorld, hPrepare, ?_⟩
  dsimp only at hOrder ⊢
  rw [hOrder]
  refine ⟨⟨⟨"f1"⟩, 0, hAt, rfl, hIndex⟩, dispatches_of_accepted? hUp, ?_, dispatches_of_accepted? hAway, ?_⟩
  · rintro ⟨floor, i, -, hFloor, hLevel⟩
    -- the only place of the order is the first one
    rw [List.getElem?_singleton] at hFloor
    split at hFloor
    · subst i
      rw [hSecond] at hLevel
      exact absurd hLevel (by decide)
    · cases hFloor
  · rintro ⟨floor, i, hFound, hFloor, -⟩
    rw [hPlace] at hFound
    cases hFound
    exact absurd (List.mem_singleton.mp (List.mem_of_getElem? hFloor)) (by decide)

end Simulation

end PlanReplay
