import PlanReplay.Proofs.Elevator.Position

/-!
# How a floor index is read

An elevator that is at no floor is where its floor index points in the order of the floors. The index is a number, and
it is made a place in the order in two ways: those who get in and out take it without its fraction, and a move by one
floor takes the nearest whole number. Both lead to one floor iff the fraction is below a half, or to none, beyond the
order.

* `getElem?_eq_succ_iff` — a list without repetitions has different entries at neighbouring places.
* `Elevator.Table.readings_agree_iff` — when both readings lead to the same floor.
* `Simulation.run_readings_apart` — someone gets out on one floor, and the elevator leaves from the next one.
-/

namespace PlanReplay

open Elevator

/-- Neighbouring places of a list without repetitions hold the same iff they are both beyond it. -/
theorem getElem?_eq_succ_iff {β : Type} {l : List β} (h : l.Nodup) (k : Nat) : l[k]? = l[k + 1]? ↔ l.length ≤ k := by
  constructor
  · intro hSame
    by_contra hInside
    exact (Nat.succ_ne_self k).symm ((List.getElem?_inj (Nat.lt_of_not_le hInside) h).mp hSame)
  · intro hBeyond
    rw [List.getElem?_eq_none hBeyond, List.getElem?_eq_none (Nat.le_succ_of_le hBeyond)]

/-- A place that is brought down to a bound beyond the list holds what it held. -/
theorem getElem?_min {β : Type} {l : List β} {bound : Nat} (h : l.length ≤ bound) (k : Nat) :
    l[min bound k]? = l[k]? := by
  rcases le_total bound k with hBeyond | hInside
  · rw [min_eq_left hBeyond, List.getElem?_eq_none h, List.getElem?_eq_none (h.trans hBeyond)]
  · rw [min_eq_right hInside]

/--
**Two readings of a floor index.** Take a table of elevators that was prepared for any world, and an elevator that is at
no floor and has a floor index, a finite number that is not below zero. Getting in and out takes the elevator to be at
the floor of the order at the floor of the index, and a move by one floor counts from the place at the floor of a half
more. So both take it to be at the same floor iff the fraction of the index is below a half, or there is no floor at
either place. (An order has fewer floors than there are numbers of 64 bits.)
-/
theorem Elevator.Table.readings_agree_iff (t : Table Float) (built w : World Float) {e : EntityId} {index : Float}
    (hAt : w.related? .isAt e = none) (hIndex : w.level? e .floorIndex = some index)
    (hFinite : index.isFinite = true) (hNonneg : 0 ≤ index) (hLength : (built.floorOrder.length : Int) ≤ maxInt64) :
    let prepared := (t.prepare built).1
    let number := Double.value (Double.parts index)
    ∃ current : Nat, prepared.currentIndex? w e = some (current : Int) ∧
      prepared.elevatorFloor? w e = built.floorOrder[⌊number⌋₊]? ∧
      built.floorOrder[current]? = built.floorOrder[⌊number + 1 / 2⌋₊]? ∧
      (prepared.elevatorFloor? w e = built.floorOrder[current]? ↔
        Int.fract number < 1 / 2 ∨ built.floorOrder.length ≤ ⌊number⌋₊) := by
  intro prepared number
  have hNotBelow : ¬ index < 0 := (Double.not_lt_iff_le (by decide) hFinite).mpr hNonneg
  have hBound : built.floorOrder.length ≤ maxInt64.toNat := by omega
  have hFloor : prepared.elevatorFloor? w e = built.floorOrder[⌊number⌋₊]? := by
    unfold elevatorFloor?
    rw [hAt, hIndex]
    dsimp only
    rw [if_neg hNotBelow, Double.position_eq hFinite hNonneg]
    exact getElem?_min (hBound.trans (by decide)) _
  have hCurrent : prepared.currentIndex? w e = some ((min maxInt64.toNat ⌊number + 1 / 2⌋₊ : Nat) : Int) := by
    unfold currentIndex?
    rw [hIndex]
    dsimp only
    rw [Double.nearest_eq hFinite hNonneg, Nat.cast_min]
    rfl
  have hPlace := getElem?_min hBound ⌊number + 1 / 2⌋₊
  refine ⟨_, hCurrent, hFloor, hPlace, ?_⟩
  rw [hFloor, hPlace, Double.floor_add_half (Double.value_nonneg hFinite hNonneg)]
  split
  · rename_i hLow
    exact iff_of_true rfl (Or.inl hLow)
  · rename_i hHigh
    rw [getElem?_eq_succ_iff built.nodup_floorOrder, or_iff_right hHigh]

/-- A floor index of five quarters is read as the second of three floors by everyone. -/
theorem Elevator.Table.readings_agree_of_quarters :
    let calls : List (WorldCall Float) :=
      [.declare ⟨"e"⟩ .elevator, .declare ⟨"f1"⟩ .floor, .declare ⟨"f2"⟩ .floor, .declare ⟨"f3"⟩ .floor,
        .setLevel ⟨"e"⟩ .floorIndex 1.25]
    let w := calls.foldl (fun w call => (w.perform call).1) .empty
    let prepared := ((Table.ofConfig .default).prepare w).1
    w.related? .isAt ⟨"e"⟩ = none ∧ w.level? ⟨"e"⟩ .floorIndex = some 1.25 ∧ (1.25 : Float).isFinite = true ∧
      (0 : Float) ≤ 1.25 ∧ (w.floorOrder.length : Int) ≤ maxInt64 ∧
      prepared.elevatorFloor? w ⟨"e"⟩ = some ⟨"f2"⟩ ∧
      ∃ current : Nat, prepared.currentIndex? w ⟨"e"⟩ = some (current : Int) ∧
        prepared.elevatorFloor? w ⟨"e"⟩ = w.floorOrder[current]? := by
  intro calls w prepared
  have hAt : w.related? .isAt ⟨"e"⟩ = none := by decide
  have hIndex : w.level? ⟨"e"⟩ .floorIndex = some 1.25 := by decide
  have hFinite : (1.25 : Float).isFinite = true := by decide
  have hNonneg : (0 : Float) ≤ 1.25 := by decide
  have hLength : (w.floorOrder.length : Int) ≤ maxInt64 := by decide
  have hFloor : prepared.elevatorFloor? w ⟨"e"⟩ = some ⟨"f2"⟩ := by decide
  -- the fraction is a quarter
  have hParts : Double.parts 1.25 = .finite .positive 5629499534213120 (-52) (by decide) := rfl
  have hNumber : Double.value (Double.parts 1.25) = (1 : ℤ) + 1 / 4 := by
    rw [hParts, Double.value_positive]
    norm_num
  have hFraction : Int.fract (Double.value (Double.parts 1.25)) < 1 / 2 := by
    rw [hNumber, Int.fract_intCast_add, Int.fract_eq_self.mpr (by norm_num)]
    norm_num
  obtain ⟨current, hCurrent, -, -, hAgree⟩ :=
    readings_agree_iff (.ofConfig .default) w w hAt hIndex hFinite hNonneg hLength
  exact ⟨hAt, hIndex, hFinite, hNonneg, hLength, hFloor, current, hCurrent, hAgree.mpr (Or.inl hFraction)⟩

namespace Simulation

/-- Someone is in an elevator with a floor index of one half. Let out there, they are on the first floor; and from the
same floor index the elevator moves up from the second floor to the third one. -/
theorem run_readings_apart :
    let lift : Problem := ⟨"lift", "elevator",
      [⟨"e", "elevator"⟩, ⟨"p", "person"⟩, ⟨"f1", "floor"⟩, ⟨"f2", "floor"⟩, ⟨"f3", "floor"⟩],
      [⟨"in", ["p", "e"]⟩], [⟨"floor-index", ["e"], 0.5⟩], []⟩
    let call (name : String) (action : Action) : SimulationCall Float :=
      .dispatch (.elevator action) ⟨0, 0, name, action.referenced, 1⟩ 0
    let out : Action := .unload ⟨"p"⟩ ⟨"e"⟩ none
    let up : Action := .move .up ⟨"e"⟩ none
    ∃ w t start, World.ofProblem lift = .ok w ∧
      (ActionTable.elevator (.ofConfig .default)).prepare w = .ok (.elevator t, start) ∧
      let first : Simulation Float := ⟨.elevator t, start⟩
      first.Dispatches (.elevator out) (first.perform (call "unload" out)) ∧
        (first.perform (call "unload" out)).world.related? .isAt ⟨"p"⟩ = some ⟨"f1"⟩ ∧
        t.elevatorFloor? start ⟨"e"⟩ = some ⟨"f1"⟩ ∧
        first.Dispatches (.elevator up) (first.perform (call "move-up" up)) ∧
        (first.perform (call "move-up" up)).world.level? ⟨"e"⟩ .floorIndex = some 2 ∧
        t.currentIndex? start ⟨"e"⟩ = some 1 ∧ t.floorOrder[1]? = some ⟨"f2"⟩ := by
  intro lift call out up
  let t : Table Float := { Table.ofConfig .default with floorOrder := [⟨"f1"⟩, ⟨"f2"⟩, ⟨"f3"⟩] }
  have hRun : (ofProblem? lift (.elevator (.ofConfig .default))).any (fun begun => decide (
      begun.1.floorOrder = [⟨"f1"⟩, ⟨"f2"⟩, ⟨"f3"⟩] ∧
      begun.2.accepted? (call "unload" out) = some (.elevator out) ∧
      (begun.2.perform (call "unload" out)).world.related? .isAt ⟨"p"⟩ = some ⟨"f1"⟩ ∧
      t.elevatorFloor? begun.2.world ⟨"e"⟩ = some ⟨"f1"⟩ ∧
      begun.2.accepted? (call "move-up" up) = some (.elevator up) ∧
      (begun.2.perform (call "move-up" up)).world.level? ⟨"e"⟩ .floorIndex = some 2 ∧
      t.currentIndex? begun.2.world ⟨"e"⟩ = some 1)) = true := by
    decide
  obtain ⟨w, table, start, hWorld, hPrepare, hFacts⟩ := exists_of_ofProblem? hRun
  obtain ⟨hOrder, hOut, hLanded, hFloor, hUp, hTarget, hCurrent⟩ := of_decide_eq_true hFacts
  -- the table has the order of the world
  have hTable : table = .elevator t := by
    rw [(ActionTable.prepare_elevator hPrepare).1]
    exact congrArg (fun order => ActionTable.elevator { Table.ofConfig .default with floorOrder := order }) hOrder
  subst hTable
  exact ⟨w, t, start, hWorld, hPrepare, dispatches_of_accepted? hOut, hLanded, hFloor, dispatches_of_accepted? hUp,
    hTarget, hCurrent, rfl⟩

end Simulation

end PlanReplay
