import PlanReplay.Proofs.Double.Value
import PlanReplay.Proofs.Elevator.Passage

/-!
# How many people are in an elevator

The number of passengers of an elevator is a double that begins at zero when a table is prepared, whoever is in the
elevator then. From there on it counts, and counting is exact, so it tells how many more people are in the elevator
than at first; and as no world holds more passengers than the capacity, the capacity bounds these.

* `World.Counts` — the number of passengers is the number of entities in the elevator beyond those at first.
* `World.Counts.of_ledger` — a passage keeps that.
* `Simulation.run_occupancy` — the number of passengers and the capacity along a run.
* `Simulation.run_occupancy_past_capacity` — an elevator with someone in it is prepared, and takes one too many.
-/

namespace PlanReplay

open Elevator

namespace World

theorem mem_entitiesOfKind_iff {α : Type} {w : World α} {id : EntityId} {kind : EntityKind} :
    id ∈ w.entitiesOfKind kind ↔ w.kindOf? id = some kind := by
  constructor
  · intro h
    obtain ⟨⟨_, other⟩, hEntry, rfl⟩ := List.mem_map.mp h
    obtain ⟨hMem, hKind⟩ := List.mem_filter.mp hEntry
    obtain rfl : other = kind := of_decide_eq_true hKind
    exact OrderedMap.mem_toList_iff.mp hMem
  · intro h
    refine List.mem_map.mpr ⟨(id, kind), List.mem_filter.mpr ⟨OrderedMap.mem_toList_iff.mpr h, ?_⟩, rfl⟩
    exact decide_eq_true rfl

/-- The number of passengers of an elevator is the number of entities that are in it, beyond the first `base`. -/
structure Counts (elevator : EntityId) (base : Nat) (w : World Float) : Prop where
  base_le : base ≤ w.occupancy elevator
  passengers : w.level? elevator .passengers = some (Float.ofNat (w.occupancy elevator - base))

variable {elevator : EntityId} {base : Nat}

/-- A passage keeps the count. Nobody gets out if nobody has got in: one passenger less than none is refused. -/
theorem Counts.of_ledger {passage? : Option Passage} {w next : World Float} (h : w.Counts elevator base)
    (hLedger : Ledger elevator passage?.toList w next) (hNext : next.Sound) (hBound : w.occupancy elevator < 2 ^ 53)
    (hNextBound : next.occupancy elevator < 2 ^ 53) : next.Counts elevator base := by
  obtain ⟨hBase, hPassengers⟩ := h
  obtain ⟨hOccupancy, hLevel⟩ := hLedger
  rw [hPassengers] at hLevel
  cases passage? with
  | none =>
    have hSame : next.occupancy elevator = w.occupancy elevator := hOccupancy
    exact ⟨hSame ▸ hBase, hSame ▸ hLevel⟩
  | some passage =>
    cases passage with
    | boarding =>
      have hMore : next.occupancy elevator = w.occupancy elevator + 1 := hOccupancy
      have hCount : next.occupancy elevator - base = w.occupancy elevator - base + 1 := by omega
      refine ⟨by omega, ?_⟩
      rw [hCount, ← Double.ofNat_add_one (by omega)]
      exact hLevel
    | leaving =>
      have hLess : next.occupancy elevator + 1 = w.occupancy elevator := hOccupancy
      cases hCount : w.occupancy elevator - base with
      | zero =>
        rw [hCount] at hLevel
        refine absurd ?_ (hNext.state.nonNegative .passengers elevator _ rfl hLevel)
        decide
      | succ n =>
        have hRest : next.occupancy elevator - base = n := by omega
        refine ⟨by omega, ?_⟩
        rw [hCount] at hLevel
        rw [hRest, ← Double.ofNat_sub_one (by omega), ← Double.add_neg]
        exact hLevel

end World

/-- A seed of passengers is a zero for an elevator. -/
theorem Elevator.Table.seed_of_passengers {w : World Float} {e : EntityId} {effect : Effect Float}
    (h : effect ∈ (w.entitiesOfKind .elevator).flatMap (seedEffects w))
    (hFluent : effect.fluent? = some ⟨.passengers, [e]⟩) :
    w.kindOf? e = some .elevator ∧ effect = .setLevel e .passengers 0 := by
  obtain ⟨lift, hLift, hSeed⟩ := List.mem_flatMap.mp h
  rcases mem_seedEffects hSeed with rfl | rfl
  · cases hFluent
    exact ⟨World.mem_entitiesOfKind_iff.mp hLift, rfl⟩
  · cases hFluent

namespace ActionTable

variable {t : Table Float} {w start : World Float} {table : ActionTable Float} {e : EntityId}

/-- Preparing gives no passengers to an elevator with a capacity and without a number of them. -/
theorem passengers_prepare (h : (elevator t).prepare w = .ok (table, start)) {capacity : Float}
    (hKind : w.kindOf? e = some .elevator) (hCapacity : w.level? e .capacity = some capacity)
    (hPassengers : w.level? e .passengers = none) : start.level? e .passengers = some 0 := by
  obtain ⟨-, staged, hStaged, -, rfl⟩ := World.applyEffects_eq_ok_iff.mp (prepare_elevator h).2
  refine State.fluent_of_assigned ?_ hStaged (Or.inr ⟨.setLevel e .passengers 0, ?_, rfl⟩)
  · exact fun effect hEffect hFluent => (Table.seed_of_passengers hEffect hFluent).2
  · refine List.mem_flatMap.mpr ⟨e, World.mem_entitiesOfKind_iff.mpr hKind, List.mem_append_left _ ?_⟩
    rw [hCapacity, hPassengers]
    exact List.mem_singleton_self _

/-- Preparing gives a number of passengers to elevators only, and the number is zero. -/
theorem passengers_prepare_cases (h : (elevator t).prepare w = .ok (table, start))
    (hPassengers : w.level? e .passengers = none) :
    start.level? e .passengers = none ∨
      w.kindOf? e = some .elevator ∧ start.level? e .passengers = some 0 := by
  obtain ⟨-, staged, hStaged, -, rfl⟩ := World.applyEffects_eq_ok_iff.mp (prepare_elevator h).2
  by_cases hSeed : ∃ effect ∈ (w.entitiesOfKind .elevator).flatMap (Table.seedEffects w),
      effect.fluent? = some ⟨.passengers, [e]⟩
  · have ⟨effect, hEffect, hFluent⟩ := hSeed
    refine Or.inr ⟨(Table.seed_of_passengers hEffect hFluent).1, ?_⟩
    exact State.fluent_of_assigned (fun effect hEffect hFluent => (Table.seed_of_passengers hEffect hFluent).2)
      hStaged (Or.inr hSeed)
  · refine Or.inl ((State.fluent_of_spared ?_ hStaged).trans hPassengers)
    exact fun effect hEffect hFluent => hSeed ⟨effect, hEffect, hFluent⟩

/-- A count that is zero after preparing begins with those who are in the elevator. -/
theorem counts_prepare (h : (elevator t).prepare w = .ok (table, start))
    (hZero : start.level? e .passengers = some 0) : start.Counts e (w.occupancy e) := by
  have hSame := occupancy_prepare h e
  refine ⟨hSame.ge, ?_⟩
  rw [hSame, Nat.sub_self]
  exact hZero

end ActionTable

namespace Simulation

/-- Calls keep the count, as long as it is exact. -/
theorem counts_of_run {t : Table Float} {e : EntityId} {base : Nat} (calls : List (SimulationCall Float)) :
    ∀ {s : Simulation Float}, s.table = .elevator t → s.world.Sound → s.world.Counts e base →
      (∀ past, past <+: calls → (s.run past).world.occupancy e < 2 ^ 53) → (s.run calls).world.Counts e base := by
  induction calls with
  | nil => exact fun _ _ h _ => h
  | cons call rest ih =>
    intro s hTable hSound h hBounds
    cases hCrash : s.crash? call with
    | some crash =>
      rw [(run_of_crash hCrash rest).1]
      exact h
    | none =>
      have hLater : ∀ past, past <+: rest → ((s.perform call).run past).world.occupancy e < 2 ^ 53 := by
        intro past hPast
        rw [← run_cons hCrash]
        exact hBounds (call :: past) (List.cons_prefix_cons.mpr ⟨rfl, hPast⟩)
      have hLedger := ledger_of_perform hTable hSound call e
      have hNext := perform_sound hSound call
      rw [run_cons hCrash]
      refine ih (perform_elevator hTable call).1 hNext ?_ hLater
      exact h.of_ledger hLedger hNext (hBounds [] List.nil_prefix) (hLater [] List.nil_prefix)

/--
**Occupancy.** Take an elevator with a capacity and without a number of passengers, in a reachable world for which a
table is prepared, and any calls after which there are never `2 ^ 53` entities in it. Its number of passengers is the
number of entities that are in it, less those that were in it at first, and this number is at most the capacity,
which stays as it was. So both are about everyone in the elevator if nobody was in it at first.
-/
theorem run_occupancy {t : Table Float} {table : ActionTable Float} {w start : World Float} (hReachable : w.Reachable)
    (hPrepare : (ActionTable.elevator t).prepare w = .ok (table, start)) {e : EntityId} {capacity : Float}
    (hKind : w.kindOf? e = some .elevator) (hCapacity : w.level? e .capacity = some capacity)
    (hPassengers : w.level? e .passengers = none) (calls : List (SimulationCall Float))
    (hBounds : ∀ past, past <+: calls → ((Simulation.mk table start).run past).world.occupancy e < 2 ^ 53) :
    let last := ((Simulation.mk table start).run calls).world
    w.occupancy e ≤ last.occupancy e ∧
      last.level? e .passengers = some (Float.ofNat (last.occupancy e - w.occupancy e)) ∧
      last.level? e .capacity = some capacity ∧ Float.ofNat (last.occupancy e - w.occupancy e) ≤ capacity := by
  intro last
  obtain ⟨hTable, hApply⟩ := ActionTable.prepare_elevator hPrepare
  have hSound : start.Sound := World.applyEffects_sound hReachable.sound hApply
  have hFirst : start.Counts e (w.occupancy e) :=
    ActionTable.counts_prepare hPrepare (ActionTable.passengers_prepare hPrepare hKind hCapacity hPassengers)
  obtain ⟨hBase, hCount⟩ : last.Counts e (w.occupancy e) := counts_of_run calls hTable hSound hFirst hBounds
  have hLast : last.Sound := run_sound hSound calls
  have hKept : last.level? e .capacity = some capacity := by
    refine ((run_elevator hTable calls).2 .capacity [e] rfl).trans ?_
    exact (ActionTable.fluent?_prepare hPrepare rfl [e]).trans hCapacity
  refine ⟨hBase, hCount, hKept, ?_⟩
  -- no world holds more passengers than the capacity
  rw [← Double.not_lt_iff_le (hLast.state.finite _ _ hCount) (hLast.state.finite _ _ hKept)]
  exact hLast.state.passengers e _ _ hCount hKept

/-- Two people wait for an elevator for one. The second one is refused until the first one has got out. -/
theorem run_occupancy_of_small_elevator :
    let p : Problem := ⟨"lift", "elevator", [⟨"e", "elevator"⟩, ⟨"f", "floor"⟩, ⟨"p1", "person"⟩, ⟨"p2", "person"⟩],
      [⟨"at", ["e", "f"]⟩, ⟨"at", ["p1", "f"]⟩, ⟨"at", ["p2", "f"]⟩], [⟨"capacity", ["e"], 1⟩], []⟩
    let call (name : String) (action : Action) : SimulationCall Float :=
      .dispatch (.elevator action) ⟨0, 0, name, action.referenced, 1⟩ 0
    let calls := [call "load" (.load ⟨"p1"⟩ ⟨"e"⟩ none), call "load" (.load ⟨"p2"⟩ ⟨"e"⟩ none),
      call "unload" (.unload ⟨"p1"⟩ ⟨"e"⟩ none), call "load" (.load ⟨"p2"⟩ ⟨"e"⟩ none)]
    ∃ w table start, World.ofProblem p = .ok w ∧ w.Reachable ∧
      (ActionTable.elevator (.ofConfig .default)).prepare w = .ok (table, start) ∧
      w.kindOf? ⟨"e"⟩ = some .elevator ∧ w.level? ⟨"e"⟩ .capacity = some 1 ∧
      w.level? ⟨"e"⟩ .passengers = none ∧ w.occupancy ⟨"e"⟩ = 0 ∧
      (∀ past, past <+: calls → ((Simulation.mk table start).run past).world.occupancy ⟨"e"⟩ < 2 ^ 53) ∧
      let last := ((Simulation.mk table start).run calls).world
      last.subjectsOf .isIn ⟨"e"⟩ = [⟨"p2"⟩] ∧ w.occupancy ⟨"e"⟩ ≤ last.occupancy ⟨"e"⟩ ∧
        last.level? ⟨"e"⟩ .passengers = some (Float.ofNat (last.occupancy ⟨"e"⟩ - w.occupancy ⟨"e"⟩)) ∧
        last.level? ⟨"e"⟩ .capacity = some 1 ∧ Float.ofNat (last.occupancy ⟨"e"⟩ - w.occupancy ⟨"e"⟩) ≤ 1 := by
  intro p call calls
  have hRun : (ofProblem? p (.elevator (.ofConfig .default))).any (fun begun => decide (
      begun.1.kindOf? ⟨"e"⟩ = some .elevator ∧ begun.1.level? ⟨"e"⟩ .capacity = some 1 ∧
      begun.1.level? ⟨"e"⟩ .passengers = none ∧ begun.1.occupancy ⟨"e"⟩ = 0 ∧
      (∀ past ∈ calls.inits, (begun.2.run past).world.occupancy ⟨"e"⟩ < 2 ^ 53) ∧
      (begun.2.run calls).world.subjectsOf .isIn ⟨"e"⟩ = [⟨"p2"⟩])) = true := by
    decide
  obtain ⟨w, table, start, hWorld, hPrepare, hFacts⟩ := exists_of_ofProblem? hRun
  obtain ⟨hKind, hCapacity, hPassengers, hEmpty, hInits, hInside⟩ := of_decide_eq_true hFacts
  have hReachable : w.Reachable := .ofProblem hWorld
  have hBounds : ∀ past, past <+: calls → ((Simulation.mk table start).run past).world.occupancy ⟨"e"⟩ < 2 ^ 53 :=
    fun past hPast => hInits past (List.mem_inits past calls |>.mpr hPast)
  exact ⟨w, table, start, hWorld, hReachable, hPrepare, hKind, hCapacity, hPassengers, hEmpty, hBounds, hInside,
    run_occupancy hReachable hPrepare hKind hCapacity hPassengers calls hBounds⟩

/-- An elevator for one with someone in it: preparing gives it no passengers, and so it takes another one. Then there
are two people in it, and it has one passenger. -/
theorem run_occupancy_past_capacity :
    let p : Problem := ⟨"lift", "elevator", [⟨"e1", "elevator"⟩, ⟨"f1", "floor"⟩, ⟨"p1", "person"⟩, ⟨"p2", "person"⟩],
      [⟨"at", ["e1", "f1"]⟩, ⟨"in", ["p1", "e1"]⟩, ⟨"at", ["p2", "f1"]⟩], [⟨"capacity", ["e1"], 1⟩], []⟩
    let load : SimulationCall Float :=
      .dispatch (.elevator (.load ⟨"p2"⟩ ⟨"e1"⟩ (some ⟨"f1"⟩))) ⟨0, 0, "load", [⟨"p2"⟩, ⟨"e1"⟩, ⟨"f1"⟩], 1⟩ 0
    ∃ w table start, World.ofProblem p = .ok w ∧
      (ActionTable.elevator (.ofConfig .default)).prepare w = .ok (table, start) ∧
      w.entitiesOfKind .elevator = [⟨"e1"⟩] ∧ w.level? ⟨"e1"⟩ .capacity = some 1 ∧
      w.level? ⟨"e1"⟩ .passengers = none ∧ w.occupancy ⟨"e1"⟩ = 1 ∧
      let last := ((Simulation.mk table start).run [load]).world
      last.occupancy ⟨"e1"⟩ = 2 ∧ last.level? ⟨"e1"⟩ .passengers = some 1 := by
  intro p load
  have hRun : (ofProblem? p (.elevator (.ofConfig .default))).any (fun begun => decide (
      begun.1.entitiesOfKind .elevator = [⟨"e1"⟩] ∧ begun.1.level? ⟨"e1"⟩ .capacity = some 1 ∧
      begun.1.level? ⟨"e1"⟩ .passengers = none ∧ begun.1.occupancy ⟨"e1"⟩ = 1 ∧
      (begun.2.run [load]).world.occupancy ⟨"e1"⟩ = 2 ∧
      (begun.2.run [load]).world.level? ⟨"e1"⟩ .passengers = some 1)) = true := by
    decide
  obtain ⟨w, table, start, hWorld, hPrepare, hFacts⟩ := exists_of_ofProblem? hRun
  exact ⟨w, table, start, hWorld, hPrepare, of_decide_eq_true hFacts⟩

end Simulation

end PlanReplay
