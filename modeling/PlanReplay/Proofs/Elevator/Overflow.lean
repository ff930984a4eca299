import PlanReplay.Proofs.Domain.Crash
import PlanReplay.Proofs.Double.Ends
import PlanReplay.Proofs.Elevator.Position
import PlanReplay.Replay.Timeline

/-!
# Floors without a number

A move by one floor counts on from the number of the floor that an elevator is at, or back. The numbers have 64 bits,
and the last one has no next: such a move does not fail, it ends the program. It takes a floor index at the end of the
numbers or beyond it, which is brought to the last number. No move sets a floor index to one: what a move by one floor
sets is below the end where the index before it was, and what a move between two floors sets is a place in their order.

* `Direction.Overflows`, `Direction.Exhausts` — the numbers without a next one, and the floor indices brought to them.
* `Elevator.Table.currentIndex?_overflows_iff`, `ActionTable.dispatch_overflow_iff` — the dispatches that overflow.
* `Elevator.Table.floorIndex_of_effects` — what an accepted action makes of a floor index.
* `World.NoNewEnds` — no floor index has become an end, and `Simulation.noNewEnds_of_run` whatever is called.
* `Simulation.run_overflow_iff` — the dispatches that overflow after any calls, and where their floor indices are from.
* `Simulation.run_overflows` — a problem whose first move overflows.
-/

namespace PlanReplay

open Elevator

variable {α : Type}

namespace Direction

/-- The number next to `current` in this direction does not have 64 bits. -/
def Overflows (direction : Direction) (current : Int) : Prop :=
  current + direction.step < minInt64 ∨ maxInt64 < current + direction.step

/-- A floor index at the end of the numbers of 64 bits in this direction, or beyond it. -/
def Exhausts : Direction → Float → Prop
  | .up, index => 9223372036854775808 ≤ index
  | .down, index => index ≤ -9223372036854775808

instance decidableExhausts : ∀ (direction : Direction) (index : Float), Decidable (direction.Exhausts index)
  | .up, index => inferInstanceAs (Decidable (9223372036854775808 ≤ index))
  | .down, index => inferInstanceAs (Decidable (index ≤ -9223372036854775808))

theorem exhausts_up_iff {index : Float} (hFinite : index.isFinite = true) :
    up.Exhausts index ↔ 2 ^ 63 ≤ Double.value (Double.parts index) := by
  rw [← Double.value_end]
  exact Double.le_iff_value (by decide) hFinite

theorem exhausts_down_iff {index : Float} (hFinite : index.isFinite = true) :
    down.Exhausts index ↔ Double.value (Double.parts index) ≤ -2 ^ 63 := by
  rw [← Double.value_negative_end]
  exact Double.le_iff_value hFinite (by decide)

/-- The number that a floor index is brought to has no next one iff the index is at the end or beyond it. -/
theorem overflows_nearest_iff (direction : Direction) {index : Float} (hFinite : index.isFinite = true) :
    direction.Overflows (Scalar.nearest index) ↔ direction.Exhausts index := by
  have hCases := Double.nearest_cases hFinite
  unfold Overflows
  cases direction with
  | up =>
    rw [exhausts_up_iff hFinite]
    rcases hCases with ⟨hEnd, hLast⟩ | ⟨hEnd, hFirst⟩ | ⟨⟨hLow, hHigh⟩, hLower, hUpper⟩
    · exact iff_of_true (Or.inr (by rw [hLast]; decide)) hEnd
    · exact iff_of_false (by rw [hFirst]; decide) (by linarith)
    · refine iff_of_false ?_ (by linarith)
      simp only [step, minInt64, maxInt64]
      omega
  | down =>
    rw [exhausts_down_iff hFinite]
    rcases hCases with ⟨hEnd, hLast⟩ | ⟨hEnd, hFirst⟩ | ⟨⟨hLow, hHigh⟩, hLower, hUpper⟩
    · exact iff_of_false (by rw [hLast]; decide) (by linarith)
    · exact iff_of_true (Or.inl (by rw [hFirst]; decide)) hEnd
    · refine iff_of_false ?_ (by linarith)
      simp only [step, minInt64, maxInt64]
      omega

/-- The next number is out of range iff it overflows. -/
theorem fits_eq_false_iff {direction : Direction} {current : Int} :
    Scalar.fits Float (current + direction.step) = false ↔ direction.Overflows current := by
  show decide (minInt64 ≤ current + direction.step ∧ current + direction.step ≤ maxInt64) = false ↔ _
  rw [decide_eq_false_iff_not]
  unfold Overflows
  omega

/-- The double of a place of an order that is not too long is no end. -/
theorem not_exhausts_place (direction : Direction) {place : Nat} (h : place ≤ 2 ^ 63 - 1023) :
    ¬ direction.Exhausts (Float.ofNat place) := by
  have hCount : place ≤ maxUInt64 := h.trans (by decide)
  have hFinite := Double.finite_ofNat hCount
  cases direction with
  | up => simpa only [exhausts_up_iff hFinite, not_le] using Double.ofNat_below_end h
  | down =>
    have hNonneg := Double.zero_le_value_ofNat hCount
    rw [exhausts_down_iff hFinite]
    linarith

/-- Where a floor index is counted on to a place that is an end, it was one. -/
theorem exhausts_of_next {direction side : Direction} {index : Float} {place : Nat} (hFinite : index.isFinite = true)
    (hNext : (place : Int) = Scalar.nearest index + direction.step) (hRange : (place : Int) ≤ maxInt64)
    (hEnd : side.Exhausts (Float.ofNat place)) : side.Exhausts index := by
  by_contra hInside
  refine side.not_exhausts_place ?_ hEnd
  have hCount : place ≤ maxUInt64 := by
    unfold maxInt64 at hRange
    exact (show place ≤ 9223372036854775807 by omega).trans (by decide)
  have hUp : side = .up := by
    cases side with
    | up => rfl
    | down =>
      have hNonneg := Double.zero_le_value_ofNat hCount
      have hBelow := (exhausts_down_iff (Double.finite_ofNat hCount)).mp hEnd
      linarith
  subst hUp
  rw [exhausts_up_iff hFinite] at hInside
  have hStep : direction.step ≤ 1 := by cases direction <;> decide
  rcases Double.nearest_cases hFinite with ⟨hPast, -⟩ | ⟨-, hFirst⟩ | ⟨-, -, hUpper⟩
  · exact absurd hPast hInside
  · rw [hFirst, minInt64] at hNext
    omega
  · omega

end Direction

-- ---------------------------------------------------------------------------
-- Moves that overflow
-- ---------------------------------------------------------------------------

namespace Elevator.Table

variable [Scalar α] {t : Table α} {w : World α} {effects : List (Effect α)} {elevator e : EntityId} {current : Int}

/-- An elevator counts from its floor index, and without one from a place of the order. -/
theorem currentIndex?_cases (h : t.currentIndex? w e = some current) :
    (∃ index, w.level? e .floorIndex = some index ∧ current = Scalar.nearest index) ∨
      w.level? e .floorIndex = none ∧ ∃ place : Nat, place < t.floorOrder.length ∧ current = place := by
  unfold currentIndex? at h
  split at h
  · rename_i index hIndex
    cases h
    exact Or.inl ⟨index, hIndex, rfl⟩
  · rename_i hNone
    simp only [Option.map_eq_some_iff, Option.pure_def, Option.bind_eq_bind, Option.bind_eq_some_iff, Option.some.injEq]
      at h
    obtain ⟨_, ⟨place, ⟨floor, -, hFloor⟩, rfl⟩, rfl⟩ := h
    obtain ⟨hInside, -⟩ := List.getElem?_eq_some_iff.mp (getElem?_of_floorIndex? hFloor)
    exact Or.inr ⟨hNone, place, hInside, rfl⟩

end Elevator.Table

section

variable {t : Table Float} {w : World Float} {e : EntityId} (hSound : w.Sound)

include hSound

theorem World.Sound.isFinite_level? {key : ResourceKey} {value : Float} (h : w.level? e key = some value) :
    value.isFinite = true :=
  hSound.state.finite _ _ h

/-- The current number of an elevator has no next one iff it is what a floor index is brought to that is an end. Places
of an order have next ones. -/
theorem Elevator.Table.currentIndex?_overflows_iff (hLength : (t.floorOrder.length : Int) ≤ maxInt64)
    (direction : Direction) (current : Int) :
    t.currentIndex? w e = some current ∧ direction.Overflows current ↔
      ∃ index, w.level? e .floorIndex = some index ∧ direction.Exhausts index ∧ current = Scalar.nearest index := by
  constructor
  · rintro ⟨hCurrent, hOverflows⟩
    rcases currentIndex?_cases hCurrent with ⟨index, hIndex, rfl⟩ | ⟨-, place, hInside, rfl⟩
    · exact ⟨index, hIndex, (direction.overflows_nearest_iff (hSound.isFinite_level? hIndex)).mp hOverflows, rfl⟩
    · unfold Direction.Overflows minInt64 at hOverflows
      cases direction <;> simp only [Direction.step] at hOverflows <;> omega
  · rintro ⟨index, hIndex, hEnd, rfl⟩
    refine ⟨?_, (direction.overflows_nearest_iff (hSound.isFinite_level? hIndex)).mpr hEnd⟩
    rw [currentIndex?, hIndex]

/-- **Dispatches that overflow.** They are the moves by one floor of elevators whose floor index is an end. -/
theorem ActionTable.dispatch_overflow_iff (hLength : (t.floorOrder.length : Int) ≤ maxInt64) (action : DomainAction)
    (timed : TimedAction Float) (clock : Float) (crash : Crash) :
    (ActionTable.elevator t).dispatch action timed w clock = .error (.crashed crash) ↔
      ∃ direction elevator index, action = .elevator (.move direction elevator none) ∧
        w.level? elevator .floorIndex = some index ∧ direction.Exhausts index ∧
        crash = .floorOverflow elevator (Scalar.nearest index) := by
  rw [dispatch_crash_iff]
  constructor
  · rintro ⟨_, act, ⟨⟩, rfl, -, hEffects⟩
    obtain ⟨direction, elevator, current, rfl, hCurrent, hFits, rfl⟩ := Table.effects_crash_iff.mp hEffects
    obtain ⟨index, hIndex, hEnd, rfl⟩ := (Table.currentIndex?_overflows_iff hSound hLength direction current).mp
      ⟨hCurrent, Direction.fits_eq_false_iff.mp hFits⟩
    exact ⟨direction, elevator, index, rfl, hIndex, hEnd, rfl⟩
  · rintro ⟨direction, elevator, index, rfl, hIndex, hEnd, rfl⟩
    obtain ⟨hCurrent, hOverflows⟩ :=
      (Table.currentIndex?_overflows_iff hSound hLength direction _).mpr ⟨index, hIndex, hEnd, rfl⟩
    -- what has a level is declared
    have hKnown : ∀ id ∈ [elevator], w.contains id = true := hSound.declared.fluents _ _ hIndex
    exact ⟨t, _, rfl, rfl, hKnown, Table.effects_crash_iff.mpr
      ⟨direction, elevator, _, rfl, hCurrent, Direction.fits_eq_false_iff.mpr hOverflows, rfl⟩⟩

end

-- ---------------------------------------------------------------------------
-- What becomes of a floor index
-- ---------------------------------------------------------------------------

namespace Elevator.Table

variable [Scalar α] {t : Table α} {w next : World α} {effects : List (Effect α)} {elevator : EntityId}

/-- A batch that sets a floor index at its end, at most, leaves those of others. -/
theorem floorIndex_of_indexEffects {before : List (Effect α)} {target : Option Int}
    (hBefore : ∀ effect ∈ before, effect.fluent? = none)
    (h : w.applyEffects (before ++ indexEffects w elevator target) = .ok next) (e : EntityId) :
    next.level? e .floorIndex = w.level? e .floorIndex ∨
      ∃ n, target = some n ∧ elevator = e ∧ next.level? e .floorIndex = some (Scalar.ofInt n) := by
  by_cases hSet : ∃ n, target = some n ∧ elevator = e ∧ (w.level? elevator .floorIndex).isSome = true
  · obtain ⟨n, rfl, rfl, hIndex⟩ := hSet
    exact Or.inr ⟨n, rfl, rfl, level?_of_indexEffects hIndex before h⟩
  · obtain ⟨-, staged, hStaged, -, rfl⟩ := World.applyEffects_eq_ok_iff.mp h
    refine Or.inl (State.fluent_of_spared ?_ hStaged)
    intro effect hEffect hFluent
    rcases List.mem_append.mp hEffect with hFirst | hLast
    · rw [hBefore effect hFirst] at hFluent
      cases hFluent
    · unfold indexEffects at hLast
      split at hLast
      · split at hLast
        · rename_i n hIndex
          obtain rfl := List.mem_singleton.mp hLast
          cases hFluent
          exact hSet ⟨n, rfl, rfl, hIndex⟩
        · cases hLast
      · cases hLast

/-- A batch that sets no floor index leaves all of them. -/
theorem floorIndex_of_spared
    (hOther : ∀ effect ∈ effects, ∀ fluent, effect.fluent? = some fluent → fluent.key ≠ .floorIndex)
    (h : w.applyEffects effects = .ok next) (e : EntityId) : next.level? e .floorIndex = w.level? e .floorIndex := by
  obtain ⟨-, staged, hStaged, -, rfl⟩ := World.applyEffects_eq_ok_iff.mp h
  exact State.fluent_of_spared (fun effect hEffect hFluent => hOther effect hEffect _ hFluent rfl) hStaged

omit [Scalar α] in
/-- To arrive is to be at a floor. It sets no fluent. -/
theorem fluent_of_arriveEffects {target : Nat} :
    ∀ effect ∈ t.arriveEffects w elevator target, effect.fluent? = none := by
  unfold arriveEffects
  split
  · exact List.forall_mem_singleton.mpr rfl
  · exact List.forall_mem_nil _

omit [Scalar α] in
/-- To note that a person has reached a floor sets no fluent. -/
theorem fluent_of_noteReached {person floor : EntityId} (h : noteReached w person floor = .ok effects) :
    ∀ effect ∈ effects, effect.fluent? = none := by
  unfold noteReached at h
  split at h
  · cases h
    split
    · exact List.forall_mem_nil _
    · exact List.forall_mem_singleton.mpr rfl
  · cases h

/-- After an accepted action a floor index is what it was, or the place of a floor, or the number next to the one from
which the elevator moved. -/
theorem floorIndex_of_effects {action : Action} (hEffects : t.effects w action = .ok effects)
    (h : w.applyEffects effects = .ok next) (e : EntityId) :
    next.level? e .floorIndex = w.level? e .floorIndex ∨
      ∃ place : Nat, next.level? e .floorIndex = some (Scalar.ofInt place) ∧
        (place < t.floorOrder.length ∨
          ∃ (direction : Direction) (current : Int), t.currentIndex? w e = some current ∧
            (place : Int) = current + direction.step ∧ Scalar.fits α (place : Int) = true) := by
  cases action with
  | move direction lift floors =>
    cases floors with
    | none =>
      obtain ⟨current, target, hCurrent, hTarget, hFits, -, rfl⟩ := moveNext_eq_ok hEffects
      rcases floorIndex_of_indexEffects fluent_of_arriveEffects h e with hSame | ⟨n, hn, rfl, hIndex⟩
      · exact Or.inl hSame
      · cases hn
        exact Or.inr ⟨target, hIndex, Or.inr ⟨direction, current, hCurrent, hTarget, hFits⟩⟩
    | some ends =>
      obtain ⟨start, goal⟩ := ends
      obtain ⟨-, rfl⟩ := moveBetween_eq_ok (refusing_eq_ok_iff.mp hEffects)
      have hArrival : ∀ effect ∈ [Effect.relate (α := α) ⟨.isAt, lift, goal⟩], effect.fluent? = none :=
        List.forall_mem_singleton.mpr rfl
      rcases floorIndex_of_indexEffects hArrival h e with hSame | ⟨n, hn, rfl, hIndex⟩
      · exact Or.inl hSame
      · obtain ⟨place, hPlace, rfl⟩ := Option.map_eq_some_iff.mp hn
        obtain ⟨hInside, -⟩ := List.getElem?_eq_some_iff.mp (getElem?_of_floorIndex? hPlace)
        exact Or.inr ⟨place, hIndex, Or.inl hInside⟩
  | load person lift floor =>
    obtain ⟨place, -, rfl⟩ := load_eq_ok (refusing_eq_ok_iff.mp hEffects)
    refine Or.inl (floorIndex_of_spared (fun effect hEffect fluent hFluent => ?_) h e)
    rcases fluent_of_passageEffects hEffect hFluent with rfl | rfl <;> exact nofun
  | unload person lift floor =>
    obtain ⟨-, place, -, rfl⟩ := unload_eq_ok_iff.mp (refusing_eq_ok_iff.mp hEffects)
    refine Or.inl (floorIndex_of_spared (fun effect hEffect fluent hFluent => ?_) h e)
    rcases fluent_of_passageEffects hEffect hFluent with rfl | rfl <;> exact nofun
  | reached person floor =>
    refine Or.inl (floorIndex_of_spared (fun effect hEffect fluent hFluent => ?_) h e)
    rw [fluent_of_noteReached (refusing_eq_ok_iff.mp hEffects) effect hEffect] at hFluent
    cases hFluent

end Elevator.Table

-- ---------------------------------------------------------------------------
-- No new ends
-- ---------------------------------------------------------------------------

/-- Whoever has a floor index in `next` that is an end had one in `w`, at the same end. -/
def World.NoNewEnds (w next : World Float) : Prop :=
  ∀ (direction : Direction) (e : EntityId) (index : Float), next.level? e .floorIndex = some index →
    direction.Exhausts index → ∃ before, w.level? e .floorIndex = some before ∧ direction.Exhausts before

namespace World.NoNewEnds

variable {w middle next : World Float}

theorem of_same (h : ∀ e, next.level? e .floorIndex = w.level? e .floorIndex) : w.NoNewEnds next :=
  fun _ e index hIndex hEnd => ⟨index, (h e).symm.trans hIndex, hEnd⟩

theorem trans (hFirst : w.NoNewEnds middle) (hRest : middle.NoNewEnds next) : w.NoNewEnds next := by
  intro direction e index hIndex hEnd
  obtain ⟨between, hBetween, hBetweenEnd⟩ := hRest direction e index hIndex hEnd
  exact hFirst direction e between hBetween hBetweenEnd

end World.NoNewEnds

/-- An accepted action brings no floor index to an end. -/
theorem Elevator.Table.noNewEnds_of_effects {t : Table Float} {w next : World Float} {effects : List (Effect Float)}
    {action : Action} (hSound : w.Sound) (hLength : t.floorOrder.length ≤ 2 ^ 62)
    (hEffects : t.effects w action = .ok effects) (h : w.applyEffects effects = .ok next) : w.NoNewEnds next := by
  intro direction e index hIndex hEnd
  rcases floorIndex_of_effects hEffects h e with hSame | ⟨place, hPlace, hFrom⟩
  · exact ⟨index, hSame.symm.trans hIndex, hEnd⟩
  · obtain rfl : Float.ofNat place = index := Option.some.inj (hPlace.symm.trans hIndex)
    have hFar : 2 ^ 63 - 1023 < place := Nat.lt_of_not_le fun hNear => direction.not_exhausts_place hNear hEnd
    rcases hFrom with hInside | ⟨way, current, hCurrent, hNext, hFits⟩
    · omega
    · have hRange : (place : Int) ≤ maxInt64 := (of_decide_eq_true hFits).2
      rcases currentIndex?_cases hCurrent with ⟨before, hBefore, rfl⟩ | ⟨-, start, hInside, rfl⟩
      · exact ⟨before, hBefore, Direction.exhausts_of_next (hSound.isFinite_level? hBefore) hNext hRange hEnd⟩
      · -- the place next to one of the order is near
        have hStep : way.step ≤ 1 := by cases way <;> decide
        omega

/-- Preparing a table of elevators sets other levels. -/
theorem ActionTable.noNewEnds_prepare {t : Table Float} {table : ActionTable Float} {w start : World Float}
    (h : (ActionTable.elevator t).prepare w = .ok (table, start)) : w.NoNewEnds start := by
  obtain ⟨-, staged, hStaged, -, rfl⟩ := World.applyEffects_eq_ok_iff.mp (prepare_elevator h).2
  refine .of_same fun e => State.fluent_of_spared ?_ hStaged
  intro effect hEffect hFluent
  obtain ⟨lift, -, hSeed⟩ := List.mem_flatMap.mp hEffect
  rcases Table.mem_seedEffects hSeed with rfl | rfl <;> cases hFluent

-- ---------------------------------------------------------------------------
-- Runs
-- ---------------------------------------------------------------------------

/-- A move by one floor that is accepted reports the number from which it counts and the next one. -/
theorem ActionTable.transition_of_move {t : Table Float} {table : ActionTable Float} {w next : World Float}
    {direction : Direction} {e : EntityId} {timed : TimedAction Float} {clock : Float} {applied : Applied Float}
    (h : (ActionTable.elevator t).dispatch (.elevator (.move direction e none)) timed w clock =
      .ok (table, next, applied)) :
    ∃ current : Int, ¬ direction.Overflows current ∧ applied.transition.start = .level (Scalar.ofInt current) ∧
      applied.transition.goal = .level (Scalar.ofInt (current + direction.step)) := by
  unfold dispatch at h
  dsimp only at h
  split at h
  · rename_i hAttempt
    cases h
    obtain ⟨effects, hEffects, -⟩ := World.effects_of_attempt hAttempt
    obtain ⟨current, target, hCurrent, hNext, hFits, -, -⟩ := Table.moveNext_eq_ok hEffects
    rw [hNext] at hFits
    refine ⟨current, ?_, ?_, ?_⟩
    · rw [← Direction.fits_eq_false_iff, hFits]
      exact Bool.noConfusion
    · simp only [Table.transition, hCurrent, Option.getD_some]
    · simp only [Table.transition, hCurrent, Option.getD_some]
  · cases h

namespace Simulation

/-- A call on elevators brings no floor index to an end. -/
theorem noNewEnds_of_perform {t : Table Float} {s : Simulation Float} (hTable : s.table = .elevator t)
    (hSound : s.world.Sound) (hLength : t.floorOrder.length ≤ 2 ^ 62) (call : SimulationCall Float) :
    s.world.NoNewEnds (s.perform call).world := by
  rcases (perform_elevator hTable call).2 with ⟨-, hWorld⟩ | ⟨action, timed, clock, applied, -, hDispatch⟩
  · exact .of_same fun e => by rw [hWorld]
  · rcases (ActionTable.dispatch_elevator hDispatch).2 with ⟨-, hWorld⟩ | ⟨act, effects, -, hEffects, hApply⟩
    · exact .of_same fun e => by rw [hWorld]
    · exact Table.noNewEnds_of_effects hSound hLength hEffects hApply

/-- Calls on elevators bring no floor index to an end. -/
theorem noNewEnds_of_run {t : Table Float} {s : Simulation Float} (hTable : s.table = .elevator t)
    (hSound : s.world.Sound) (hLength : t.floorOrder.length ≤ 2 ^ 62) (calls : List (SimulationCall Float)) :
    s.world.NoNewEnds (s.run calls).world := by
  refine (run_induction (motive := fun last => last.table = .elevator t ∧ last.world.Sound ∧
    s.world.NoNewEnds last.world) ⟨hTable, hSound, .of_same fun _ => rfl⟩ ?_ calls).2.2
  rintro last call ⟨hLast, hLastSound, hKept⟩
  exact ⟨(perform_elevator hLast call).1, perform_sound hLastSound call,
    hKept.trans (noNewEnds_of_perform hLast hLastSound hLength call)⟩

/--
**Moves that overflow.** Prepare a table of elevators for a reachable world, with no more floors than a memory holds,
and let any calls follow. The program ends over a dispatch after them iff it is a move by one floor of an elevator with a
floor index that is `2 ^ 63` or more, for a move up, or `-2 ^ 63` or less, for a move down; and then the world before the
calls gave this elevator such a floor index. So every dispatch is accepted or rejected where all floor indices lie
between. A move by one floor that is accepted reports the number from which it counts and the one next to it, and this
one has 64 bits as well.
-/
theorem run_overflow_iff {t : Table Float} {table : ActionTable Float} {w start : World Float}
    (hReachable : w.Reachable) (hPrepare : (ActionTable.elevator t).prepare w = .ok (table, start))
    (hLength : w.floorOrder.length ≤ 2 ^ 62) (calls : List (SimulationCall Float)) :
    let last := (Simulation.mk table start).run calls
    (∀ action timed clock crash,
      last.table.dispatch action timed last.world clock = .error (.crashed crash) ↔
        ∃ direction elevator index, action = .elevator (.move direction elevator none) ∧
          last.world.level? elevator .floorIndex = some index ∧ direction.Exhausts index ∧
          crash = .floorOverflow elevator (Scalar.nearest index)) ∧
      w.NoNewEnds last.world ∧
      ∀ (direction : Direction) (e : EntityId) timed clock after next applied,
        last.table.dispatch (.elevator (.move direction e none)) timed last.world clock = .ok (after, next, applied) →
          ∃ current : Int, ¬ direction.Overflows current ∧ applied.transition.start = .level (Scalar.ofInt current) ∧
            applied.transition.goal = .level (Scalar.ofInt (current + direction.step)) := by
  intro last
  obtain ⟨hTable, hApply⟩ := ActionTable.prepare_elevator hPrepare
  have hStart : start.Sound := World.applyEffects_sound hReachable.sound hApply
  have hLast : last.table = .elevator (t.prepare w).1 := (run_elevator (s := ⟨table, start⟩) hTable calls).1
  have hSound : last.world.Sound := run_sound hStart calls
  have hKept : start.NoNewEnds last.world := noNewEnds_of_run hTable hStart hLength calls
  have hPlaces : ((t.prepare w).1.floorOrder.length : Int) ≤ maxInt64 := by
    have hOrder : (t.prepare w).1.floorOrder.length ≤ 2 ^ 62 := hLength
    unfold maxInt64
    omega
  rw [hLast]
  exact ⟨ActionTable.dispatch_overflow_iff hSound hPlaces, (ActionTable.noNewEnds_prepare hPrepare).trans hKept,
    fun _ _ _ _ _ _ _ hDispatch => ActionTable.transition_of_move hDispatch⟩

/-- One elevator is on the ground and goes up. Another one is beyond the last number; it goes down, and overflows on the
way up. -/
theorem run_overflow_of_two_elevators :
    let lift : Problem := ⟨"lift", "elevator", [⟨"a", "elevator"⟩, ⟨"b", "elevator"⟩], [],
      [⟨"floor-index", ["a"], 0⟩, ⟨"floor-index", ["b"], 1e300⟩], []⟩
    let call (name : String) (action : Action) : SimulationCall Float :=
      .dispatch (.elevator action) ⟨0, 0, name, action.referenced, 1⟩ 0
    let calls := [call "move-down" (.move .down ⟨"b"⟩ none), call "move-up" (.move .up ⟨"a"⟩ none)]
    ∃ w table start, World.ofProblem lift = .ok w ∧ w.Reachable ∧
      (ActionTable.elevator (.ofConfig .default)).prepare w = .ok (table, start) ∧ w.floorOrder.length ≤ 2 ^ 62 ∧
      let last := (Simulation.mk table start).run calls
      last.world.level? ⟨"a"⟩ .floorIndex = some 1 ∧
        last.world.level? ⟨"b"⟩ .floorIndex = some 9223372036854775808 ∧
        (∀ timed clock, last.table.dispatch (.elevator (.move .up ⟨"b"⟩ none)) timed last.world clock =
          .error (.crashed (.floorOverflow ⟨"b"⟩ maxInt64))) ∧
        ∀ direction timed clock crash,
          last.table.dispatch (.elevator (.move direction ⟨"a"⟩ none)) timed last.world clock ≠
            .error (.crashed crash) := by
  intro lift call calls
  have hRun : (ofProblem? lift (.elevator (.ofConfig .default))).any (fun begun => decide (
      begun.1.floorOrder = [] ∧
      (begun.2.run calls).world.level? ⟨"a"⟩ .floorIndex = some 1 ∧
      (begun.2.run calls).world.level? ⟨"b"⟩ .floorIndex = some 9223372036854775808)) = true := by
    decide +kernel
  obtain ⟨w, table, start, hWorld, hPrepare, hFacts⟩ := exists_of_ofProblem? hRun
  obtain ⟨hNone, hGround, hPast⟩ := of_decide_eq_true hFacts
  have hReachable : w.Reachable := .ofProblem hWorld
  have hLength : w.floorOrder.length ≤ 2 ^ 62 := (congrArg List.length hNone).trans_le (Nat.zero_le _)
  obtain ⟨hIff, -, -⟩ := run_overflow_iff hReachable hPrepare hLength calls
  refine ⟨w, table, start, hWorld, hReachable, hPrepare, hLength, hGround, hPast, ?_, ?_⟩
  · intro timed clock
    exact (hIff _ timed clock _).mpr ⟨.up, ⟨"b"⟩, _, rfl, hPast, by decide, by decide⟩
  · intro direction timed clock crash hOverflow
    obtain ⟨way, other, index, hAction, hIndex, hEnd, -⟩ := (hIff _ timed clock crash).mp hOverflow
    cases hAction
    obtain rfl : 1 = index := Option.some.inj (hGround.symm.trans hIndex)
    revert hEnd
    cases direction <;> decide

/-- The floor index of an elevator is below all numbers of 64 bits. It is brought to the least one, and the program ends
over a move down from there: the dispatch has no outcome, and a replay of the plan is over at once and tells nothing. -/
theorem run_overflows :
    let lift : Problem := ⟨"lift", "elevator", [⟨"e", "elevator"⟩], [], [⟨"floor-index", ["e"], -1e300⟩], []⟩
    let timed : TimedAction Float := ⟨0, 0, "move-down", [⟨"e"⟩], 1⟩
    let down : Action := .move .down ⟨"e"⟩ none
    Action.decode timed = .ok down ∧
      ∃ w table start, World.ofProblem lift = .ok w ∧
        (ActionTable.elevator (.ofConfig .default)).prepare w = .ok (table, start) ∧
        table.dispatch (.elevator down) timed start 0 = .error (.crashed (.floorOverflow ⟨"e"⟩ minInt64)) ∧
        let replay := (Timeline.ofPlan 1 table start ⟨.temporal, [timed], []⟩).start.1.step 9
        replay.1.status = .crashed (.floorOverflow ⟨"e"⟩ minInt64) ∧ replay.2 = [] := by
  intro lift timed down
  have hRun : (ofProblem? lift (.elevator (.ofConfig .default))).any (fun begun => decide (
      begun.2.table.dispatch (.elevator down) timed begun.2.world 0 =
        .error (.crashed (.floorOverflow ⟨"e"⟩ minInt64)) ∧
      ((Timeline.ofPlan 1 begun.2.table begun.2.world ⟨.temporal, [timed], []⟩).start.1.step 9).1.status =
        .crashed (.floorOverflow ⟨"e"⟩ minInt64) ∧
      ((Timeline.ofPlan 1 begun.2.table begun.2.world ⟨.temporal, [timed], []⟩).start.1.step 9).2 = [])) = true := by
    decide +kernel
  obtain ⟨w, table, start, hWorld, hPrepare, hFacts⟩ := exists_of_ofProblem? hRun
  exact ⟨by decide, w, table, start, hWorld, hPrepare, of_decide_eq_true hFacts⟩

end Simulation

end PlanReplay
