import PlanReplay.Proofs.Domain.Deed
import PlanReplay.Proofs.Double

/-!
# What transitions tell

A viewer of a replay sees transitions and not the world. What a transition tells, about the subject and its start
and goal, is what has happened in the world: deeds are told as they are done.
-/

namespace PlanReplay

-- ---------------------------------------------------------------------------
-- Fractions of a way
-- ---------------------------------------------------------------------------

/-- What is told of a way on which someone stops is a fraction, if what is left of the way is a finite number. -/
theorem fraction_mem_unit {length travelled : Float}
    (hTravelled : travelled = length ∨ ∃ spare drain, ¬ drain ≤ 0 ∧ travelled = Scalar.nonNegative spare / drain)
    (hShort : ¬ length ≤ travelled) (hLeft : Scalar.isFinite (length - travelled) = true) :
    0 ≤ (if 0 < length then travelled / length else 0) ∧ (if 0 < length then travelled / length else 0) ≤ 1 := by
  obtain ⟨hLength, hPart⟩ := Double.finite_of_sub hLeft
  rcases hTravelled with rfl | ⟨spare, drain, hDrain, rfl⟩
  · exact absurd (Double.le_refl_of_finite hLength) hShort
  · split
    · rename_i hPositive
      have hUpright : Double.Upright (Double.parts (Scalar.nonNegative spare / drain)) :=
        Double.upright_repack
          (Double.upright_div (Double.upright_nonNegative spare) (Double.upright_of_not_le_zero hDrain))
      exact Double.div_mem_unit hUpright hPart hPositive hLength hShort
    · decide

-- ---------------------------------------------------------------------------
-- Transitions and worlds
-- ---------------------------------------------------------------------------

/-- A transition agrees with the worlds before and after the action, as far as its subject `x` goes. -/
structure Tells (resource? : Option ResourceKey) (w next : World Float) (x : EntityId)
    (transition : Transition Float) : Prop where
  /-- Who is taken up was at the place where the transition starts, and is held by the one where it ends. -/
  attach : transition.kind = .attach → ∃ place holder,
    transition.start = .entity place ∧ transition.goal = .entity holder ∧
    w.placement? x = some (.isAt place) ∧
    (next.placement? x = some (.isIn holder) ∨ next.placement? x = some (.carriedBy holder))
  /-- Who is let out was held by the one where the transition starts, and is at the place where it ends. -/
  detach : transition.kind = .detach → ∃ holder place,
    transition.start = .entity holder ∧ transition.goal = .entity place ∧
    (w.placement? x = some (.isIn holder) ∨ w.placement? x = some (.carriedBy holder)) ∧
    next.placement? x = some (.isAt place)
  arrive : transition.kind = .move → ∀ place, transition.goal = .entity place →
    next.placement? x = some (.isAt place)
  /-- Who stops on the way has not left, and has covered a fraction of the way. -/
  stop : transition.kind = .move → ∀ room goal fraction, transition.goal = .between room goal fraction →
    next.relations = w.relations ∧ 0 ≤ fraction ∧ fraction ≤ 1
  climb : transition.kind = .move → ∀ number, transition.goal = .level number →
    (w.level? x .floorIndex).isSome = true → next.level? x .floorIndex = some number
  /-- A resource had the one level, if there was a level, and has the other one. -/
  consume : transition.kind = .consumeResource → ∃ key before after, resource? = some key ∧
    transition.start = .level before ∧ transition.goal = .level after ∧
    ∀ level, w.level? x key = some level → level = before ∧ next.level? x key = some after

namespace World

variable {w next : World Float} {scope : Scope} {x : EntityId} {effects : List (Effect Float)}

/-- Where a batch that is accepted puts its subject, it is found. -/
theorem placement?_of_shift {p : Placement} (hSound : w.Sound) (hShift : Shift scope x effects (some p))
    (h : w.applyEffects effects = .ok next) : next.placement? x = some p := by
  have hNext : next.Sound := applyEffects_sound hSound h
  rw [placement?_eq_some_iff hNext]
  obtain ⟨-, staged, hStaged, -, rfl⟩ := applyEffects_eq_ok_iff.mp h
  exact (hShift.lands hStaged).1

theorem relations_of_shift (hShift : Shift scope x effects none) (h : w.applyEffects effects = .ok next) :
    next.relations = w.relations := by
  obtain ⟨-, staged, hStaged, -, rfl⟩ := applyEffects_eq_ok_iff.mp h
  exact congrArg OrderedSet.toList (hShift.stays hStaged)

theorem placement?_of_holds (hSound : w.Sound) {p : Placement} (h : w.holds (p.relation x) = true) :
    w.placement? x = some p :=
  (placement?_eq_some_iff hSound).mpr (of_decide_eq_true h)

/-- Who is held is in or carried by the holder. -/
theorem held_of_placement? {p : Placement} {holder : EntityId} (hHolder : p.holder? = some holder)
    (h : w.placement? x = some p) :
    w.placement? x = some (.isIn holder) ∨ w.placement? x = some (.carriedBy holder) := by
  cases p with
  | isAt place => cases hHolder
  | isIn container =>
    cases hHolder
    exact Or.inl h
  | carriedBy carrier =>
    cases hHolder
    exact Or.inr h

end World

/-- A deed is told as it is done. -/
theorem Deed.tells {resource? : Option ResourceKey} {scope : Scope} {w next : World Float}
    {effects : List (Effect Float)} {transition : Transition Float} {x : EntityId}
    (hDeed : Deed resource? scope w effects transition) (hSound : w.Sound)
    (hApply : w.applyEffects effects = .ok next) (hSubject : transition.subject = some x) :
    Tells resource? w next x transition := by
  have hNext : next.Sound := World.applyEffects_sound hSound hApply
  cases hDeed with
  | go hShift =>
    cases hSubject
    refine ⟨nofun, nofun, ?_, nofun, nofun, nofun⟩
    rintro - place hGoal
    cases hGoal
    exact World.placement?_of_shift hSound hShift hApply
  | attach held hHolder hPlace hShift =>
    cases hSubject
    refine ⟨?_, nofun, nofun, nofun, nofun, nofun⟩
    intro _
    have hHeld := World.placement?_of_shift hSound hShift hApply
    exact ⟨_, _, rfl, rfl, World.placement?_of_holds hSound hPlace, World.held_of_placement? hHolder hHeld⟩
  | detach held hHolder hHeld hShift =>
    cases hSubject
    refine ⟨nofun, ?_, nofun, nofun, nofun, nofun⟩
    intro _
    have hBefore := World.placement?_of_holds hSound hHeld
    exact ⟨_, _, rfl, rfl, World.held_of_placement? hHolder hBefore,
      World.placement?_of_shift hSound hShift hApply⟩
  | stop hTravelled hShort hShift hLeft =>
    cases hSubject
    refine ⟨nofun, nofun, nofun, ?_, nofun, nofun⟩
    rintro - room goal fraction hGoal
    cases hGoal
    refine ⟨World.relations_of_shift hShift hApply, fraction_mem_unit hTravelled hShort ?_⟩
    -- the world keeps what is left of the way, and keeps finite numbers only
    have hKept := World.level?_of_getLast? hApply hLeft
    exact hNext.state.finite _ _ hKept
  | climb hShift hNumber =>
    cases hSubject
    refine ⟨nofun, nofun, nofun, nofun, ?_, nofun⟩
    rintro - number hGoal hIndex
    cases hGoal
    exact World.level?_of_getLast? hApply (hNumber hIndex)
  | consume hKey hShift hLevel =>
    cases hSubject
    refine ⟨nofun, nofun, nofun, nofun, nofun, ?_⟩
    intro _
    refine ⟨_, _, _, hKey, rfl, rfl, ?_⟩
    intro level hBefore
    obtain ⟨hSame, hLast⟩ := hLevel level hBefore
    exact ⟨hSame, World.level?_of_getLast? hApply hLast⟩
  | mark hShift => exact ⟨nofun, nofun, nofun, nofun, nofun, nofun⟩

namespace ActionTable

/--
**Transitions tell what happens.** Take an action, of whatever domain, that is accepted in a reachable world, and
the subject of its transition. Who is attached was at the start and is in or carried by the goal, and the other
way round for who is detached. Who moves to a place is at it, and who stops between two has not moved and is told
a fraction from zero to one; an elevator that moves to a number and has a floor index has that number as its
index. A resource goes from the one level to the other: fuel of vehicles and batteries of robots.
-/
theorem dispatch_tells {t table : ActionTable Float} {action : DomainAction} {a : TimedAction Float}
    {w next : World Float} {clock : Float} {applied : Applied Float} {x : EntityId} (hReachable : w.Reachable)
    (h : t.dispatch action a w clock = .ok (table, next, applied)) (hSubject : applied.transition.subject = some x) :
    Tells t.domain.resource? w next x applied.transition := by
  rcases deed_of_dispatch h with ⟨-, hNobody⟩ | ⟨effects, hApply, hDeed⟩
  · rw [hNobody] at hSubject
    cases hSubject
  · exact hDeed.tells hReachable.sound hApply hSubject

/-- The battery of a robot suffices for a part of the way to the next room: the robot is still in the first room
and is told to be between the two. -/
theorem dispatch_tells_of_short_battery :
    let calls : List (WorldCall Float) :=
      [.declare ⟨"r"⟩ .robot, .declare ⟨"a"⟩ .room, .declare ⟨"b"⟩ .room,
        .applyEffects [.relate ⟨.isAt, ⟨"r"⟩, ⟨"a"⟩⟩, .assign ⟨.battery, [⟨"r"⟩]⟩ 15.3,
          .assign ⟨.distance, [⟨"a"⟩, ⟨"b"⟩]⟩ 7]]
    let w := calls.foldl (fun w call => (w.perform call).1) World.empty
    let t : ActionTable Float := .robot (.ofConfig .default)
    let action : DomainAction := .robot (.travel ⟨"r"⟩ ⟨"a"⟩ ⟨"b"⟩ false)
    let a : TimedAction Float := ⟨0, 0, "startmove", [⟨"r"⟩, ⟨"a"⟩, ⟨"b"⟩], 1⟩
    let fraction : Float := (15.3 - 10) / 2 / 7
    w.Reachable ∧ ∃ table next applied, t.dispatch action a w 0 = .ok (table, next, applied) ∧
      applied.transition.subject = some ⟨"r"⟩ ∧ applied.transition.goal = .between ⟨"a"⟩ ⟨"b"⟩ fraction ∧
      next.relations = w.relations ∧ 0 ≤ fraction ∧ fraction ≤ 1 ∧
      Tells t.domain.resource? w next ⟨"r"⟩ applied.transition := by
  intro calls w t action a fraction
  have hReachable : w.Reachable := .perform (.perform (.perform (.perform .empty _) _) _) _
  have hShown : (t.dispatch action a w 0).map (fun result => result.2.2.transition) =
      .ok ⟨"startmove", some ⟨"r"⟩, .move, .entity ⟨"a"⟩, .between ⟨"a"⟩ ⟨"b"⟩ fraction,
        .distance ((15.3 - 10) / 2) 1⟩ := by
    decide
  cases hResult : t.dispatch action a w 0 with
  | error reason =>
    rw [hResult] at hShown
    cases hShown
  | ok result =>
    obtain ⟨table, next, applied⟩ := result
    rw [hResult] at hShown
    have hTransition := Except.ok.inj hShown
    have hSubject : applied.transition.subject = some ⟨"r"⟩ := congrArg Transition.subject hTransition
    have hGoal : applied.transition.goal = .between ⟨"a"⟩ ⟨"b"⟩ fraction := congrArg Transition.goal hTransition
    have hTells := dispatch_tells hReachable hResult hSubject
    obtain ⟨hStays, hBounds⟩ := hTells.stop (congrArg Transition.kind hTransition) _ _ _ hGoal
    exact ⟨hReachable, table, next, applied, rfl, hSubject, hGoal, hStays, hBounds.1, hBounds.2, hTells⟩

end ActionTable

end PlanReplay
