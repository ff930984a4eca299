import PlanReplay.Proofs.Logistics.Run

/-!
# Cities

A drive stays inside one city unless it is a drive between cities. This is checked where both ends of the drive have a
city; flights are not checked, and nobody asks what sort of vehicle it is that flies. So a truck gets to another city
by a flight too, and by two drives that meet where no city is.

* `Logistics.cityOf?_eq_some` — the city of a place that has exactly one.
* `Logistics.Table.entry_of_effects` — the actions by which an entity gets into a city.
* `Simulation.run_city` — the verbs by which an entity gets into a city along a run.
* `Simulation.run_city_of_flying_truck` — a truck flies to another city, or drives there through a package.
-/

namespace PlanReplay

variable {α : Type}

-- ---------------------------------------------------------------------------
-- Cities of places
-- ---------------------------------------------------------------------------

namespace Logistics

variable {w : World α} {place city : EntityId}

/-- The city of a place is told by a fact. -/
theorem hasFact_of_cityOf? (h : cityOf? w place = some city) : w.hasFact ⟨inCity, [place, city]⟩ = true := by
  obtain ⟨⟨name, args⟩, hFact, hTells⟩ := List.exists_of_findSome?_eq_some h
  dsimp only at hTells
  split at hTells
  · split at hTells
    · rename_i hHere
      obtain ⟨rfl, rfl⟩ := hHere
      cases hTells
      exact decide_eq_true hFact
    · cases hTells
  · cases hTells

/-- A place that a fact puts into a city has a city. -/
theorem isSome_cityOf? (h : w.hasFact ⟨inCity, [place, city]⟩ = true) : (cityOf? w place).isSome = true := by
  refine List.findSome?_isSome_iff.mpr ⟨_, of_decide_eq_true h, ?_⟩
  simp

/-- A place that is in exactly one city has this city. -/
theorem cityOf?_eq_some (hOne : ∃! city, w.hasFact ⟨inCity, [place, city]⟩ = true)
    (h : w.hasFact ⟨inCity, [place, city]⟩ = true) : cityOf? w place = some city := by
  obtain ⟨other, hOther⟩ := Option.isSome_iff_exists.mp (isSome_cityOf? h)
  rw [hOther, hOne.unique h (hasFact_of_cityOf? hOther)]

end Logistics

-- ---------------------------------------------------------------------------
-- Accepted actions
-- ---------------------------------------------------------------------------

namespace Logistics.Table

variable [Scalar α] {t : Table α} {w next : World α} {action : Action} {effects : List (Effect α)}

omit [Scalar α] in
/-- A drive that is allowed, and is no drive between cities, has both ends in the same city. -/
theorem city_of_cityBorder? {start goal startCity goalCity : EntityId}
    (h : cityBorder? w .drive start goal false = none) (hStart : cityOf? w start = some startCity)
    (hGoal : cityOf? w goal = some goalCity) : startCity = goalCity := by
  simpa [cityBorder?, hStart, hGoal] using h

/-- Where every place has exactly one city, an accepted action that takes an entity to a place of a city in which it has
not been at a place is an unloading of the entity, or a travel of it. A drive that is none between cities sets off from
somewhere that is no place. -/
theorem entry_of_effects (hSound : w.Sound) {Place : EntityId → Prop}
    (hCities : ∀ place, Place place → ∃! city, w.hasFact ⟨inCity, [place, city]⟩ = true)
    (hEffects : t.effects w action = .ok effects) (hApply : w.applyEffects effects = .ok next) {x place city : EntityId}
    (hThere : next.related? .isAt x = some place) (hPlace : Place place)
    (hCity : w.hasFact ⟨inCity, [place, city]⟩ = true)
    (hElsewhere : ∀ origin, w.related? .isAt x = some origin → Place origin →
      w.hasFact ⟨inCity, [origin, city]⟩ = false) :
    (∃ vehicle, action = .unload x vehicle place) ∨
      ∃ mode origin extra crossesCities, action = .travel mode x origin place extra crossesCities ∧
        (mode = .drive → crossesCities = false → ¬ Place origin) := by
  have hShift : Shift ⟨some action.vehicle, []⟩ action.subject effects action.landing? := shift_of_effects rfl hEffects
  rcases (World.holds_of_shift_iff hSound hShift hApply x (.isAt place)).mp (World.holds_of_related? hThere) with
    ⟨hSubject, hLanding⟩ | ⟨-, hStill⟩
  · cases action with
    | unload package vehicle location =>
      cases hSubject
      cases hLanding
      exact Or.inl ⟨vehicle, rfl⟩
    | travel mode vehicle origin goal extra crossesCities =>
      cases hSubject
      cases hLanding
      obtain ⟨hAt, hBorder, -⟩ := travel_eq_ok hEffects
      refine Or.inr ⟨mode, origin, extra, crossesCities, rfl, ?_⟩
      rintro rfl rfl hOrigin
      -- the city where the drive sets off is the city where it ends
      obtain ⟨start, hStart, -⟩ := hCities origin hOrigin
      have hSame : start = city := city_of_cityBorder? hBorder (cityOf?_eq_some (hCities origin hOrigin) hStart)
        (cityOf?_eq_some (hCities place hPlace) hCity)
      have hApart := hElsewhere origin ((World.related?_eq_some_iff hSound rfl).mpr hAt) hOrigin
      rw [← hSame, hStart] at hApart
      cases hApart
    | load | refuel => cases hLanding
  · -- whoever stays at the place has been in the city
    have hApart := hElsewhere place ((World.related?_eq_some_iff hSound rfl).mpr hStill) hPlace
    rw [hCity] at hApart
    cases hApart

end Logistics.Table

-- ---------------------------------------------------------------------------
-- Runs
-- ---------------------------------------------------------------------------

namespace Simulation

open Logistics

/--
**Who gets into a city.** Take a reachable world in which every place is in exactly one city, any calls on a table of
vehicles that was prepared for it, and an action of a plan that is decoded and accepted after them. If an entity is at a
place of a city then, and was at no place of this city before, the action is an unloading of the entity from what it was
in, or a travel of the entity from where it was; and the travel is a drive between cities, a flight, or a drive from
somewhere that is no place.
-/
theorem run_city {t : Logistics.Table Float} {table : ActionTable Float} {w start : World Float}
    (hReachable : w.Reachable) (hPrepare : (ActionTable.logistics t).prepare w = .ok (table, start))
    {Place : EntityId → Prop} (hCities : ∀ place, Place place → ∃! city, w.hasFact ⟨inCity, [place, city]⟩ = true)
    (calls : List (SimulationCall Float)) {timed : TimedAction Float} {action : DomainAction}
    (hDecode : table.decode timed = .ok action) {clock : Float} {next : Simulation Float} {applied : Applied Float}
    (hDispatch : ((Simulation.mk table start).run calls).table.dispatch action timed
      ((Simulation.mk table start).run calls).world clock = .ok (next.table, next.world, applied))
    {x place city : EntityId} (hThere : next.world.related? .isAt x = some place) (hPlace : Place place)
    (hCity : w.hasFact ⟨inCity, [place, city]⟩ = true)
    (hElsewhere : ∀ origin, ((Simulation.mk table start).run calls).world.related? .isAt x = some origin →
      Place origin → w.hasFact ⟨inCity, [origin, city]⟩ = false) :
    let before := ((Simulation.mk table start).run calls).world
    (∃ vehicle, timed.name ∈ ["unload-truck", "unload-airplane"] ∧ timed.args = [x, vehicle, place] ∧
        before.holds ⟨.isIn, x, vehicle⟩ = true) ∨
      ∃ origin, [x, origin, place] <+: timed.args ∧ before.holds ⟨.isAt, x, origin⟩ = true ∧
        (timed.name = "drive-between-cities" ∨ timed.name ∈ ["fly", "fly-airplane", "start-fly"] ∨
          (timed.name ∈ ["drive", "drive-truck", "start-drive"] ∧ ¬ Place origin)) := by
  intro before
  obtain ⟨rfl, hApplySeeds, -, hFacts⟩ := ActionTable.prepare_logistics hPrepare
  obtain ⟨hLast, hKept⟩ := run_logistics (s := ⟨.logistics t, start⟩) rfl calls
  have hSame : ∀ fact, before.hasFact fact = w.hasFact fact := by
    intro fact
    rw [hKept]
    simp only [World.hasFact, hFacts]
  have hSound : before.Sound := run_sound (World.applyEffects_sound hReachable.sound hApplySeeds) calls
  rw [hLast] at hDispatch
  rcases (ActionTable.dispatch_logistics hDispatch).2 with ⟨-, hNothing⟩ | ⟨act, effects, rfl, hEffects, hApply⟩
  · -- a wait takes nobody anywhere
    rw [hNothing] at hThere
    have hApart := hElsewhere place hThere hPlace
    rw [hCity] at hApart
    cases hApart
  · obtain ⟨hVerb, hArgs⟩ : timed.name ∈ act.verbs ∧ timed.args = act.referenced := by
      rcases ActionTable.decode_logistics hDecode with hWait | ⟨decoded, hAct, hDecoded⟩
      · cases hWait
      · cases hAct
        exact Action.decode_eq_ok hDecoded
    simp only [← hSame] at hCities hCity hElsewhere
    rcases Table.entry_of_effects hSound hCities hEffects hApply hThere hPlace hCity hElsewhere with
      ⟨vehicle, rfl⟩ | ⟨mode, origin, extra, crossesCities, rfl, hDrive⟩
    · have hHeld : before.holds ((Placement.isIn vehicle).relation x) = true := Table.holds_origin hEffects rfl
      exact Or.inl ⟨vehicle, hVerb, hArgs, hHeld⟩
    · have hStart : before.holds ((Placement.isAt origin).relation x) = true := Table.holds_origin hEffects rfl
      refine Or.inr ⟨origin, ⟨extra.toList, hArgs.symm⟩, hStart, ?_⟩
      cases mode <;> cases crossesCities
      · exact Or.inr (Or.inr ⟨hVerb, hDrive rfl rfl⟩)
      · exact Or.inl (List.mem_singleton.mp hVerb)
      · exact Or.inr (Or.inl hVerb)
      · cases hVerb

/-- A truck goes to another city aboard an airplane, and is unloaded there. -/
theorem run_city_of_carried_truck :
    let p : Problem := ⟨"delivery", "logistics",
      [⟨"t", "truck"⟩, ⟨"p", "airplane"⟩, ⟨"a", "location"⟩, ⟨"b", "location"⟩, ⟨"c", "city"⟩, ⟨"d", "city"⟩],
      [⟨"in-city", ["a", "c"]⟩, ⟨"in-city", ["b", "d"]⟩, ⟨"at", ["t", "a"]⟩, ⟨"at", ["p", "a"]⟩], [], []⟩
    let t : Logistics.Table Float := .ofConfig .default .event
    let call (name : String) (action : Action) : SimulationCall Float :=
      .dispatch (.logistics action) ⟨0, 0, name, action.referenced, 1⟩ 0
    let calls := [call "load-airplane" (.load ⟨"t"⟩ ⟨"p"⟩ ⟨"a"⟩), call "fly" (.travel .fly ⟨"p"⟩ ⟨"a"⟩ ⟨"b"⟩ none false)]
    let timed : TimedAction Float := ⟨0, 0, "unload-airplane", [⟨"t"⟩, ⟨"p"⟩, ⟨"b"⟩], 1⟩
    let unload : DomainAction := .logistics (.unload ⟨"t"⟩ ⟨"p"⟩ ⟨"b"⟩)
    ∃ w table start applied, World.ofProblem p = .ok w ∧ w.Reachable ∧
      (ActionTable.logistics t).prepare w = .ok (table, start) ∧
      (∀ place, place = ⟨"a"⟩ ∨ place = ⟨"b"⟩ → ∃! city, w.hasFact ⟨inCity, [place, city]⟩ = true) ∧
      table.decode timed = .ok unload ∧
      let before := (Simulation.mk table start).run calls
      let next := before.perform (.dispatch unload timed 0)
      before.table.dispatch unload timed before.world 0 = .ok (next.table, next.world, applied) ∧
        before.world.related? .isAt ⟨"t"⟩ = none ∧ next.world.related? .isAt ⟨"t"⟩ = some ⟨"b"⟩ ∧
        ((∃ vehicle, timed.name ∈ ["unload-truck", "unload-airplane"] ∧ timed.args = [⟨"t"⟩, vehicle, ⟨"b"⟩] ∧
            before.world.holds ⟨.isIn, ⟨"t"⟩, vehicle⟩ = true) ∨
          ∃ origin, [⟨"t"⟩, origin, ⟨"b"⟩] <+: timed.args ∧ before.world.holds ⟨.isAt, ⟨"t"⟩, origin⟩ = true ∧
            (timed.name = "drive-between-cities" ∨ timed.name ∈ ["fly", "fly-airplane", "start-fly"] ∨
              (timed.name ∈ ["drive", "drive-truck", "start-drive"] ∧ ¬ (origin = ⟨"a"⟩ ∨ origin = ⟨"b"⟩)))) := by
  intro p t call calls timed unload
  have hRun : (ofProblem? p (.logistics t)).any (fun begun => decide (
      begun.1.facts = [⟨inCity, [⟨"a"⟩, ⟨"c"⟩]⟩, ⟨inCity, [⟨"b"⟩, ⟨"d"⟩]⟩] ∧
      ((begun.2.run calls).reported? (.dispatch unload timed 0)).isSome = true ∧
      (begun.2.run calls).world.related? .isAt ⟨"t"⟩ = none ∧
      ((begun.2.run calls).perform (.dispatch unload timed 0)).world.related? .isAt ⟨"t"⟩ = some ⟨"b"⟩)) = true := by
    decide
  obtain ⟨w, table, start, hWorld, hPrepare, hChecked⟩ := exists_of_ofProblem? hRun
  obtain ⟨hFacts, hReported, hBefore, hThere⟩ := of_decide_eq_true hChecked
  obtain ⟨applied, hApplied⟩ := Option.isSome_iff_exists.mp hReported
  have hReachable : w.Reachable := .ofProblem hWorld
  have hKnown : ∀ fact, w.hasFact fact = true ↔ fact ∈ w.facts := fun _ => decide_eq_true_iff
  have hCities : ∀ place, place = ⟨"a"⟩ ∨ place = ⟨"b"⟩ → ∃! city, w.hasFact ⟨inCity, [place, city]⟩ = true := by
    rintro place (rfl | rfl) <;> simp [hKnown, hFacts]
  have hDecode : table.decode timed = .ok unload := by
    rw [(ActionTable.prepare_logistics hPrepare).1]
    rfl
  have hDispatch := dispatch_of_reported? hApplied
  have hCity : w.hasFact ⟨inCity, [⟨"b"⟩, ⟨"d"⟩]⟩ = true := by simp [hKnown, hFacts]
  have hEntry := run_city hReachable hPrepare hCities calls hDecode hDispatch hThere (Or.inr rfl) hCity
    (fun origin hOrigin => nomatch hBefore.symm.trans hOrigin)
  exact ⟨w, table, start, applied, hWorld, hReachable, hPrepare, hCities, hDecode, hDispatch, hBefore, hThere, hEntry⟩

/-- A truck flies to another city. It also drives there, though no drive between cities, in two drives that meet at a
package. -/
theorem run_city_of_flying_truck :
    let p : Problem := ⟨"delivery", "logistics",
      [⟨"t1", "truck"⟩, ⟨"l1", "location"⟩, ⟨"l3", "location"⟩, ⟨"c1", "city"⟩, ⟨"c2", "city"⟩, ⟨"pkg1", "package"⟩],
      [⟨"in-city", ["l1", "c1"]⟩, ⟨"in-city", ["l3", "c2"]⟩, ⟨"at", ["t1", "l1"]⟩, ⟨"at", ["pkg1", "l1"]⟩], [], []⟩
    let t : Logistics.Table Float := .ofConfig .default .classical
    let timed (name : String) (action : Action) : TimedAction Float := ⟨0, 0, name, action.referenced, 1⟩
    let call (name : String) (action : Action) : SimulationCall Float :=
      .dispatch (.logistics action) (timed name action) 0
    let flight : Action := .travel .fly ⟨"t1"⟩ ⟨"l1"⟩ ⟨"l3"⟩ none false
    let halfway : Action := .travel .drive ⟨"t1"⟩ ⟨"l1"⟩ ⟨"pkg1"⟩ none false
    let onward : Action := .travel .drive ⟨"t1"⟩ ⟨"pkg1"⟩ ⟨"l3"⟩ none false
    ∃ w table start, World.ofProblem p = .ok w ∧ (ActionTable.logistics t).prepare w = .ok (table, start) ∧
      w.kindOf? ⟨"t1"⟩ = some .truck ∧ w.facts = [⟨inCity, [⟨"l1"⟩, ⟨"c1"⟩]⟩, ⟨inCity, [⟨"l3"⟩, ⟨"c2"⟩]⟩] ∧
      table.decode (timed "fly" flight) = .ok (.logistics flight) ∧
      table.decode (timed "drive" halfway) = .ok (.logistics halfway) ∧
      table.decode (timed "drive" onward) = .ok (.logistics onward) ∧
      let first : Simulation Float := ⟨table, start⟩
      first.world.related? .isAt ⟨"t1"⟩ = some ⟨"l1"⟩ ∧
        first.accepted [call "fly" flight] = [.logistics flight] ∧
        (first.run [call "fly" flight]).world.related? .isAt ⟨"t1"⟩ = some ⟨"l3"⟩ ∧
        first.accepted [call "drive" halfway, call "drive" onward] = [.logistics halfway, .logistics onward] ∧
        (first.run [call "drive" halfway, call "drive" onward]).world.related? .isAt ⟨"t1"⟩ = some ⟨"l3"⟩ := by
  intro p t timed call flight halfway onward
  have hRun : (ofProblem? p (.logistics t)).any (fun begun => decide (
      begun.1.kindOf? ⟨"t1"⟩ = some .truck ∧
      begun.1.facts = [⟨inCity, [⟨"l1"⟩, ⟨"c1"⟩]⟩, ⟨inCity, [⟨"l3"⟩, ⟨"c2"⟩]⟩] ∧
      begun.2.world.related? .isAt ⟨"t1"⟩ = some ⟨"l1"⟩ ∧
      begun.2.accepted [call "fly" flight] = [.logistics flight] ∧
      (begun.2.run [call "fly" flight]).world.related? .isAt ⟨"t1"⟩ = some ⟨"l3"⟩ ∧
      begun.2.accepted [call "drive" halfway, call "drive" onward] = [.logistics halfway, .logistics onward] ∧
      (begun.2.run [call "drive" halfway, call "drive" onward]).world.related? .isAt ⟨"t1"⟩ = some ⟨"l3"⟩)) = true := by
    decide
  obtain ⟨w, table, start, hWorld, hPrepare, hChecked⟩ := exists_of_ofProblem? hRun
  obtain ⟨hKind, hFacts, hRest⟩ := of_decide_eq_true hChecked
  have hTable : table = .logistics t := (ActionTable.prepare_logistics hPrepare).1
  refine ⟨w, table, start, hWorld, hPrepare, hKind, hFacts, ?_, ?_, ?_, hRest⟩ <;> rw [hTable] <;> rfl

end Simulation

end PlanReplay
