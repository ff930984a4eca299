import Mathlib.Data.Finset.Card
import Mathlib.Logic.Relation
import Mathlib.Order.Bounds.Basic
import PlanReplay.Proofs.Elevator.Occupancy

/-!
# The order of the floors

The floors of a world are sorted by their heights, and the height of a floor is found by walking down along `above`,
with the heights that are known already and no further than a cap. Where no floor is above itself, every way down is
shorter than the cap. So a height is the number of steps of the longest way down, in whatever order the floors are
visited, and a floor comes after all that it is above.

* `World.Above`, `World.Layered` — what is above what, and that it goes round nowhere.
* `World.Descends`, `World.IsHeight` — ways down, and the longest one.
* `World.mem_floorOrder_iff`, `World.nodup_floorOrder` — the order lists every floor once, also where `above` goes round.
* `World.walk_heightOf` — a walk finds the height of its floor, and all heights that it adds are right.
* `World.meetsCap`, `World.heightsMeetCap` — whether a walk is cut, and whether one is while the heights are found.
* `World.heights_of_uncut` — where none is cut, every greater cap leads to the same heights.
* `World.Layered.heights_get?`, `World.Layered.idxOf_lt_iff` — heights are the longest ways down, and the order is that of
  heights and names.
* `World.floorOrder_topological` — in a layered world no walk is cut, and the order goes upwards.
-/

namespace PlanReplay

variable {α : Type}

-- ---------------------------------------------------------------------------
-- Sorted lists
-- ---------------------------------------------------------------------------

section Sorted

variable {β : Type} {before : β → β → Prop} {l : List β}

/-- In a list in a strict order, what is before something else has the lesser place. -/
theorem idxOf_lt_iff_of_pairwise [DecidableEq β] (h : l.Pairwise before) (hAsymm : ∀ x y, before x y → ¬ before y x)
    {a b : β} (ha : a ∈ l) (hb : b ∈ l) : l.idxOf a < l.idxOf b ↔ before a b := by
  have hPlaceA := List.idxOf_lt_length_of_mem ha
  have hPlaceB := List.idxOf_lt_length_of_mem hb
  have hOrder := List.pairwise_iff_getElem.mp h
  constructor
  · intro hLess
    have hBefore := hOrder _ _ hPlaceA hPlaceB hLess
    rwa [List.getElem_idxOf, List.getElem_idxOf] at hBefore
  · intro hBefore
    rcases Nat.lt_trichotomy (l.idxOf a) (l.idxOf b) with hLess | hSame | hAfter
    · exact hLess
    · rw [(List.idxOf_inj ha).mp hSame] at hBefore
      exact absurd hBefore (hAsymm b b hBefore)
    · have hBack := hOrder _ _ hPlaceB hPlaceA hAfter
      rw [List.getElem_idxOf, List.getElem_idxOf] at hBack
      exact absurd hBefore (hAsymm b a hBack)

end Sorted

namespace World

variable {w : World α} {floor upper lower : EntityId} {known : OrderedMap EntityId Nat}

-- ---------------------------------------------------------------------------
-- Floors
-- ---------------------------------------------------------------------------

/-- The relation `above` holds of two floors. -/
def Above (w : World α) (upper lower : EntityId) : Prop := w.holds ⟨.above, upper, lower⟩ = true

theorem mem_relations_of_above (h : w.Above upper lower) : (⟨.above, upper, lower⟩ : Relation) ∈ w.relations :=
  OrderedSet.mem_toList.mpr (of_decide_eq_true h)

theorem mem_related_above_iff : lower ∈ w.related .above upper ↔ w.Above upper lower :=
  State.mem_related_iff.trans decide_eq_true_iff.symm

/-- The floors are the entities of this kind and whatever stands in the `above` relation. -/
theorem mem_floors_iff {id : EntityId} :
    id ∈ w.floors ↔ w.kindOf? id = some .floor ∨ ∃ other, w.Above id other ∨ w.Above other id := by
  rw [floors, OrderedSet.mem_ofList, List.mem_append, mem_entitiesOfKind_iff, List.mem_flatMap]
  refine or_congr_right ?_
  constructor
  · rintro ⟨r, hr, hEnd⟩
    obtain ⟨hRelation, hKind⟩ := List.mem_filter.mp hr
    have hHolds : w.holds r = true := decide_eq_true (OrderedSet.mem_toList.mp hRelation)
    obtain ⟨kind, subject, object⟩ := r
    obtain rfl : kind = .above := of_decide_eq_true hKind
    rcases List.mem_pair.mp hEnd with rfl | rfl
    · exact ⟨object, Or.inl hHolds⟩
    · exact ⟨subject, Or.inr hHolds⟩
  · rintro ⟨other, hUp | hDown⟩
    · exact ⟨_, List.mem_filter.mpr ⟨mem_relations_of_above hUp, rfl⟩, by simp⟩
    · exact ⟨_, List.mem_filter.mpr ⟨mem_relations_of_above hDown, rfl⟩, by simp⟩

/-- The order lists the floors. -/
theorem mem_floorOrder_iff {id : EntityId} :
    id ∈ w.floorOrder ↔ w.kindOf? id = some .floor ∨ ∃ other, w.Above id other ∨ w.Above other id :=
  (sortByKey_perm _ _).mem_iff.trans mem_floors_iff

/-- The order lists nothing twice. -/
theorem nodup_floorOrder (w : World α) : w.floorOrder.Nodup :=
  (sortByKey_perm _ _).nodup_iff.mpr w.floors.nodup_toList

-- ---------------------------------------------------------------------------
-- Layers
-- ---------------------------------------------------------------------------

/-- No floor is above itself, directly or through others. -/
def Layered (w : World α) : Prop := ∀ floor, ¬ Relation.TransGen w.Above floor floor

/-- Floors with numbers that go down along `above` are layered. -/
theorem layered_of_rank (rank : EntityId → Nat)
    (h : ∀ r ∈ w.relations, r.kind = .above → rank r.object < rank r.subject) : w.Layered := by
  have hLess : ∀ {upper lower}, Relation.TransGen w.Above upper lower → rank lower < rank upper := by
    intro upper lower hPath
    induction hPath with
    | single hStep => exact h _ (mem_relations_of_above hStep) rfl
    | tail _ hStep ih => exact (h _ (mem_relations_of_above hStep) rfl).trans ih
  exact fun floor hCycle => Nat.lt_irrefl _ (hLess hCycle)

/-- The number of floors below a floor goes down along `above`, and there are no more floors than there are. -/
theorem Layered.exists_rank (h : w.Layered) :
    ∃ rank : EntityId → Nat, (∀ upper lower, w.Above upper lower → rank lower < rank upper) ∧
      ∀ floor, rank floor ≤ w.floors.toList.length := by
  classical
  let below (floor : EntityId) : Finset EntityId :=
    w.floors.toList.toFinset.filter fun other => Relation.TransGen w.Above floor other
  refine ⟨fun floor => (below floor).card, ?_, ?_⟩
  · intro upper lower hAbove
    -- what is below the lower floor is below the upper one, which has the lower one itself besides
    have hMore : below lower ⊆ below upper := by
      refine Finset.monotone_filter_right _ ?_
      exact fun other _ hOther => .head hAbove hOther
    have hFloor : lower ∈ w.floors.toList := mem_floors_iff.mpr (Or.inr ⟨upper, Or.inr hAbove⟩)
    have hIn : lower ∈ below upper := Finset.mem_filter.mpr ⟨List.mem_toFinset.mpr hFloor, .single hAbove⟩
    have hOut : lower ∉ below lower := fun hSelf => h lower (Finset.mem_filter.mp hSelf).2
    exact Finset.card_lt_card (Finset.ssubset_iff_subset_ne.mpr ⟨hMore, fun hSame => hOut (hSame ▸ hIn)⟩)
  · exact fun floor => (Finset.card_filter_le _ _).trans (List.toFinset_card_le _)

/-- There is a way of this many steps down from a floor. -/
inductive Descends (above : EntityId → EntityId → Prop) : EntityId → Nat → Prop where
  | stay (floor : EntityId) : Descends above floor 0
  | step {upper lower : EntityId} {steps : Nat} (h : above upper lower) (hRest : Descends above lower steps) :
      Descends above upper (steps + 1)

/-- The height of a floor is the number of steps of the longest way down from it. -/
def IsHeight (w : World α) (floor : EntityId) (height : Nat) : Prop :=
  IsGreatest {steps | Descends w.Above floor steps} height

/-- A floor is higher than those that it is above. -/
theorem IsHeight.lt {height height' : Nat} (hUpper : w.IsHeight upper height) (hLower : w.IsHeight lower height')
    (h : w.Above upper lower) : height' < height :=
  hUpper.2 (Descends.step h hLower.1)

-- ---------------------------------------------------------------------------
-- Walks
-- ---------------------------------------------------------------------------

/-- What is found on the way through the floors right below a floor: the greatest number of steps so far, and the
heights that are known. -/
def lookBelow (w : World α) (depth : Nat) (found : Nat × OrderedMap EntityId Nat) (lower : EntityId) :
    Nat × OrderedMap EntityId Nat :=
  (max found.1 ((w.heightOf depth lower found.2).1 + 1), (w.heightOf depth lower found.2).2)

/-- The heights that are known after a look at some floors do not depend on the greatest number of steps. -/
theorem snd_foldl_lookBelow {depth : Nat} (lowers : List EntityId) (start : Nat × OrderedMap EntityId Nat) :
    lowers.foldl (fun known lower => (w.heightOf depth lower known).2) start.2 =
      (lowers.foldl (w.lookBelow depth) start).2 :=
  List.foldl_hom Prod.snd fun _ _ => rfl

theorem heightOf_known {height : Nat} (h : known.get? floor = some height) (depth : Nat) :
    w.heightOf depth floor known = (height, known) := by
  unfold heightOf
  rw [h]

theorem heightOf_succ (h : known.get? floor = none) (depth : Nat) :
    w.heightOf (depth + 1) floor known =
      (((w.related .above floor).foldl (w.lookBelow depth) (0, known)).1,
        ((w.related .above floor).foldl (w.lookBelow depth) (0, known)).2.insert floor
          ((w.related .above floor).foldl (w.lookBelow depth) (0, known)).1) := by
  rw [heightOf, h]
  rfl

/-- The heights of all floors are those that are known after a look at every floor. -/
theorem heights_eq_lookBelow :
    w.heights = (w.floors.toList.foldl (w.lookBelow (w.floors.toList.length + 1)) (0, .empty)).2 :=
  snd_foldl_lookBelow w.floors.toList (0, .empty)

/-- The heights that are known are right. -/
def KnowsHeights (w : World α) (known : OrderedMap EntityId Nat) : Prop :=
  ∀ floor height, known.get? floor = some height → w.IsHeight floor height

/-- A walk from a floor finds its height. The heights that were known stay, and those that the walk adds are right. -/
structure Walk (w : World α) (floor : EntityId) (known : OrderedMap EntityId Nat)
    (result : Nat × OrderedMap EntityId Nat) : Prop where
  height : w.IsHeight floor result.1
  noted : result.2.get? floor = some result.1
  right : w.KnowsHeights result.2
  kept : ∀ other height, known.get? other = some height → result.2.get? other = some height

/-- What is found after some of the floors right below a floor, from `start` on. -/
structure Looked (w : World α) (lowers : List EntityId) (start found : Nat × OrderedMap EntityId Nat) : Prop where
  right : w.KnowsHeights found.2
  kept : ∀ other height, start.2.get? other = some height → found.2.get? other = some height
  noted : ∀ lower ∈ lowers, ∃ height, found.2.get? lower = some height
  start_le : start.1 ≤ found.1
  bound : ∀ lower ∈ lowers, ∀ steps, Descends w.Above lower steps → steps < found.1
  reached : found.1 = start.1 ∨ ∃ lower ∈ lowers, ∃ steps, Descends w.Above lower steps ∧ found.1 = steps + 1

/-- Looking at the floors below one after the other: by induction on the list of them. -/
theorem looked_foldl {depth : Nat} (lowers : List EntityId)
    (hWalk : ∀ lower ∈ lowers, ∀ known, w.KnowsHeights known → w.Walk lower known (w.heightOf depth lower known)) :
    ∀ start : Nat × OrderedMap EntityId Nat, w.KnowsHeights start.2 →
      w.Looked lowers start (lowers.foldl (w.lookBelow depth) start) := by
  induction lowers with
  | nil => exact fun start hRight => ⟨hRight, fun _ _ h => h, nofun, le_rfl, nofun, Or.inl rfl⟩
  | cons lower rest ih =>
    intro start hRight
    rw [List.forall_mem_cons] at hWalk
    have hHere := hWalk.1 start.2 hRight
    have hRest := ih hWalk.2 (w.lookBelow depth start lower) hHere.right
    -- the first floor takes the greatest number of steps at least to one above its height
    have hFirst : (w.heightOf depth lower start.2).1 + 1 ≤ (w.lookBelow depth start lower).1 := le_max_right _ _
    refine ⟨hRest.right, ?_, ?_, (le_max_left _ _).trans hRest.start_le, ?_, ?_⟩
    · exact fun other height hKnown => hRest.kept other height (hHere.kept other height hKnown)
    · exact List.forall_mem_cons.mpr ⟨⟨_, hRest.kept lower _ hHere.noted⟩, hRest.noted⟩
    · rw [List.forall_mem_cons]
      refine ⟨fun steps hSteps => ?_, hRest.bound⟩
      exact (Nat.lt_succ_of_le (hHere.height.2 hSteps)).trans_le (hFirst.trans hRest.start_le)
    · rw [List.foldl_cons]
      rcases hRest.reached with hStart | ⟨other, hOther, hSteps⟩
      · rw [hStart]
        rcases le_total ((w.heightOf depth lower start.2).1 + 1) start.1 with hLow | hHigh
        · exact Or.inl (max_eq_left hLow)
        · exact Or.inr ⟨lower, List.mem_cons_self, _, hHere.height.1, max_eq_right hHigh⟩
      · exact Or.inr ⟨other, List.mem_cons_of_mem _ hOther, hSteps⟩

/-- **Walks find heights.** A walk with more steps left than the rank of its floor finds the height of the floor: by
induction on the steps that are left. -/
theorem walk_heightOf {rank : EntityId → Nat} (hRank : ∀ upper lower, w.Above upper lower → rank lower < rank upper) :
    ∀ depth floor known, rank floor < depth → w.KnowsHeights known →
      w.Walk floor known (w.heightOf depth floor known) := by
  intro depth
  induction depth with
  | zero => exact fun floor known hLess => absurd hLess (Nat.not_lt_zero _)
  | succ depth ih =>
    intro floor known hLess hRight
    cases hKnown : known.get? floor with
    | some height =>
      rw [heightOf_known hKnown]
      exact ⟨hRight floor height hKnown, hKnown, hRight, fun _ _ h => h⟩
    | none =>
      have hLooked := looked_foldl (w.related .above floor) (fun lower hLower known' hRight' =>
        ih lower known' (Nat.lt_of_lt_of_le (hRank _ _ (mem_related_above_iff.mp hLower)) (Nat.le_of_lt_succ hLess))
          hRight') (0, known) hRight
      rw [heightOf_succ hKnown]
      generalize (w.related .above floor).foldl (w.lookBelow depth) (0, known) = found at hLooked ⊢
      -- the greatest number of steps is the height: a way down leads on from a floor right below
      have hHeight : w.IsHeight floor found.1 := by
        constructor
        · rcases hLooked.reached with hNone | ⟨lower, hLower, steps, hSteps, hSame⟩
          · rw [hNone]
            exact Descends.stay floor
          · rw [hSame]
            exact Descends.step (mem_related_above_iff.mp hLower) hSteps
        · intro steps hSteps
          cases hSteps with
          | stay => exact Nat.zero_le _
          | step hAbove hRest => exact hLooked.bound _ (mem_related_above_iff.mpr hAbove) _ hRest
      refine ⟨hHeight, OrderedMap.get?_insert_self _ _ _, ?_, ?_⟩
      · intro other height hOther
        rw [OrderedMap.get?_insert] at hOther
        split at hOther
        · rename_i hSame
          cases hOther
          rw [hSame]
          exact hHeight
        · exact hLooked.right other height hOther
      · intro other height hOther
        have hDiffer : other ≠ floor := by
          rintro rfl
          rw [hKnown] at hOther
          cases hOther
        exact (OrderedMap.get?_insert_ne _ _ hDiffer).trans (hLooked.kept other height hOther)

-- ---------------------------------------------------------------------------
-- The cap
-- ---------------------------------------------------------------------------

/-- Whether a walk is cut: whether it comes, with no steps left, to a floor whose height is not known. The walk goes on
from each floor with the heights that it has noted before. -/
def meetsCap (w : World α) : Nat → EntityId → OrderedMap EntityId Nat → Bool
  | depth, floor, known =>
    match known.get? floor with
    | some _ => false
    | none =>
      match depth with
      | 0 => true
      | depth + 1 =>
        ((w.related .above floor).foldl (fun (met, known) lower =>
          (met || w.meetsCap depth lower known, (w.heightOf depth lower known).2)) (false, known)).1

/-- Whether one of the walks is cut by which the heights of all floors are found. -/
def heightsMeetCap (w : World α) : Bool :=
  let floors := w.floors.toList
  (floors.foldl (fun (met, known) floor =>
    (met || w.meetsCap (floors.length + 1) floor known, (w.heightOf (floors.length + 1) floor known).2))
    (false, .empty)).1

/-- What is found on the way through some floors: whether a walk was cut so far, and the heights that are known. -/
def meetBelow (w : World α) (depth : Nat) (found : Bool × OrderedMap EntityId Nat) (lower : EntityId) :
    Bool × OrderedMap EntityId Nat :=
  (found.1 || w.meetsCap depth lower found.2, (w.heightOf depth lower found.2).2)

theorem meetsCap_known {height : Nat} (h : known.get? floor = some height) (depth : Nat) :
    w.meetsCap depth floor known = false := by
  unfold meetsCap
  rw [h]

theorem meetsCap_succ (h : known.get? floor = none) (depth : Nat) :
    w.meetsCap (depth + 1) floor known = ((w.related .above floor).foldl (w.meetBelow depth) (false, known)).1 := by
  rw [meetsCap, h]
  rfl

/-- No walk is cut if the one from the first floor is not, and none after it. -/
theorem foldl_meetBelow_eq_false_iff {depth : Nat} (lowers : List EntityId) :
    ∀ found : Bool × OrderedMap EntityId Nat, (lowers.foldl (w.meetBelow depth) found).1 = false ↔
      found.1 = false ∧ (lowers.foldl (w.meetBelow depth) (false, found.2)).1 = false := by
  induction lowers with
  | nil => exact fun found => (and_iff_left rfl).symm
  | cons lower rest ih =>
    intro found
    rw [List.foldl_cons, List.foldl_cons, ih, ih (w.meetBelow depth (false, found.2) lower)]
    simp only [meetBelow, Bool.or_eq_false_iff, Bool.false_or, and_assoc]

/-- Walks are not cut if none of them is, whatever heights are known. -/
theorem foldl_meetBelow_eq_false {depth : Nat} (lowers : List EntityId)
    (hUncut : ∀ lower ∈ lowers, ∀ known, w.meetsCap depth lower known = false) :
    ∀ known, (lowers.foldl (w.meetBelow depth) (false, known)).1 = false := by
  induction lowers with
  | nil => exact fun _ => rfl
  | cons lower rest ih =>
    intro known
    rw [List.forall_mem_cons] at hUncut
    rw [List.foldl_cons, foldl_meetBelow_eq_false_iff]
    exact ⟨hUncut.1 known, ih hUncut.2 _⟩

/-- A walk with more steps left than the rank of its floor is not cut: each step leads to a floor of a lower rank. -/
theorem meetsCap_eq_false {rank : EntityId → Nat}
    (hRank : ∀ upper lower, w.Above upper lower → rank lower < rank upper) :
    ∀ depth floor known, rank floor < depth → w.meetsCap depth floor known = false := by
  intro depth
  induction depth with
  | zero => exact fun floor known hLess => absurd hLess (Nat.not_lt_zero _)
  | succ depth ih =>
    intro floor known hLess
    cases hKnown : known.get? floor with
    | some height => exact meetsCap_known hKnown _
    | none =>
      rw [meetsCap_succ hKnown]
      refine foldl_meetBelow_eq_false _ (fun lower hLower known' => ih lower known' ?_) known
      exact Nat.lt_of_lt_of_le (hRank _ _ (mem_related_above_iff.mp hLower)) (Nat.le_of_lt_succ hLess)

/-- Floors are looked at with the same result under a greater cap, if no walk from them is cut. -/
theorem foldl_lookBelow_of_uncut {depth more : Nat} (lowers : List EntityId)
    (hSame : ∀ lower known, w.meetsCap depth lower known = false →
      w.heightOf (depth + more) lower known = w.heightOf depth lower known) :
    ∀ start : Nat × OrderedMap EntityId Nat, (lowers.foldl (w.meetBelow depth) (false, start.2)).1 = false →
      lowers.foldl (w.lookBelow (depth + more)) start = lowers.foldl (w.lookBelow depth) start := by
  induction lowers with
  | nil => exact fun _ _ => rfl
  | cons lower rest ih =>
    intro start hUncut
    obtain ⟨hHere, hRest⟩ := (foldl_meetBelow_eq_false_iff rest _).mp hUncut
    have hLook : w.lookBelow (depth + more) start lower = w.lookBelow depth start lower := by
      rw [lookBelow, hSame lower start.2 hHere]
      rfl
    rw [List.foldl_cons, List.foldl_cons, hLook]
    exact ih _ hRest

/-- A walk that is not cut goes the same way under every greater cap: by induction on the steps that are left. -/
theorem heightOf_of_uncut (more : Nat) :
    ∀ depth floor known, w.meetsCap depth floor known = false →
      w.heightOf (depth + more) floor known = w.heightOf depth floor known := by
  intro depth
  induction depth with
  | zero =>
    intro floor known hUncut
    cases hKnown : known.get? floor with
    | some height => rw [heightOf_known hKnown, heightOf_known hKnown]
    | none =>
      rw [meetsCap, hKnown] at hUncut
      cases hUncut
  | succ depth ih =>
    intro floor known hUncut
    cases hKnown : known.get? floor with
    | some height => rw [heightOf_known hKnown, heightOf_known hKnown]
    | none =>
      rw [meetsCap_succ hKnown] at hUncut
      rw [Nat.succ_add, heightOf_succ hKnown, heightOf_succ hKnown, foldl_lookBelow_of_uncut _ ih (0, known) hUncut]

/-- **Only a cut shows the cap.** If no walk is cut while the heights are found, then every greater cap leads to the same
heights. -/
theorem heights_of_uncut (h : w.heightsMeetCap = false) (more : Nat) :
    w.floors.toList.foldl (fun known floor => (w.heightOf (w.floors.toList.length + 1 + more) floor known).2) .empty =
      w.heights := by
  have hLook := foldl_lookBelow_of_uncut w.floors.toList (heightOf_of_uncut more _) (0, .empty) h
  rw [snd_foldl_lookBelow w.floors.toList (0, .empty), hLook, heights_eq_lookBelow]

/-- In a layered world the heights are found without a cut. -/
theorem Layered.heightsMeetCap_eq_false (h : w.Layered) : w.heightsMeetCap = false := by
  obtain ⟨rank, hRank, hBound⟩ := h.exists_rank
  exact foldl_meetBelow_eq_false _ (fun floor _ known =>
    meetsCap_eq_false hRank _ floor known (Nat.lt_succ_of_le (hBound floor))) .empty

/-- Where two floors are above each other, the walk from either goes round until it is cut. -/
example :
    let calls : List (WorldCall Float) :=
      [.declare ⟨"a"⟩ .floor, .declare ⟨"b"⟩ .floor,
        .applyEffects [.relate ⟨.above, ⟨"a"⟩, ⟨"b"⟩⟩, .relate ⟨.above, ⟨"b"⟩, ⟨"a"⟩⟩]]
    let w := calls.foldl (fun w call => (w.perform call).1) empty
    w.heightsMeetCap = true ∧ w.floorOrder.length = 2 := by
  decide

-- ---------------------------------------------------------------------------
-- Heights
-- ---------------------------------------------------------------------------

/-- **Heights are longest ways down.** In a layered world the height that is found for a floor is the number of steps of
the longest way down from it, and one is found for every floor. -/
theorem Layered.heights_get? (h : w.Layered) (hFloor : floor ∈ w.floors) :
    ∃ height, w.heights.get? floor = some height ∧ w.IsHeight floor height := by
  obtain ⟨rank, hRank, hBound⟩ := h.exists_rank
  have hLooked := looked_foldl w.floors.toList (fun floor _ known =>
    walk_heightOf hRank _ floor known (Nat.lt_succ_of_le (hBound floor))) (0, .empty) nofun
  obtain ⟨height, hHeight⟩ := hLooked.noted floor hFloor
  rw [heights_eq_lookBelow]
  exact ⟨height, hHeight, hLooked.right floor height hHeight⟩

/-- A floor stands lower than another one in the order if its longest way down is the shorter one, or they are equally
long and its name is the first in the order of names. -/
def StandsLower (w : World α) (lower upper : EntityId) : Prop :=
  ∃ height height', w.IsHeight lower height ∧ w.IsHeight upper height' ∧
    (height < height' ∨ height = height' ∧ compare lower upper = .lt)

/-- In a layered world the order lists the floors by heights and then by names. -/
theorem Layered.idxOf_lt_iff (h : w.Layered) (hLower : lower ∈ w.floorOrder) (hUpper : upper ∈ w.floorOrder) :
    w.floorOrder.idxOf lower < w.floorOrder.idxOf upper ↔ w.StandsLower lower upper := by
  obtain ⟨height, hKnown, hHeight⟩ := h.heights_get? ((sortByKey_perm _ _).mem_iff.mp hLower)
  obtain ⟨height', hKnown', hHeight'⟩ := h.heights_get? ((sortByKey_perm _ _).mem_iff.mp hUpper)
  have hPlaces := idxOf_lt_iff_of_pairwise
    (sortByKey_stable (fun floor => (w.heights.get? floor).getD 0) w.floors.ascending) ?asymm hLower hUpper
  case asymm =>
    rintro x y (hLess | ⟨hSame, hFirst⟩) (hBack | ⟨hSame', hFirst'⟩)
    · exact Int.lt_asymm hLess hBack
    · exact Int.ne_of_lt hLess hSame'.symm
    · exact Int.ne_of_lt hBack hSame.symm
    · exact compare_ne_lt x (Std.TransCmp.lt_trans hFirst hFirst')
  rw [hKnown, hKnown', Option.getD_some, Option.getD_some, Int.ofNat_lt, Int.ofNat_inj] at hPlaces
  refine hPlaces.trans ⟨fun hOrder => ⟨height, height', hHeight, hHeight', hOrder⟩, ?_⟩
  rintro ⟨other, other', hOther, hOther', hOrder⟩
  rwa [hHeight.unique hOther, hHeight'.unique hOther']

/-- In a layered world a floor comes after those that it is above. -/
theorem Layered.idxOf_lt (h : w.Layered) (hAbove : w.Above upper lower) :
    w.floorOrder.idxOf lower < w.floorOrder.idxOf upper := by
  have hUpper : upper ∈ w.floorOrder := mem_floorOrder_iff.mpr (Or.inr ⟨lower, Or.inl hAbove⟩)
  have hLower : lower ∈ w.floorOrder := mem_floorOrder_iff.mpr (Or.inr ⟨upper, Or.inr hAbove⟩)
  obtain ⟨height, -, hHeight⟩ := h.heights_get? ((sortByKey_perm _ _).mem_iff.mp hLower)
  obtain ⟨height', -, hHeight'⟩ := h.heights_get? ((sortByKey_perm _ _).mem_iff.mp hUpper)
  exact (h.idxOf_lt_iff hLower hUpper).mpr ⟨height, height', hHeight, hHeight', Or.inl (hHeight'.lt hHeight hAbove)⟩

/-- **The order of the floors is topological.** It lists every entity that is a floor or stands in the `above` relation,
and nothing twice, in every world. If nothing is above itself, directly or through others, then no walk is cut at the cap
while the heights are found, and a floor comes strictly after each one that it is above. -/
theorem floorOrder_topological (w : World α) :
    (w.floorOrder.Nodup ∧ ∀ id, id ∈ w.floorOrder ↔
      w.kindOf? id = some .floor ∨ ∃ other, w.Above id other ∨ w.Above other id) ∧
    (w.Layered → w.heightsMeetCap = false ∧
      ∀ upper lower, w.Above upper lower → w.floorOrder.idxOf lower < w.floorOrder.idxOf upper) :=
  ⟨⟨w.nodup_floorOrder, fun _ => mem_floorOrder_iff⟩,
    fun h => ⟨h.heightsMeetCap_eq_false, fun _ _ hAbove => h.idxOf_lt hAbove⟩⟩

/-- Two ways lead down from the attic to the cellar, one of them through two floors, and the names are in no order. A
place that is no floor is above the attic, and a floor is mentioned nowhere. -/
theorem floorOrder_topological_of_two_ways :
    let id (name : String) : EntityId := ⟨name⟩
    let calls : List (WorldCall Float) :=
      [.declare (id "attic") .floor, .declare (id "cellar") .floor, .declare (id "b") .floor, .declare (id "d") .floor,
        .declare (id "annex") .floor, .declare (id "antenna") .location,
        .applyEffects [.relate ⟨.above, id "attic", id "d"⟩, .relate ⟨.above, id "d", id "b"⟩,
          .relate ⟨.above, id "b", id "cellar"⟩, .relate ⟨.above, id "attic", id "cellar"⟩,
          .relate ⟨.above, id "antenna", id "attic"⟩]]
    let w := calls.foldl (fun w call => (w.perform call).1) empty
    w.Layered ∧ w.floorOrder = ["annex", "cellar", "b", "d", "attic", "antenna"].map id ∧ w.heightsMeetCap = false ∧
      ∀ upper lower, w.Above upper lower → w.floorOrder.idxOf lower < w.floorOrder.idxOf upper := by
  intro id calls w
  have hLayered : w.Layered := layered_of_rank w.floorOrder.idxOf (by decide)
  exact ⟨hLayered, by decide, (floorOrder_topological w).2 hLayered⟩

end World

end PlanReplay
