import PlanReplay.Ordered.Map
import PlanReplay.World.Entity

/-!
# Relations, facts and fluents

The vocabulary in which a world is described. A binary predicate that the domains know is a relation of one
of six kinds; any other ground predicate is a fact; a number attached to a tuple of entities is a fluent.

The orders defined here are the orders in which a world lists its relations, facts and fluents. Each is a
lexicographic order of the parts, and lawful: what compares as equal is equal.
-/

namespace PlanReplay

open Std

/-- The kinds of relations, in their order. -/
inductive RelationKind where
  | isAt
  | isIn
  | carries
  | above
  | connected
  | target
deriving DecidableEq

namespace RelationKind

/-- The relation that a binary predicate stands for. The name is taken as it is, in lower case. -/
def ofPredicate? : String → Option RelationKind
  | "at" | "at-person" | "at-elevator" | "at-robby" | "lift-at" => some .isAt
  | "in" => some .isIn
  | "carry" | "carries" => some .carries
  | "above" => some .above
  | "connected" | "link" => some .connected
  | "target" | "destin" => some .target
  | _ => none

/-- A functional kind relates a subject to at most one object. -/
def isFunctional : RelationKind → Bool
  | .isAt | .isIn | .target => true
  | _ => false

def name : RelationKind → String
  | .isAt => "at"
  | .isIn => "in"
  | .carries => "carries"
  | .above => "above"
  | .connected => "connected"
  | .target => "target"

/-- The place of a kind in the order of kinds. -/
def rank : RelationKind → Nat
  | .isAt => 0
  | .isIn => 1
  | .carries => 2
  | .above => 3
  | .connected => 4
  | .target => 5

theorem rank_injective {a b : RelationKind} (h : a.rank = b.rank) : a = b := by
  cases a <;> cases b <;> simp_all [rank]

end RelationKind

/-- One entity stands to another in a relation. -/
structure Relation where
  kind : RelationKind
  subject : EntityId
  object : EntityId
deriving DecidableEq

namespace Relation

/-- Relations are ordered by kind, then subject, then object. -/
def order : Relation → Relation → Ordering :=
  compareLex (compareOn fun r => r.kind.rank) (compareLex (compareOn subject) (compareOn object))

instance : Ord Relation := ⟨order⟩

instance : TransOrd Relation :=
  inferInstanceAs (TransCmp (compareLex (compareOn fun r : Relation => r.kind.rank)
    (compareLex (compareOn subject) (compareOn object))))

instance : LawfulEqOrd Relation where
  compare_self := (inferInstance : ReflCmp (compareLex (compareOn fun r : Relation => r.kind.rank)
    (compareLex (compareOn subject) (compareOn object)))).compare_self
  eq_of_compare {a b} h := by
    obtain ⟨h1, h2⟩ := Ordering.then_eq_eq.1 h
    obtain ⟨h2, h3⟩ := Ordering.then_eq_eq.1 h2
    cases a; cases b
    congr
    · exact RelationKind.rank_injective (LawfulEqOrd.eq_of_compare h1)
    · exact LawfulEqOrd.eq_of_compare h2
    · exact LawfulEqOrd.eq_of_compare h3

/-- A relation as a ground atom. -/
def text (r : Relation) : String :=
  "(" ++ r.kind.name ++ " " ++ r.subject.text ++ " " ++ r.object.text ++ ")"

end Relation

/-- A ground predicate that is no relation, such as `(free r1)`. -/
structure Fact where
  name : String
  args : List EntityId
deriving DecidableEq

namespace Fact

/-- The fact with a given predicate name, in any case. -/
def ofName (name : String) (args : List EntityId) : Fact := ⟨Text.lower name, args⟩

/-- Facts are ordered by name, then arguments. -/
def order : Fact → Fact → Ordering := compareLex (compareOn name) (compareOn args)

instance : Ord Fact := ⟨order⟩

instance : TransOrd Fact := inferInstanceAs (TransCmp (compareLex (compareOn name) (compareOn args)))

instance : LawfulEqOrd Fact where
  compare_self := (inferInstance : ReflCmp (compareLex (compareOn name) (compareOn args))).compare_self
  eq_of_compare {a b} h := by
    obtain ⟨h1, h2⟩ := Ordering.then_eq_eq.1 h
    cases a; cases b
    congr
    · exact LawfulEqOrd.eq_of_compare h1
    · exact LawfulEqOrd.eq_of_compare h2

/-- A fact as a ground atom. -/
def text (f : Fact) : String := "(" ++ " ".intercalate (f.name :: f.args.map EntityId.text) ++ ")"

end Fact

/-- The names of fluents, in their order. -/
inductive ResourceKey where
  | capacity
  | maxLoad
  | load
  | passengers
  | weight
  | fuel
  | battery
  | floorIndex
  | distance
  | other (name : String)
deriving DecidableEq

namespace ResourceKey

/-- The fluent that a function name stands for. -/
def ofFunctionName (name : String) : ResourceKey :=
  let lowered := Text.lower (Text.trim name)
  match lowered with
  | "capacity" => .capacity
  | "max-load" | "max_load" => .maxLoad
  | "load" | "current-load" => .load
  | "passengers" => .passengers
  | "weight" => .weight
  | "fuel" | "fuel-level" => .fuel
  | "battery" | "battery-level" => .battery
  | "floor-index" | "floor" => .floorIndex
  | "distance" => .distance
  | _ => .other lowered

def name : ResourceKey → String
  | .capacity => "capacity"
  | .maxLoad => "max-load"
  | .load => "load"
  | .passengers => "passengers"
  | .weight => "weight"
  | .fuel => "fuel"
  | .battery => "battery"
  | .floorIndex => "floor-index"
  | .distance => "distance"
  | .other name => name

/-- The levels that cannot fall below zero. -/
def isNonNegative : ResourceKey → Bool
  | .fuel | .battery | .load | .passengers => true
  | _ => false

/-- The place of a key in the order of keys; all other keys share the last one. -/
def rank : ResourceKey → Nat
  | .capacity => 0
  | .maxLoad => 1
  | .load => 2
  | .passengers => 3
  | .weight => 4
  | .fuel => 5
  | .battery => 6
  | .floorIndex => 7
  | .distance => 8
  | .other _ => 9

theorem rank_name_injective {a b : ResourceKey} (h : a.rank = b.rank) (h' : a.name = b.name) : a = b := by
  cases a <;> cases b <;> simp_all [rank, name]

/-- Keys are ordered by rank; those that share one, by name. -/
def order : ResourceKey → ResourceKey → Ordering := compareLex (compareOn rank) (compareOn name)

instance : Ord ResourceKey := ⟨order⟩

instance : TransOrd ResourceKey := inferInstanceAs (TransCmp (compareLex (compareOn rank) (compareOn name)))

instance : LawfulEqOrd ResourceKey where
  compare_self := (inferInstance : ReflCmp (compareLex (compareOn rank) (compareOn name))).compare_self
  eq_of_compare {a b} h := by
    obtain ⟨h1, h2⟩ := Ordering.then_eq_eq.1 h
    exact rank_name_injective (LawfulEqOrd.eq_of_compare h1) (LawfulEqOrd.eq_of_compare h2)

end ResourceKey

/-- The place of a number in a world: a key and the entities it is about. -/
structure Fluent where
  key : ResourceKey
  args : List EntityId
deriving DecidableEq

namespace Fluent

/-- Fluents are ordered by key, then arguments. -/
def order : Fluent → Fluent → Ordering := compareLex (compareOn key) (compareOn args)

instance : Ord Fluent := ⟨order⟩

instance : TransOrd Fluent := inferInstanceAs (TransCmp (compareLex (compareOn key) (compareOn args)))

instance : LawfulEqOrd Fluent where
  compare_self := (inferInstance : ReflCmp (compareLex (compareOn key) (compareOn args))).compare_self
  eq_of_compare {a b} h := by
    obtain ⟨h1, h2⟩ := Ordering.then_eq_eq.1 h
    cases a; cases b
    congr
    · exact LawfulEqOrd.eq_of_compare h1
    · exact LawfulEqOrd.eq_of_compare h2

end Fluent

end PlanReplay
