import PlanReplay.Text.Search

/-!
# Entities

The objects of a problem. Planners write their names in any case and with stray blanks, so an entity is
known by its trimmed, lower-case name.
-/

namespace PlanReplay

open Std

/-- The name by which an object is known. -/
structure EntityId where
  text : String
deriving DecidableEq

namespace EntityId

/-- The entity with a given name: blanks around the name and the case of its ASCII letters do not
matter. -/
def ofName (name : String) : EntityId := ⟨Text.lower (Text.trim name)⟩

/-- Entities are ordered by their names. -/
instance : Ord EntityId where
  compare := compareOn EntityId.text

instance : TransOrd EntityId := inferInstanceAs (TransCmp (compareOn EntityId.text))

instance : LawfulEqOrd EntityId where
  compare_self := (inferInstance : ReflCmp (compareOn EntityId.text)).compare_self
  eq_of_compare {a b} h := by
    cases a; cases b
    congr
    exact LawfulEqOrd.eq_of_compare h

end EntityId

/-- What an entity is. Types that the domains do not know keep their lower-case name. -/
inductive EntityKind where
  | truck
  | airplane
  | package
  | location
  | airport
  | city
  | person
  | elevator
  | floor
  | robot
  | room
  | ball
  | other (name : String)
deriving DecidableEq

namespace EntityKind

/-- The kind that a type name stands for; several kinds have a second name. -/
def ofTypeName (name : String) : EntityKind :=
  let lowered := Text.lower (Text.trim name)
  match lowered with
  | "truck" => .truck
  | "airplane" | "plane" => .airplane
  | "package" | "obj" => .package
  | "location" | "place" => .location
  | "airport" => .airport
  | "city" => .city
  | "person" | "passenger" => .person
  | "elevator" | "lift" => .elevator
  | "floor" => .floor
  | "robot" | "robby" => .robot
  | "room" => .room
  | "ball" => .ball
  | _ => .other lowered

/-- The first name of a kind. -/
def typeName : EntityKind → String
  | .truck => "truck"
  | .airplane => "airplane"
  | .package => "package"
  | .location => "location"
  | .airport => "airport"
  | .city => "city"
  | .person => "person"
  | .elevator => "elevator"
  | .floor => "floor"
  | .robot => "robot"
  | .room => "room"
  | .ball => "ball"
  | .other name => name

/-- Vehicles burn fuel when they move. -/
def isVehicle : EntityKind → Bool
  | .truck | .airplane => true
  | _ => false

/-- Places are where a vehicle or a package can stand. -/
def isPlace : EntityKind → Bool
  | .location | .airport => true
  | _ => false

/-- The kind of an entity that a problem mentions and does not declare. -/
def undeclared : EntityKind := .other "object"

end EntityKind

end PlanReplay
