/-!
# JSON values

A JSON text as a tree. The tree also says where a text stops being JSON, because a reader that takes the
text from left to right may find a wrong value before it gets there: the place is the value `broken`, which
is then the last value of every array and object around it.

Some texts are JSON but have no meaning: a string with half of a surrogate pair, and a number too large for
a double. They stay in the tree, since a reader may have no use for that part of the text.
-/

namespace PlanReplay

/-- The meaning of a JSON number. -/
inductive Numeral where
  /-- A whole number of 64 bits, with or without sign. -/
  | whole (n : Int)
  /-- Any other number. -/
  | real (x : Float)
  | tooLarge
deriving DecidableEq

/-- A JSON value. Strings and keys without a meaning are `none`. -/
inductive JsonValue where
  | null
  | boolean (b : Bool)
  | number (n : Numeral)
  | string (s : Option String)
  | array (items : List JsonValue)
  | object (entries : List (Option String × JsonValue))
  /-- The text is no JSON from here on. -/
  | broken

namespace JsonValue

mutual

/-- Whether a value is JSON throughout. -/
def isIntact : JsonValue → Bool
  | broken => false
  | array items => areIntact items
  | object entries => areIntactEntries entries
  | _ => true

/-- Whether all items of an array are JSON throughout. -/
def areIntact : List JsonValue → Bool
  | [] => true
  | item :: rest => item.isIntact && areIntact rest

/-- Whether all values of an object are JSON throughout. -/
def areIntactEntries : List (Option String × JsonValue) → Bool
  | [] => true
  | (_, value) :: rest => value.isIntact && areIntactEntries rest

end

end JsonValue

end PlanReplay
