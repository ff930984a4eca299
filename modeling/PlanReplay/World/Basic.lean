import PlanReplay.Scalar
import PlanReplay.World.Violation

/-!
# The world of a run

A world holds the declared entities and a state: relations, facts and fluents. The only way to change the
state is a batch of effects, `World.applyEffects`, which

1. refuses a batch that names an undeclared entity,
2. stages the effects one after the other on a copy, `State.applyAll`,
3. looks for a broken invariant among the entities that the batch touches, `State.violation?`,
4. and returns the staged state only if there is none.

The functions of the section on views tell what a world holds.
-/

namespace PlanReplay

variable {α : Type}

/-- One change of a state. -/
inductive Effect (α : Type) where
  /-- Adds a relation. A functional kind forgets the previous object of the subject. -/
  | relate (relation : Relation)
  /-- Removes a relation that must hold. -/
  | unrelate (relation : Relation)
  /-- Gives a fluent a value. -/
  | assign (fluent : Fluent) (value : α)
  /-- Adds to a level of an entity that must have one. -/
  | adjust (entity : EntityId) (key : ResourceKey) (delta : α)
  /-- Adds a fact. -/
  | assert (fact : Fact)
  /-- Removes a fact that must hold. -/
  | retract (fact : Fact)
deriving DecidableEq

namespace Effect

/-- Gives a level of one entity a value. -/
def setLevel (entity : EntityId) (key : ResourceKey) (value : α) : Effect α := .assign ⟨key, [entity]⟩ value

/-- The entities that an effect names. -/
def touched : Effect α → List EntityId
  | .relate relation | .unrelate relation => [relation.subject, relation.object]
  | .assign fluent _ => fluent.args
  | .adjust entity _ _ => [entity]
  | .assert fact | .retract fact => fact.args

end Effect

/-- The relations, facts and fluents of a world. -/
structure State (α : Type) where
  relations : OrderedSet Relation
  facts : OrderedSet Fact
  fluents : OrderedMap Fluent α
deriving DecidableEq

namespace State

/-- The state in which nothing holds. -/
def empty : State α := ⟨.empty, .empty, .empty⟩

/-- The objects to which `subject` is related, in order. -/
def related (s : State α) (kind : RelationKind) (subject : EntityId) : List EntityId :=
  (s.relations.toList.filter fun r => r.kind = kind ∧ r.subject = subject).map (·.object)

/-- The subjects that are related to `object`, in order. -/
def subjectsOf (s : State α) (kind : RelationKind) (object : EntityId) : List EntityId :=
  (s.relations.toList.filter fun r => r.kind = kind ∧ r.object = object).map (·.subject)

/-- A level of an entity. -/
def level? (s : State α) (entity : EntityId) (key : ResourceKey) : Option α := s.fluents.get? ⟨key, [entity]⟩

/-- The relations with `relation` added; a functional kind keeps only the new object of the subject. -/
def relate (relations : OrderedSet Relation) (relation : Relation) : OrderedSet Relation :=
  let kept :=
    if relation.kind.isFunctional then
      relations.filter fun r => ¬ (r.kind = relation.kind ∧ r.subject = relation.subject)
    else
      relations
  kept.insert relation

/-- The state after one effect. -/
def apply [Scalar α] (s : State α) : Effect α → Except (Violation α) (State α)
  | .relate relation => .ok { s with relations := relate s.relations relation }
  | .unrelate relation =>
    if relation ∈ s.relations then .ok { s with relations := s.relations.erase relation }
    else .error (.missingRelation relation)
  | .assign fluent value => .ok { s with fluents := s.fluents.insert fluent value }
  | .adjust entity key delta =>
    match s.level? entity key with
    | some current => .ok { s with fluents := s.fluents.insert ⟨key, [entity]⟩ (current + delta) }
    | none => .error (.missingResource entity key)
  | .assert fact => .ok { s with facts := s.facts.insert fact }
  | .retract fact =>
    if fact ∈ s.facts then .ok { s with facts := s.facts.erase fact }
    else .error (.missingFact fact)

/-- The state after a list of effects, one after the other. -/
def applyAll [Scalar α] : State α → List (Effect α) → Except (Violation α) (State α)
  | s, [] => .ok s
  | s, effect :: rest =>
    match s.apply effect with
    | .ok next => next.applyAll rest
    | .error violation => .error violation

/-- The number of relations that place an entity: where it is, what it is in, and who carries it. -/
def placements (s : State α) (entity : EntityId) : Nat :=
  (s.related .isAt entity).length + (s.related .isIn entity).length + (s.subjectsOf .carries entity).length

/-- The violation by an entity that has several objects of a functional kind. -/
def functionalViolation? (s : State α) (entity : EntityId) (kind : RelationKind) : Option (Violation α) :=
  let count := (s.related kind entity).length
  if 1 < count then some (.functionalRelation entity kind count) else none

/-- The violation by a level above its limit, where an entity has both. -/
def limitViolation? [Scalar α] (s : State α) (entity : EntityId) (key limitKey : ResourceKey) :
    Option (Violation α) :=
  match s.level? entity key, s.level? entity limitKey with
  | some value, some limit =>
    if limit < value then some (.resourceExceeded entity key value limitKey limit) else none
  | _, _ => none

/-- The first invariant that an entity breaks. -/
def entityViolation? [Scalar α] (s : State α) (entity : EntityId) : Option (Violation α) :=
  s.functionalViolation? entity .isAt
    |>.or (s.functionalViolation? entity .isIn)
    |>.or (s.functionalViolation? entity .target)
    |>.or (if 1 < s.placements entity then some (.multiplePlacements entity (s.placements entity)) else none)
    |>.or (s.limitViolation? entity .load .maxLoad)
    |>.or (s.limitViolation? entity .passengers .capacity)

/-- The invariant that a fluent breaks: it is finite, and a level of one entity that cannot be negative is
not. -/
def fluentViolation? [Scalar α] (fluent : Fluent) (value : α) : Option (Violation α) :=
  if Scalar.isFinite value = false then some (.nonFinite fluent.key fluent.args)
  else
    match fluent.args with
    | [entity] =>
      if fluent.key.isNonNegative = true ∧ value < 0 then some (.negativeResource entity fluent.key value)
      else none
    | _ => none

/-- The first broken invariant among the given entities and the fluents about one of them; fluents about
no entity are always looked at. -/
def violation? [Scalar α] (s : State α) (touched : List EntityId) : Option (Violation α) :=
  (touched.findSome? s.entityViolation?).or
    (s.fluents.toList.findSome? fun (fluent, value) =>
      if fluent.args = [] ∨ ∃ arg ∈ fluent.args, arg ∈ touched then fluentViolation? fluent value else none)

end State

/-- Where an entity is. -/
inductive Placement where
  | isAt (place : EntityId)
  | isIn (container : EntityId)
  | carriedBy (carrier : EntityId)
deriving DecidableEq

/-- The declared entities of a run and what holds of them. -/
structure World (α : Type) where
  entities : OrderedMap EntityId EntityKind
  state : State α
deriving DecidableEq

namespace World

/-- The world without entities. -/
def empty : World α := ⟨.empty, .empty⟩

/-- The world with an entity declared. A second declaration replaces the kind. -/
def declare (w : World α) (id : EntityId) (kind : EntityKind) : World α :=
  { w with entities := w.entities.insert id kind }

/-! ## Views -/

/-- Whether an entity is declared. -/
def contains (w : World α) (id : EntityId) : Bool := w.entities.contains id

/-- The kind of a declared entity. -/
def kindOf? (w : World α) (id : EntityId) : Option EntityKind := w.entities.get? id

/-- The entities of a kind, in order. -/
def entitiesOfKind (w : World α) (kind : EntityKind) : List EntityId :=
  (w.entities.toList.filter fun (_, k) => k = kind).map Prod.fst

/-- The relations, in order. -/
def relations (w : World α) : List Relation := w.state.relations.toList

/-- The facts, in order. -/
def facts (w : World α) : List Fact := w.state.facts.toList

/-- The objects to which `subject` is related, in order. -/
def related (w : World α) (kind : RelationKind) (subject : EntityId) : List EntityId :=
  w.state.related kind subject

/-- The subjects that are related to `object`, in order. -/
def subjectsOf (w : World α) (kind : RelationKind) (object : EntityId) : List EntityId :=
  w.state.subjectsOf kind object

/-- The first object to which `subject` is related. -/
def related? (w : World α) (kind : RelationKind) (subject : EntityId) : Option EntityId :=
  (w.related kind subject).head?

/-- Whether a relation holds. -/
def holds (w : World α) (relation : Relation) : Bool := relation ∈ w.state.relations

/-- Whether any relation of a kind holds. -/
def hasRelations (w : World α) (kind : RelationKind) : Bool := w.relations.any fun r => r.kind = kind

/-- Whether a fact holds. -/
def hasFact (w : World α) (fact : Fact) : Bool := fact ∈ w.state.facts

/-- Whether any fact with a name holds. -/
def hasFactsNamed (w : World α) (name : String) : Bool := w.facts.any fun f => f.name = name

/-- The value of a fluent. -/
def fluent? (w : World α) (key : ResourceKey) (args : List EntityId) : Option α :=
  w.state.fluents.get? ⟨key, args⟩

/-- A level of an entity. -/
def level? (w : World α) (entity : EntityId) (key : ResourceKey) : Option α := w.state.level? entity key

/-- Where an entity is: at a place, in a container, or carried by the first who carries it. -/
def placement? (w : World α) (entity : EntityId) : Option Placement :=
  ((w.related? .isAt entity).map .isAt)
    |>.or ((w.related? .isIn entity).map .isIn)
    |>.or ((w.subjectsOf .carries entity).head?.map .carriedBy)

/-! ## Change -/

/-- The entities that a batch names, in the order of the effects. -/
def touchedBy (effects : List (Effect α)) : List EntityId := effects.flatMap Effect.touched

/-- The world after a batch of effects, or why the batch is refused. -/
def applyEffects [Scalar α] (w : World α) (effects : List (Effect α)) : Except (Violation α) (World α) :=
  match (touchedBy effects).find? fun id => !w.contains id with
  | some id => .error (.unknownEntity id)
  | none =>
    match w.state.applyAll effects with
    | .error violation => .error violation
    | .ok staged =>
      match staged.violation? (OrderedSet.ofList (touchedBy effects)).toList with
      | some violation => .error violation
      | none => .ok { w with state := staged }

/-- The world after one effect. -/
def applyEffect [Scalar α] (w : World α) (effect : Effect α) : Except (Violation α) (World α) :=
  w.applyEffects [effect]

/-- The world with a level of an entity set. -/
def setLevel [Scalar α] (w : World α) (entity : EntityId) (key : ResourceKey) (value : α) :
    Except (Violation α) (World α) :=
  w.applyEffect (.setLevel entity key value)

end World

end PlanReplay
