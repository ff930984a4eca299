import PlanReplay.Problem.Basic
import PlanReplay.World.Basic

/-!
# The initial world of a problem

Every object is declared, also those that nothing mentions; what is mentioned and not declared is declared
as a plain object. Then the predicates and assignments are applied as one batch.
-/

namespace PlanReplay

open Text

/-- Why a problem has no initial world. -/
inductive WorldInitError where
  | inconsistent (violation : Violation Float)
  | nonFiniteAssignment (name : String) (args : List String)

def WorldInitError.message : WorldInitError → String
  | .inconsistent violation => "initial state is inconsistent: " ++ violation.message
  | .nonFiniteAssignment name args =>
    "function assignment '" ++ name ++ "' for " ++ bracketed (args.map quoted) ++ " is not a finite number"

namespace World

variable {α : Type}

/-- The world with the named entities declared, those that are not yet as plain objects. -/
def mention (w : World α) (names : List String) : World α :=
  names.foldl (fun w name =>
      let id := EntityId.ofName name
      if w.contains id then w else w.declare id .undeclared)
    w

/-- The effect of a predicate of the initial state. -/
def predicateEffect (atom : Atom) : Effect α :=
  let name := lower atom.name
  let args := atom.args.map EntityId.ofName
  match RelationKind.ofPredicate? name, args with
  | some kind, [subject, object] => .relate ⟨kind, subject, object⟩
  | _, _ => .assert ⟨name, args⟩

/-- The effect of an assignment of the initial state. -/
def assignmentEffect (f : Assignment) : Effect Float :=
  .assign ⟨.ofFunctionName f.name, f.args.map EntityId.ofName⟩ f.value

/-- The world with the objects of a problem and the names that its predicates and assignments mention. -/
def declared (p : Problem) : World α :=
  let objects := p.objects.foldl (fun (w : World α) object =>
    w.declare (EntityId.ofName object.name) (EntityKind.ofTypeName object.typeName)) empty
  objects.mention (p.predicates.flatMap (·.args) ++ p.functions.flatMap (·.args))

/-- The effects of the initial state of a problem. -/
def initialEffects (p : Problem) : List (Effect Float) :=
  p.predicates.map predicateEffect ++ p.functions.map assignmentEffect

/-- The initial world of a problem. -/
def ofProblem (p : Problem) : Except WorldInitError (World Float) :=
  match p.functions.find? fun f => !f.value.isFinite with
  | some f => .error (.nonFiniteAssignment f.name f.args)
  | none =>
    match (declared p).applyEffects (initialEffects p) with
    | .ok w => .ok w
    | .error violation => .error (.inconsistent violation)

end World

end PlanReplay
