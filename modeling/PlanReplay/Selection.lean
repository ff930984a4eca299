import PlanReplay.Domain.Vocabulary
import PlanReplay.Text.Search

/-!
# Choosing a domain and its variant

Each domain comes in several variants, which differ in the plans their planners write and in whether their
problems have numbers. Not every combination exists; a `Selection` is one that does.
-/

namespace PlanReplay

open Text

/-- The variants of a domain. -/
inductive DomainVariant where
  | classical
  | numeric
  | temporal
  | event
deriving DecidableEq

namespace DomainVariant

def name : DomainVariant → String
  | .classical => "classical"
  | .numeric => "numeric"
  | .temporal => "temporal"
  | .event => "event"

/-- Whether problems of the variant have numbers. -/
def usesFunctions : DomainVariant → Bool
  | .classical => false
  | _ => true

end DomainVariant

/-- Why no domain is selected. -/
inductive SelectionError where
  | unknownKind (text : String)
  | unknownVariant (text : String)
  | unsupported (kind : DomainKind) (variant : DomainVariant)
deriving DecidableEq

def SelectionError.message : SelectionError → String
  | .unknownKind text => "unknown domain '" ++ text ++ "' (expected elevator, logistics or robot)"
  | .unknownVariant text =>
    "unknown domain variant '" ++ text ++ "' (expected classical, numeric, temporal or event)"
  | .unsupported kind variant => "the " ++ kind.name ++ " domain has no " ++ variant.name ++ " variant"

/-- The domain with a name, which may have blanks around it and any case. -/
def DomainKind.ofName? (text : String) : Option DomainKind :=
  match lower (trim text) with
  | "elevator" | "lift" => some .elevator
  | "logistics" | "logistic" => some .logistics
  | "robot" | "robots" => some .robot
  | _ => none

/-- The variant with a name, which may have blanks around it and any case. -/
def DomainVariant.ofName? (text : String) : Option DomainVariant :=
  match lower (trim text) with
  | "classical" | "normal" => some .classical
  | "numeric" | "2-1" => some .numeric
  | "temporal" => some .temporal
  | "event" | "plus" => some .event
  | _ => none

/-- The name of the domain file that exists for a combination. -/
def domainFile? : DomainKind → DomainVariant → Option String
  | .elevator, .classical => some "domain-elevator-normal-capacity-infinity.pddl"
  | .elevator, .numeric => some "domain-elevator-numeric.pddl"
  | .elevator, .event => some "domain-elevator-event.pddl"
  | .logistics, .classical => some "domain-logistic-normal.pddl"
  | .logistics, .numeric => some "domain-logistic-2-1.pddl"
  | .logistics, .event => some "domain-logistic-plus.pddl"
  | .robot, .classical => some "domain-robot-normal.pddl"
  | .robot, .temporal => some "domain-robot-temporal.pddl"
  | .robot, .event => some "domain-robot-event.pddl"
  | _, _ => none

/-- A domain in a variant that exists. -/
structure Selection where
  kind : DomainKind
  variant : DomainVariant
  exists_file : (domainFile? kind variant).isSome = true

namespace Selection

/-- The selection of a domain and a variant, if the domain has that variant. -/
def of (kind : DomainKind) (variant : DomainVariant) : Except SelectionError Selection :=
  if h : (domainFile? kind variant).isSome = true then .ok ⟨kind, variant, h⟩
  else .error (.unsupported kind variant)

/-- The name of the domain file. -/
def fileName (s : Selection) : String := (domainFile? s.kind s.variant).get s.exists_file

/-- The selection as messages write it. -/
def text (s : Selection) : String := s.kind.name ++ "/" ++ s.variant.name

end Selection

/-- The domain that a problem's domain name stands for. A qualified name such as `elevator-numeric` counts
by what comes before its first hyphen or underscore. -/
def DomainKind.ofDomainName (name : String) : Except SelectionError DomainKind :=
  match DomainKind.ofName? name with
  | some kind => .ok kind
  | none =>
    match (splitWhere (fun c => c == '-' || c == '_') name.toList).head?.bind
        fun head => DomainKind.ofName? (String.ofList head) with
    | some kind => .ok kind
    | none => .error (.unknownKind name)

end PlanReplay
