import PlanReplay.Problem.Basic
import PlanReplay.Selection

/-!
# Problems as PDDL text

Objects are listed by type, types in the order of their first object. Of predicates and goals that differ
only in case the first is written. Assignments are written where the variant of the domain has numbers; of
several for one function and arguments the first place and the last value count.
-/

namespace PlanReplay

open Decimal Text

/-- The members of a list that are the first ones with their key. -/
def distinctBy {α κ : Type} [DecidableEq κ] (key : α → κ) : List α → List α
  | [] => []
  | a :: rest => a :: (distinctBy key rest).filter fun b => key b ≠ key a

namespace Problem

/-- What identifies a predicate, goal or function with its arguments: the names without their case. -/
def identityKey (name : String) (args : List String) : String × List String := (lower name, args.map lower)

/-- The objects that are listed: the first of each name. -/
def listedObjects (p : Problem) : List ObjectDecl := distinctBy (fun object => lower object.name) p.objects

/-- The types in the order of their first listed object, each with the names of its listed objects. -/
def typeGroups (p : Problem) : List (String × List String) :=
  (distinctBy id (p.listedObjects.map (·.typeName))).map fun typeName =>
    (typeName, (p.listedObjects.filter fun object => object.typeName = typeName).map (·.name))

/-- The first of the atoms that differ only in case. -/
def listedAtoms (atoms : List Atom) : List Atom := distinctBy (fun atom => identityKey atom.name atom.args) atoms

/-- The last value that a list of assignments gives to a key. -/
def lastValue (functions : List Assignment) (key : String × List String) (otherwise : Float) : Float :=
  functions.foldl (fun value f => if identityKey f.name f.args = key then f.value else value) otherwise

/-- The assignments that are listed: the first of each key, with the last value given to it. -/
def listedFunctions (p : Problem) : List Assignment :=
  (distinctBy (fun f => identityKey f.name f.args) p.functions).map fun f =>
    { f with value := lastValue p.functions (identityKey f.name f.args) f.value }

/-- A name with its arguments in parentheses. -/
def atomText (name : String) (args : List String) : String := "(" ++ " ".intercalate (name :: args) ++ ")"

/-- The lines of a section, each indented and ended. -/
def sectionLines (indent : String) (lines : List String) : String :=
  String.join (lines.map fun line => indent ++ line ++ "\n")

/-- The problem file for a variant of the domain. -/
def pddl (p : Problem) (variant : DomainVariant) : String :=
  let assignments :=
    if variant.usesFunctions then
      p.listedFunctions.map fun f => "(= " ++ atomText f.name f.args ++ " " ++ floatText f.value ++ ")"
    else
      []
  "(define (problem " ++ p.name ++ ")\n\t(:domain " ++ p.domainName ++ ")\n"
    ++ "\t(:objects\n"
    ++ sectionLines "\t\t" (p.typeGroups.map fun (typeName, names) => " ".intercalate names ++ " - " ++ typeName)
    ++ "\t)\n"
    ++ "\t(:init\n"
    ++ sectionLines "\t\t" ((listedAtoms p.predicates).map fun atom => atomText atom.name atom.args)
    ++ sectionLines "\t\t" assignments
    ++ "\t)\n"
    ++ "\t(:goal\n\t\t(and\n"
    ++ sectionLines "\t\t\t" ((listedAtoms p.goals).map fun atom => atomText atom.name atom.args)
    ++ "\t\t)\n\t)\n)\n"

end Problem

end PlanReplay
