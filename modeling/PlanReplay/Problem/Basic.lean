import PlanReplay.Decimal.Reader
import PlanReplay.Decimal.Shortest
import PlanReplay.Text.Quoted

/-!
# Planning problems

A problem is composed step by step: objects with their types, ground predicates of the initial state,
numeric assignments and goals. Nothing is forbidden while a problem is composed; `Problem.validate` tells
whether its names can be written as symbols and its values are finite.
-/

namespace PlanReplay

open Decimal Text

/-- An object with the name of its type. -/
structure ObjectDecl where
  name : String
  typeName : String
deriving DecidableEq

/-- A ground predicate as it was written. -/
structure Atom where
  name : String
  args : List String
deriving DecidableEq

namespace Atom

/-- The atom with every name trimmed. -/
def trimmed (name : String) (args : List String) : Atom := ⟨trim name, args.map trim⟩

end Atom

/-- A number given to a function of objects. -/
structure Assignment where
  name : String
  args : List String
  value : Float
deriving DecidableEq

/-- A planning problem. Repetitions are kept. -/
structure Problem where
  name : String
  domainName : String
  objects : List ObjectDecl
  predicates : List Atom
  functions : List Assignment
  goals : List Atom
deriving DecidableEq

namespace Problem

/-- The problem without content. -/
def ofNames (name domainName : String) : Problem := ⟨trim name, trim domainName, [], [], [], []⟩

def addObject (p : Problem) (name typeName : String) : Problem :=
  { p with objects := p.objects ++ [⟨trim name, trim typeName⟩] }

/-- Adds the objects `label1` to `labelN`, leaving out the names that are declared. Also returns the names
that were added. -/
def addNumberedObjects (p : Problem) (label typeName : String) (count : Nat) : Problem × List String :=
  (List.range count).foldl (fun (p, added) index =>
      let name := lower (trim label) ++ toString (index + 1)
      if p.objects.any fun object => object.name = name then (p, added)
      else (p.addObject name typeName, added ++ [name]))
    (p, [])

/-- Removes the objects with a name, and tells whether there were any. -/
def removeObject (p : Problem) (name : String) : Problem × Bool :=
  let kept := p.objects.filter fun object => object.name ≠ trim name
  ({ p with objects := kept }, kept.length ≠ p.objects.length)

def addFunction (p : Problem) (name : String) (args : List String) (value : Float) : Problem :=
  { p with functions := p.functions ++ [⟨trim name, args.map trim, value⟩] }

/-- The assignment that a predicate `=` or `assign` of a function, its arguments and a number stands for. -/
def assignmentOf? (name : String) (args : List String) : Option Assignment :=
  let name := trim name
  if name = "=" ∨ lower name = "assign" then
    match args with
    | function :: rest =>
      match rest.getLast? with
      | some last => (readFloat? (trim last)).map fun value => ⟨function, rest.dropLast, value⟩
      | none => none
    | [] => none
  else
    none

/-- Adds a predicate of the initial state; an assignment in the shape of a predicate becomes one. -/
def addPredicate (p : Problem) (name : String) (args : List String) : Problem :=
  match assignmentOf? name args with
  | some a => p.addFunction a.name a.args a.value
  | none => { p with predicates := p.predicates ++ [Atom.trimmed name args] }

/-- Removes the predicates that are written as given, and tells how many there were. -/
def removePredicate (p : Problem) (name : String) (args : List String) : Problem × Nat :=
  let kept := p.predicates.filter (· ≠ Atom.trimmed name args)
  ({ p with predicates := kept }, p.predicates.length - kept.length)

def addGoal (p : Problem) (name : String) (args : List String) : Problem :=
  { p with goals := p.goals ++ [Atom.trimmed name args] }

/-- Removes the goals that are written as given, and tells how many there were. -/
def removeGoal (p : Problem) (name : String) (args : List String) : Problem × Nat :=
  let kept := p.goals.filter (· ≠ Atom.trimmed name args)
  ({ p with goals := kept }, p.goals.length - kept.length)

/-- The problem without content, under the same names. -/
def clear (p : Problem) : Problem := ⟨p.name, p.domainName, [], [], [], []⟩

end Problem

/-! ## Validation -/

/-- What is wrong with one entry of a problem. -/
inductive EntryFault where
  | emptyName
  | invalidCharacter (name : String) (c : Char)
  | notFinite (value : Float)

def EntryFault.message : EntryFault → String
  | .emptyName => "expected non-empty name, got ''"
  | .invalidCharacter name c => "'" ++ name ++ "' contains invalid character " ++ quotedAlone c
  | .notFinite value => "expected finite number, got " ++ floatText value

/-- The message about an entry of a problem that is not valid. -/
def invalidEntryMessage (path : String) (fault : EntryFault) : String :=
  "validation failed at " ++ path ++ ": " ++ fault.message

/-- Characters that cannot be part of a symbol: blanks, parentheses and the start of a comment. -/
def breaksSymbol (c : Char) : Bool := isBlank c || c == '(' || c == ')' || c == ';'

/-- The fault of a name that is no symbol. -/
def symbolFault? (name : String) : Option EntryFault :=
  if name = "" then some .emptyName else (name.toList.find? breaksSymbol).map (.invalidCharacter name)

namespace Problem

/-- A place in a list, as error messages write it. -/
def entryPath (list : String) (index : Nat) : String := list ++ "[" ++ toString index ++ "]"

/-- The names of an atom, each with its path. -/
def atomNames (path name : String) (args : List String) : List (String × String) :=
  (path ++ ".name", name) :: args.zipIdx.map fun (arg, index) => (entryPath (path ++ ".args") index, arg)

/-- Everything that is validated, in order: a path and what is wrong there. -/
def checks (p : Problem) : List (String × Option EntryFault) :=
  let symbols := fun names : List (String × String) => names.map fun (path, name) => (path, symbolFault? name)
  symbols [("problem_name", p.name), ("domain_name", p.domainName)]
    ++ symbols (p.objects.zipIdx.flatMap fun (object, index) =>
      [(entryPath "objects" index ++ ".name", object.name),
        (entryPath "objects" index ++ ".type", object.typeName)])
    ++ symbols (p.predicates.zipIdx.flatMap fun (atom, index) =>
      atomNames (entryPath "predicates" index) atom.name atom.args)
    ++ symbols (p.goals.zipIdx.flatMap fun (atom, index) =>
      atomNames (entryPath "goals" index) atom.name atom.args)
    ++ p.functions.zipIdx.flatMap fun (f, index) =>
      symbols (atomNames (entryPath "functions" index) f.name f.args) ++
        [(entryPath "functions" index ++ ".value", if f.value.isFinite then none else some (.notFinite f.value))]

/-- The path and the fault of the first entry that cannot be written. -/
def fault? (p : Problem) : Option (String × EntryFault) :=
  p.checks.findSome? fun (path, fault) => fault.map fun fault => (path, fault)

/-- Whether every name is a symbol and every value finite. -/
def IsValid (p : Problem) : Prop := p.fault? = none

end Problem

end PlanReplay
