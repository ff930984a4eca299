import PlanReplay.Json.Record
import PlanReplay.Problem.Basic

/-!
# Reading a problem

A composed problem is a JSON object with lists of objects, predicates, functions and goals. Reading composes
the problem from them in that order, and validates it.
-/

namespace PlanReplay

open JsonValue

namespace Problem

def objectShape : RecordShape ObjectDecl where
  name := "ProblemObject"
  strict := false
  fields :=
    [.required "name" readString fun x o => { o with name := x },
      .required "type" readString fun x o => { o with typeName := x }]

def atomShape : RecordShape Atom where
  name := "PredicateInstance"
  strict := false
  fields :=
    [.required "name" readString fun x a => { a with name := x },
      .optional "args" (readList readString) fun x a => { a with args := x }]

def assignmentShape : RecordShape Assignment where
  name := "FunctionAssignment"
  strict := false
  fields :=
    [.required "name" readString fun x f => { f with name := x },
      .optional "args" (readList readString) fun x f => { f with args := x },
      .required "value" readFloat fun x f => { f with value := x }]

/-- The fields of a problem. The record holds them as they are written. -/
def shape : RecordShape Problem where
  name := "ProblemFile"
  strict := true
  fields :=
    [.required "problem_name" readString fun x p => { p with name := x },
      .required "domain_name" readString fun x p => { p with domainName := x },
      .optional "objects" (readList (objectShape.read ⟨"", ""⟩)) fun x p => { p with objects := x },
      .optional "predicates" (readList (atomShape.read ⟨"", []⟩)) fun x p => { p with predicates := x },
      .optional "functions" (readList (assignmentShape.read ⟨"", [], 0⟩)) fun x p => { p with functions := x },
      .optional "goals" (readList (atomShape.read ⟨"", []⟩)) fun x p => { p with goals := x }]

/-- The problem composed from the entries of another one, in order. -/
def recompose (written : Problem) : Problem :=
  let named := ofNames written.name written.domainName
  let objects := written.objects.foldl (fun p o => p.addObject o.name o.typeName) named
  let predicates := written.predicates.foldl (fun p a => p.addPredicate a.name a.args) objects
  let functions := written.functions.foldl (fun p f => p.addFunction f.name f.args f.value) predicates
  written.goals.foldl (fun p a => p.addGoal a.name a.args) functions

end Problem

/-- Why a text is no problem. -/
inductive ProblemError where
  | unreadable (fault : JsonFault)
  | invalid (path : String) (fault : EntryFault)

def ProblemError.message : ProblemError → String
  | .unreadable fault => fault.message "problem"
  | .invalid path fault => invalidEntryMessage path fault

namespace Problem

/-- The problem that a JSON text holds. -/
def ofJson (text : String) : Except ProblemError Problem :=
  match shape.read ⟨"", "", [], [], [], []⟩ (JsonValue.parse text) with
  | .error fault => .error (.unreadable fault)
  | .ok written =>
    let problem := written.recompose
    match problem.fault? with
    | some (path, fault) => .error (.invalid path fault)
    | none => .ok problem

end Problem

end PlanReplay
