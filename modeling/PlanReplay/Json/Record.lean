import PlanReplay.Decimal.Compact
import PlanReplay.Json.Parser

/-!
# Reading records from JSON

A record is read from an object, or from an array of its fields in the order of their declaration. A reader
takes the value from left to right and stops at the first thing that is wrong: a value of another type, a
field that is unknown or repeated, a field or an item that is missing, or the place where the text is no JSON.
-/

namespace PlanReplay

open Text Decimal

/-- A step from a value to a value in it. -/
inductive PathPart where
  | key (name : String)
  | index (i : Nat)
deriving DecidableEq

/-- A path as messages write it: keys have points between them. -/
def pathText : List PathPart → String
  | [] => ""
  | .key name :: rest => name ++ continued rest
  | .index i :: rest => "[" ++ toString i ++ "]" ++ continued rest
where
  continued : List PathPart → String
    | [] => ""
    | .key name :: rest => "." ++ name ++ continued rest
    | .index i :: rest => "[" ++ toString i ++ "]" ++ continued rest

/-- What is wrong with the data of a JSON text. -/
inductive JsonIssue where
  | wrongType (found expected : String)
  | wrongValue (found : Int) (expected : String)
  | wrongLength (length : Nat) (record : String) (fields : Nat)
  | missingField (name : String)
  | unknownField (name : String) (fields : List String)
  | duplicateField (name : String)
deriving DecidableEq

/-- A name as messages about fields write it. -/
def ticked (name : String) : String := "`" ++ name ++ "`"

def JsonIssue.message : JsonIssue → String
  | .wrongType found expected => "invalid type: " ++ found ++ ", expected " ++ expected
  | .wrongValue found expected => "invalid value: integer " ++ ticked (toString found) ++ ", expected " ++ expected
  | .wrongLength length record fields =>
    "invalid length " ++ toString length ++ ", expected struct " ++ record ++ " with " ++ toString fields ++
      " elements"
  | .missingField name => "missing field " ++ ticked name
  | .unknownField name fields =>
    "unknown field " ++ ticked name ++ ", expected one of " ++ ", ".intercalate (fields.map ticked)
  | .duplicateField name => "duplicate field " ++ ticked name

/-- Why a JSON text cannot be read. -/
inductive JsonFault where
  /-- The text is no JSON, or a part of it has no meaning. -/
  | malformed
  | wrong (path : List PathPart) (issue : JsonIssue)
deriving DecidableEq

/-- The message about a JSON text that cannot be read: what it was to be, where it is wrong, and how. -/
def JsonFault.message (subject : String) : JsonFault → String
  | .malformed => "malformed json"
  | .wrong path issue =>
    let place := pathText path
    "parse " ++ subject ++ " json: " ++ (if place = "" then "" else "at " ++ place ++ ": ") ++ issue.message

/-- A fault that was found inside a part of a value. -/
def JsonFault.within (part : PathPart) : JsonFault → JsonFault
  | .malformed => .malformed
  | .wrong path issue => .wrong (part :: path) issue

namespace JsonValue

/-- A value as messages about wrong types write it; none if it has no meaning. -/
def describe? : JsonValue → Option String
  | null => some "null"
  | boolean b => some ("boolean " ++ ticked (if b then "true" else "false"))
  | number (.whole n) => some ("integer " ++ ticked (toString n))
  | number (.real x) => some ("floating point " ++ ticked (compactText x))
  | number .tooLarge => none
  | string (some s) => some ("string " ++ quoted s)
  | string none => none
  | array _ => some "sequence"
  | object _ => some "map"
  | broken => none

/-- The fault of a value that is not of the expected type. -/
def wrongType (value : JsonValue) (expected : String) : JsonFault :=
  match value.describe? with
  | some found => .wrong [] (.wrongType found expected)
  | none => .malformed

def readString : JsonValue → Except JsonFault String
  | string (some s) => .ok s
  | value => .error (value.wrongType "a string")

/-- Reads a double; a whole number is taken for the nearest one. -/
def readFloat : JsonValue → Except JsonFault Float
  | number (.whole n) => .ok (Float.ofInt n)
  | number (.real x) => .ok x
  | value => .error (value.wrongType "f64")

/-- Reads a double, or none from the value null. -/
def readOptionalFloat : JsonValue → Except JsonFault (Option Float)
  | null => .ok none
  | value => value.readFloat.map some

/-- Reads a whole number between two bounds. -/
def readWhole (low high : Int) (typeName : String) : JsonValue → Except JsonFault Int
  | number (.whole n) => if low ≤ n ∧ n ≤ high then .ok n else .error (.wrong [] (.wrongValue n typeName))
  | value => .error (value.wrongType typeName)

/-- Reads the items of an array, beginning with the one at `index`. -/
def readItems {τ : Type} (read : JsonValue → Except JsonFault τ) : Nat → List JsonValue → Except JsonFault (List τ)
  | _, [] => .ok []
  | index, item :: rest =>
    match read item with
    | .error fault => .error (fault.within (.index index))
    | .ok x => (readItems read (index + 1) rest).map (x :: ·)

/-- Reads an array. -/
def readList {τ : Type} (read : JsonValue → Except JsonFault τ) : JsonValue → Except JsonFault (List τ)
  | array items => readItems read 0 items
  | value => .error (value.wrongType "a sequence")

end JsonValue

/-- A field of a record: its names, and how its value is put into the record. -/
structure FieldShape (ρ : Type) where
  name : String
  otherName : Option String
  isRequired : Bool
  put : JsonValue → ρ → Except JsonFault ρ

namespace FieldShape

variable {ρ τ : Type}

/-- Reads a value and puts it into a record. -/
def putWith (read : JsonValue → Except JsonFault τ) (set : τ → ρ → ρ) (value : JsonValue) (record : ρ) :
    Except JsonFault ρ :=
  (read value).map fun x => set x record

/-- A field that must be there. -/
def required (name : String) (read : JsonValue → Except JsonFault τ) (set : τ → ρ → ρ) : FieldShape ρ :=
  ⟨name, none, true, putWith read set⟩

/-- A field that may be left out. -/
def optional (name : String) (read : JsonValue → Except JsonFault τ) (set : τ → ρ → ρ) : FieldShape ρ :=
  ⟨name, none, false, putWith read set⟩

/-- A field with a second name. -/
def alsoNamed (field : FieldShape ρ) (otherName : String) : FieldShape ρ :=
  { field with otherName := some otherName }

/-- Whether a key of an object stands for a field. -/
def isNamed (field : FieldShape ρ) (key : String) : Bool := key = field.name ∨ some key = field.otherName

end FieldShape

/-- The shape of a record. A strict record has no other fields. -/
structure RecordShape (ρ : Type) where
  name : String
  strict : Bool
  fields : List (FieldShape ρ)

namespace RecordShape

variable {ρ : Type} (shape : RecordShape ρ)

/-- Reads the entries of an object into a record; `seen` are the fields that were there already. -/
def readEntries : List (Option String × JsonValue) → List String → ρ → Except JsonFault ρ
  | [], seen, record =>
    match shape.fields.find? fun field => field.isRequired && !seen.contains field.name with
    | some field => .error (.wrong [] (.missingField field.name))
    | none => .ok record
  | (none, _) :: _, _, _ => .error .malformed
  | (some key, value) :: rest, seen, record =>
    match shape.fields.find? fun field => field.isNamed key with
    | some field =>
      if seen.contains field.name then .error (.wrong [] (.duplicateField field.name))
      else
        match field.put value record with
        | .error fault => .error (fault.within (.key key))
        | .ok record => readEntries rest (field.name :: seen) record
    | none =>
      if shape.strict then .error (.wrong [.key key] (.unknownField key (shape.fields.map (·.name))))
      else if value.isIntact then readEntries rest seen record
      else .error .malformed

/-- Reads the items of an array into the fields from the one at `index` on. Fields that may be left out may be
left off the end. -/
def readItems : Nat → List (FieldShape ρ) → List JsonValue → ρ → Except JsonFault ρ
  | _, [], [], record => .ok record
  | _, [], _ :: _, _ => .error .malformed
  | index, field :: fields, item :: rest, record =>
    match field.put item record with
    | .error fault => .error (fault.within (.index index))
    | .ok record => readItems (index + 1) fields rest record
  | index, field :: fields, [], record =>
    if field.isRequired then .error (.wrong [] (.wrongLength index shape.name shape.fields.length))
    else readItems (index + 1) fields [] record

/-- Reads a record; `start` holds what a field that is left out is. -/
def read (start : ρ) : JsonValue → Except JsonFault ρ
  | .object entries => shape.readEntries entries [] start
  | .array items => shape.readItems 0 shape.fields items start
  | value => .error (value.wrongType ("struct " ++ shape.name))

end RecordShape

end PlanReplay
