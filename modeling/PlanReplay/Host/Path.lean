import PlanReplay.Text.Blank

/-!
# Paths

Paths are texts with slashes between the names of directories. A path that begins with a slash is absolute.
-/

namespace PlanReplay.Path

open Text

def isAbsolute (path : String) : Bool := path.toList.head? = some '/'

/-- The path `inner` seen from the directory `base`; an absolute path is the same seen from anywhere. -/
def join (base inner : String) : String :=
  if isAbsolute inner ∨ base = "" then inner
  else if base.toList.getLast? = some '/' then base ++ inner
  else base ++ "/" ++ inner

/-- The names in a path, with an empty one for each slash that ends no name. -/
def names (path : String) : List String := (splitWhere (· == '/') path.toList).map String.ofList

/-- Whether a name is none of its own: the directory itself, or nothing between two slashes. -/
def isSelf (name : String) : Bool := name = "" || name = "."

/-- Names without the last ones that are none of their own. -/
def dropSelfEnd (names : List String) : List String := (names.reverse.dropWhile isSelf).reverse

/-- The names in a path, without those at its end that are none of their own, unless the path begins with them. -/
def trimmed (path : String) : List String :=
  match names path with
  | [] => []
  | first :: rest => first :: dropSelfEnd rest

/-- The name of the file at a path. A path that ends by going up, or has no name of its own, has none. -/
def fileName? (path : String) : Option String :=
  (trimmed path).getLast?.filter fun name => !isSelf name && name ≠ ".."

/-- The directory that holds a file. It is written without the names before the file's that are none of their
own, unless the path begins with them. -/
def directory (path : String) : String :=
  match (trimmed path).dropLast with
  | [] => "."
  | first :: rest =>
    match first :: dropSelfEnd rest with
    | [""] => "/"
    | names => "/".intercalate names

/-- The hidden file beside `path` in which the writer with the given number prepares its content. -/
def staging (writer : Nat) (path : String) : String :=
  join (directory path) ("." ++ (fileName? path).getD "artifact" ++ "." ++ toString writer ++ ".tmp")

example : directory "a/./b//x" = "a/./b" ∧ directory "a/././x" = "a" ∧ directory "./x" = "." ∧
    directory "//x" = "/" ∧ directory "a/../x" = "a/.." := by decide

example : staging 7 "a/b.txt" = "a/.b.txt.7.tmp" ∧ staging 7 "a/b/./" = "a/.b.7.tmp" ∧
    staging 7 "a/.." = "a/.artifact.7.tmp" ∧ join "" "x" = "x" ∧ join "a/" "x" = "a/x" := by decide

end PlanReplay.Path
