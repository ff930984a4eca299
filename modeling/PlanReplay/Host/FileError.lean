/-!
# File errors

Why an operation on files fails, in the words of the operating system.
-/

namespace PlanReplay

inductive FileError where
  | notFound
  | alreadyExists
  | notDirectory
  | isDirectory
  | nameTooLong
  | permissionDenied
  /-- The name of a file holds the character with code zero. -/
  | nulInName
  /-- An argument of a program, or its name, holds the character with code zero. -/
  | nulInArgument
  /-- The content of a file is no text. -/
  | notText
  | other (message : String)
deriving DecidableEq

def FileError.message : FileError → String
  | .notFound => "No such file or directory (os error 2)"
  | .alreadyExists => "File exists (os error 17)"
  | .notDirectory => "Not a directory (os error 20)"
  | .isDirectory => "Is a directory (os error 21)"
  | .nameTooLong => "File name too long (os error 36)"
  | .permissionDenied => "Permission denied (os error 13)"
  | .nulInName => "file name contained an unexpected NUL byte"
  | .nulInArgument => "nul byte found in provided data"
  | .notText => "stream did not contain valid UTF-8"
  | .other text => text

end PlanReplay
