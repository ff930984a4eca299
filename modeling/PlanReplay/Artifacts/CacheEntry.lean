import PlanReplay.Json.Printer
import PlanReplay.Planner.Response

/-!
# Cache entries

A planner's response is kept in a JSON file with the version of the format and its own key, so that a file of
another version, or one that was copied to another key, is not taken for an entry.
-/

namespace PlanReplay

open JsonValue

/-- The version of the format that is written and read. -/
def cacheFormatVersion : Int := 1

/-- What a cache file holds. -/
structure CacheEntry where
  version : Int
  key : String
  response : PlannerResponse
deriving DecidableEq

namespace CacheEntry

/-- The fields of an entry. -/
def shape : RecordShape CacheEntry where
  name := "CacheEntry"
  strict := false
  fields :=
    [.required "format_version" (readWhole 0 maxUInt16 "u16") fun x e => { e with version := x },
      .required "key_sha256_hex" readString fun x e => { e with key := x },
      .required "response" PlannerResponse.ofValue fun x e => { e with response := x }]

/-- The text of an entry. -/
def render (e : CacheEntry) : String :=
  String.ofList (Json.printRecord 0
    [("format_version", Json.printInt e.version),
      ("key_sha256_hex", Json.printString e.key),
      ("response", Json.printRecord 1
        [("stdout", Json.printString e.response.stdout),
          ("stderr", Json.printString e.response.stderr),
          ("returncode", Json.printInt e.response.returnCode)])])

/-- The entry in a text that holds nothing else. -/
def ofText? (text : String) : Option CacheEntry :=
  (shape.read ⟨0, "", ⟨"", "", 0⟩⟩ (JsonValue.parseWhole text)).toOption

/-- The response that a text holds for a key. -/
def responseFor? (key text : String) : Option PlannerResponse :=
  match ofText? text with
  | some entry => if entry.version = cacheFormatVersion ∧ entry.key = key then some entry.response else none
  | none => none

end CacheEntry

end PlanReplay
