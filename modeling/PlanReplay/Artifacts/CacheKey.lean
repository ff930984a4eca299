import PlanReplay.Artifacts.Sha256
import PlanReplay.Json.Printer
import PlanReplay.Text.Utf8

/-!
# Cache keys

The responses of planners are kept under a key computed from the texts of the domain and the problem.
-/

namespace PlanReplay

open Text

/-- What is hashed: the domain, a zero byte, and the problem. -/
def cacheKeyBytes (domain problem : String) : List UInt8 := utf8Bytes domain ++ 0 :: utf8Bytes problem

/-- Bytes in lower-case hexadecimal. -/
def hexText (bytes : List UInt8) : String := String.ofList (bytes.flatMap fun byte => Json.twoHexDigits byte.toNat)

/-- The key of a planner's response to a domain and a problem. -/
def cacheKey (domain problem : String) : String := hexText (Sha256.hash (cacheKeyBytes domain problem))

end PlanReplay
