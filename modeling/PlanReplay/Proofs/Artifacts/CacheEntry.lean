import PlanReplay.Artifacts.CacheEntry
import PlanReplay.Proofs.Json.ReadBack

/-!
# Cache entries read back

* `CacheEntry.ofText?_render` — the text of an entry is read as the entry, whatever was printed by the planner.
* `CacheEntry.responseFor?_render` — it holds the response for its own key, and for no other.
-/

namespace PlanReplay

open JsonValue

/-- The status of a program has 32 bits. -/
def PlannerResponse.HasStatus (r : PlannerResponse) : Prop := minInt32 ≤ r.returnCode ∧ r.returnCode ≤ maxInt32

theorem fitsWord_of_bounds {n : Int} (hLow : minInt32 ≤ n) (hHigh : n ≤ maxInt32) : FitsWord n := by
  simp only [FitsWord, minInt32, maxInt32, minInt64, maxUInt64] at *
  omega

/-- The value that the text of a response is parsed as. -/
def PlannerResponse.value (r : PlannerResponse) : JsonValue :=
  object [(some "stdout", string (some r.stdout)), (some "stderr", string (some r.stderr)),
    (some "returncode", number (.whole r.returnCode))]

/-- The response that is read from a value is the one that the value was made of. -/
theorem PlannerResponse.ofValue_value {r : PlannerResponse} (h : r.HasStatus) : ofValue r.value = .ok r := by
  have hStatus : readWhole minInt32 maxInt32 "i32" (number (.whole r.returnCode)) = .ok r.returnCode := if_pos h
  simp [ofValue, value, RecordShape.read, RecordShape.readEntries, shape, FieldShape.isNamed, FieldShape.alsoNamed,
    FieldShape.optional, FieldShape.required, FieldShape.putWith, readString, hStatus, Except.map]

namespace CacheEntry

/-- The version of an entry has 16 bits, and the status of its response 32. -/
def Fits (e : CacheEntry) : Prop := (0 ≤ e.version ∧ e.version ≤ maxUInt16) ∧ e.response.HasStatus

/-- The text of an entry is parsed as its fields. -/
theorem parseWhole_render {e : CacheEntry} (h : e.Fits) :
    JsonValue.parseWhole e.render =
      object [(some "format_version", number (.whole e.version)), (some "key_sha256_hex", string (some e.key)),
        (some "response", e.response.value)] := by
  obtain ⟨⟨hLow, hHigh⟩, hStatus⟩ := h
  have hVersion : FitsWord e.version := by
    simp only [FitsWord, maxUInt16, minInt64, maxUInt64] at *
    omega
  have hCode : FitsWord e.response.returnCode := fitsWord_of_bounds hStatus.1 hStatus.2
  have hResponse : Reads (Json.printRecord 1 [("stdout", Json.printString e.response.stdout),
      ("stderr", Json.printString e.response.stderr), ("returncode", Json.printInt e.response.returnCode)])
      e.response.value := by
    refine reads_printRecord ?_ 1
    exact .cons ⟨rfl, reads_printString _⟩ (.cons ⟨rfl, reads_printString _⟩ (.cons ⟨rfl, reads_printInt hCode⟩ .nil))
  refine Reads.parseWhole (reads_printRecord ?_ 0)
  exact .cons ⟨rfl, reads_printInt hVersion⟩ (.cons ⟨rfl, reads_printString e.key⟩ (.cons ⟨rfl, hResponse⟩ .nil))

/-- The text of an entry is read as the entry. -/
theorem ofText?_render {e : CacheEntry} (h : e.Fits) : ofText? e.render = some e := by
  have hVersion : readWhole 0 maxUInt16 "u16" (number (.whole e.version)) = .ok e.version := if_pos h.1
  unfold ofText?
  rw [parseWhole_render h]
  simp [RecordShape.read, RecordShape.readEntries, shape, FieldShape.isNamed, FieldShape.required, FieldShape.putWith,
    readString, hVersion, PlannerResponse.ofValue_value h.2, Except.map, Except.toOption]

/-- The text of an entry holds its response for its own key. -/
theorem responseFor?_render (key : String) {response : PlannerResponse} (h : response.HasStatus) (other : String) :
    responseFor? other (render ⟨cacheFormatVersion, key, response⟩) = if key = other then some response else none := by
  have hVersion : 0 ≤ cacheFormatVersion ∧ cacheFormatVersion ≤ maxUInt16 := by decide
  have hFits : Fits ⟨cacheFormatVersion, key, response⟩ := ⟨hVersion, h⟩
  unfold responseFor?
  rw [ofText?_render hFits]
  simp

end CacheEntry

end PlanReplay
