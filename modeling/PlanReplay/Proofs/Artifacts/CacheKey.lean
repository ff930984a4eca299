import PlanReplay.Proofs.Problem.ReadBack
import PlanReplay.Proofs.Session.PlanSource

/-!
# Texts that share a cache key

What is hashed is the text of the domain, a zero byte and the text of the problem. The zero byte alone does not tell
where the domain ends: a domain may hold the same character, and so may a symbol of a problem. But no problem file ends
with another problem file after such a character, because each of them is one expression from end to end.

* `Text.utf8Bytes_injective`, `hexText_injective` — the texts and their bytes, the bytes and their digits.
* `Problem.not_pddl_after_zero` — no problem file ends with a zero character and a problem file.
* `cacheKey_unambiguous` — two pairs of texts share an entry of the cache only if their hashes collide.
-/

namespace PlanReplay

open Text

-- ---------------------------------------------------------------------------
-- Bytes and digits
-- ---------------------------------------------------------------------------

namespace Text

theorem utf8Bytes_append (a b : String) : utf8Bytes (a ++ b) = utf8Bytes a ++ utf8Bytes b := by
  simp [utf8Bytes, String.toUTF8]

/-- A text is known by its bytes. -/
theorem utf8Bytes_injective {a b : String} (h : utf8Bytes a = utf8Bytes b) : a = b :=
  String.toByteArray_inj.mp (ByteArray.ext (Array.toList_inj.mp h))

end Text

/-- The hashed bytes are those of a text in which a zero character stands between the domain and the problem. -/
theorem cacheKeyBytes_eq (domain problem : String) :
    cacheKeyBytes domain problem = utf8Bytes (domain ++ "\x00" ++ problem) := by
  rw [utf8Bytes_append, utf8Bytes_append, List.append_assoc]
  rfl

/-- A byte is known by its two digits. -/
theorem twoHexDigits_injective {a b : UInt8} (h : Json.twoHexDigits a.toNat = Json.twoHexDigits b.toNat) : a = b := by
  have hDigit : ∀ m n : Fin 16, Nat.digitChar m.val = Nat.digitChar n.val → m = n := by decide
  have ha := a.toNat_lt
  have hb := b.toNat_lt
  simp only [Json.twoHexDigits, List.cons.injEq, and_true] at h
  have hHigh := congrArg Fin.val (hDigit ⟨a.toNat / 16, by omega⟩ ⟨b.toNat / 16, by omega⟩ h.1)
  have hLow := congrArg Fin.val (hDigit ⟨a.toNat % 16, by omega⟩ ⟨b.toNat % 16, by omega⟩ h.2)
  refine UInt8.toNat_inj.mp ?_
  dsimp only at hHigh hLow
  omega

/-- Bytes are known by their digits. -/
theorem hexText_injective {bytes others : List UInt8} (h : hexText bytes = hexText others) : bytes = others := by
  have hChars : (bytes.flatMap fun byte => Json.twoHexDigits byte.toNat) =
      others.flatMap fun byte => Json.twoHexDigits byte.toNat := String.ofList_injective h
  clear h
  induction bytes generalizing others with
  | nil =>
    cases others with
    | nil => rfl
    | cons b rest => cases hChars
  | cons a rest ih =>
    cases others with
    | nil => cases hChars
    | cons b more =>
      rw [List.flatMap_cons, List.flatMap_cons] at hChars
      obtain ⟨hFirst, hRest⟩ := List.append_inj hChars rfl
      rw [twoHexDigits_injective hFirst, ih hRest]

/-- A key is known by the path of its entry. -/
theorem ArtifactStore.entryPath_injective (s : ArtifactStore) {key other : String} (hKey : '/' ∉ key.toList)
    (hOther : '/' ∉ other.toList) (h : s.entryPath key = s.entryPath other) : key = other := by
  have hNames := congrArg Path.names h
  rw [s.names_entryPath hKey, s.names_entryPath hOther] at hNames
  exact entryName_injective (List.singleton_inj.mp (List.append_cancel_left hNames))

-- ---------------------------------------------------------------------------
-- Where the problem begins
-- ---------------------------------------------------------------------------

namespace Problem

theorem endsWord_pddl (p : Problem) (variant : DomainVariant) : EndsWord (p.pddl variant) := by
  unfold pddl
  simp only [String.append_assoc]
  exact EndsWord.append ⟨'(', "define (problem ".toList, rfl, rfl⟩ _

/-- No problem file ends with a zero character and a problem file. -/
theorem not_pddl_after_zero {p q : Problem} (hp : p.IsValid) (hq : q.IsValid) (variant other : DomainVariant)
    (before : List Char) : (p.pddl variant).toList ≠ before ++ '\x00' :: (q.pddl other).toList := by
  have hText := (spells_pddl (isValid_iff.mp hp) variant).tokens_eq
  have hOther := (spells_pddl (isValid_iff.mp hq) other).tokens_eq
  exact Expression.not_ends_with hText hOther (q.endsWord_pddl other) (by decide)

end Problem

/-- What is hashed can be taken apart in one way only. -/
theorem cacheKeyBytes_injective {p q : Problem} (hp : p.IsValid) (hq : q.IsValid) {variant other : DomainVariant}
    {domain domain' : String} (h : cacheKeyBytes domain (p.pddl variant) = cacheKeyBytes domain' (q.pddl other)) :
    domain = domain' ∧ p.pddl variant = q.pddl other := by
  rw [cacheKeyBytes_eq, cacheKeyBytes_eq] at h
  have hTexts := congrArg String.toList (utf8Bytes_injective h)
  have hZero : "\x00".toList = ['\x00'] := rfl
  simp only [String.toList_append, List.append_assoc, hZero, List.singleton_append] at hTexts
  -- one of the domains begins with the other one, and what is left of it stands in a problem
  rcases List.append_eq_append_iff.mp hTexts with ⟨more, hDomain, hProblem⟩ | ⟨more, hDomain, hProblem⟩
  · cases more with
    | nil =>
      rw [List.append_nil] at hDomain
      exact ⟨(String.toList_inj.mp hDomain).symm, String.toList_inj.mp (List.cons.inj hProblem).2⟩
    | cons c more => exact absurd (List.cons.inj hProblem).2 (Problem.not_pddl_after_zero hp hq _ _ more)
  · cases more with
    | nil =>
      rw [List.append_nil] at hDomain
      exact ⟨String.toList_inj.mp hDomain, (String.toList_inj.mp (List.cons.inj hProblem).2).symm⟩
    | cons c more => exact absurd (List.cons.inj hProblem).2 (Problem.not_pddl_after_zero hq hp _ _ more)

/-- **Keys are unambiguous.** Take two texts of domains, whatever characters they hold, and the files of two valid
problems. The bytes that are hashed tell both texts. So the texts that share an entry of the cache are the same, or
their bytes differ and have one hash. -/
theorem cacheKey_unambiguous {p q : Problem} (hp : p.IsValid) (hq : q.IsValid) (variant other : DomainVariant)
    (domain domain' : String) :
    (cacheKeyBytes domain (p.pddl variant) = cacheKeyBytes domain' (q.pddl other) →
      domain = domain' ∧ p.pddl variant = q.pddl other) ∧
    ∀ store : ArtifactStore,
      store.entryPath (cacheKey domain (p.pddl variant)) = store.entryPath (cacheKey domain' (q.pddl other)) →
      domain = domain' ∧ p.pddl variant = q.pddl other ∨
        cacheKeyBytes domain (p.pddl variant) ≠ cacheKeyBytes domain' (q.pddl other) ∧
          Sha256.hash (cacheKeyBytes domain (p.pddl variant)) = Sha256.hash (cacheKeyBytes domain' (q.pddl other)) := by
  refine ⟨cacheKeyBytes_injective hp hq, ?_⟩
  intro store hPaths
  by_cases hBytes : cacheKeyBytes domain (p.pddl variant) = cacheKeyBytes domain' (q.pddl other)
  · exact .inl (cacheKeyBytes_injective hp hq hBytes)
  · refine .inr ⟨hBytes, hexText_injective ?_⟩
    exact store.entryPath_injective (slash_not_mem_cacheKey _ _) (slash_not_mem_cacheKey _ _) hPaths

/-- A problem that holds the separator, hashed with a domain: what stands before the second separator is the beginning of
other hashed bytes too, but with no problem do they go on in the same way. -/
theorem cacheKey_unambiguous_of_zero :
    let p : Problem := ⟨"rush", "logistics", [⟨"van", "truck"⟩], [⟨"open\x00", ["van"]⟩], [], []⟩
    let q : Problem := ⟨"rush", "logistics", [⟨"van", "truck"⟩], [], [], []⟩
    let other := "logistics\x00" ++ String.ofList ((p.pddl .classical).toList.takeWhile (· ≠ '\x00'))
    p.IsValid ∧ q.IsValid ∧ utf8Bytes (other ++ "\x00") <+: cacheKeyBytes "logistics" (p.pddl .classical) ∧
      cacheKeyBytes "logistics" (p.pddl .classical) ≠ cacheKeyBytes other (q.pddl .numeric) := by
  intro p q other
  have hp : p.IsValid := by decide
  have hq : q.IsValid := by decide
  refine ⟨hp, hq, by decide +kernel, fun hBytes => ?_⟩
  have hDomain := ((cacheKey_unambiguous hp hq .classical .numeric "logistics" other).1 hBytes).1
  exact absurd hDomain (by decide)

end PlanReplay
