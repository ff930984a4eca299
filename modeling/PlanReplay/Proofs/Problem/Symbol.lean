import Mathlib.Data.List.Basic
import PlanReplay.Problem.Basic
import PlanReplay.Proofs.Text.Expression
import PlanReplay.Proofs.Text.Trim
import PlanReplay.World.Entity

/-!
# Symbols of a valid problem

Validation lets a name through iff it is a symbol. A symbol can stand as one word of a text and is not changed by
trimming; the texts of numbers are words as well.

* `Problem.isValid_iff` — what it means that validation finds nothing.
* `EntityId.ofName_eq_iff` — two symbols name one entity iff they differ only in case.
* `isWord_floatText` — every number is written as one word.
-/

namespace PlanReplay

open Text Decimal

-- ---------------------------------------------------------------------------
-- Symbols
-- ---------------------------------------------------------------------------

/-- A name that can be written as a symbol. -/
structure IsSymbol (name : String) : Prop where
  filled : name ≠ ""
  whole : ∀ c ∈ name.toList, breaksSymbol c = false

theorem symbolFault?_eq_none_iff {name : String} : symbolFault? name = none ↔ IsSymbol name := by
  unfold symbolFault?
  by_cases hEmpty : name = ""
  · simp only [hEmpty, if_true, reduceCtorEq, false_iff]
    exact fun h => h.filled rfl
  · simp only [hEmpty, if_false, Option.map_eq_none_iff, List.find?_eq_none, Bool.not_eq_true]
    exact ⟨fun h => ⟨hEmpty, h⟩, fun h => h.whole⟩

theorem IsSymbol.isWord {name : String} (h : IsSymbol name) : IsWord name := by
  refine ⟨h.filled, ?_⟩
  intro c hc
  have hBreaks := h.whole c hc
  simp only [breaksSymbol, Bool.or_eq_false_iff] at hBreaks
  simp [isSeparator, hBreaks]

theorem IsSymbol.trim_eq {name : String} (h : IsSymbol name) : trim name = name := by
  have hBlank : ∀ c ∈ name.toList, isBlank c = false := by
    intro c hc
    have hBreaks := h.whole c hc
    simp only [breaksSymbol, Bool.or_eq_false_iff] at hBreaks
    exact hBreaks.1.1.1
  rw [trim, trimChars_of_whole hBlank, String.ofList_toList]

/-- The entity that a symbol names has the name in lower case. -/
theorem IsSymbol.ofName_eq {name : String} (h : IsSymbol name) : EntityId.ofName name = ⟨lower name⟩ := by
  rw [EntityId.ofName, h.trim_eq]

/-- Two symbols name one entity iff they differ only in case. -/
theorem EntityId.ofName_eq_iff {a b : String} (ha : IsSymbol a) (hb : IsSymbol b) :
    EntityId.ofName a = EntityId.ofName b ↔ lower a = lower b := by
  rw [ha.ofName_eq, hb.ofName_eq, EntityId.mk.injEq]

-- ---------------------------------------------------------------------------
-- Validation
-- ---------------------------------------------------------------------------

instance (p : Problem) : Decidable p.IsValid := inferInstanceAs (Decidable (p.fault? = none))

/-- A problem of symbols and finite values. -/
structure Problem.Symbolic (p : Problem) : Prop where
  name : IsSymbol p.name
  domainName : IsSymbol p.domainName
  objects : ∀ object ∈ p.objects, IsSymbol object.name ∧ IsSymbol object.typeName
  predicates : ∀ atom ∈ p.predicates, ∀ name ∈ atom.name :: atom.args, IsSymbol name
  goals : ∀ atom ∈ p.goals, ∀ name ∈ atom.name :: atom.args, IsSymbol name
  functions : ∀ f ∈ p.functions, ∀ name ∈ f.name :: f.args, IsSymbol name
  values : ∀ f ∈ p.functions, f.value.isFinite = true

/-- What holds of the members of a list with their places, and is not about the places. -/
theorem forall_mem_zipIdx {α : Type} (list : List α) (holds : α → Prop) :
    (∀ entry ∈ list.zipIdx, holds entry.1) ↔ ∀ a ∈ list, holds a := by
  conv_rhs => rw [← List.zipIdx_map_fst 0 list]
  exact List.forall_mem_map.symm

/-- The names of an atom are looked at one by one. -/
theorem Problem.forall_mem_atomNames {path name : String} {args : List String} {holds : String → Prop} :
    (∀ entry ∈ atomNames path name args, holds entry.2) ↔ ∀ n ∈ name :: args, holds n := by
  simp only [atomNames, List.forall_mem_cons, List.forall_mem_map]
  rw [forall_mem_zipIdx]

/-- Validation finds nothing iff every name is a symbol and every value finite. -/
theorem Problem.isValid_iff {p : Problem} : p.IsValid ↔ p.Symbolic := by
  have hChecks : p.IsValid ↔ ∀ entry ∈ p.checks, entry.2 = none := by
    simp [IsValid, fault?]
  have hObjects := forall_mem_zipIdx p.objects fun object => IsSymbol object.name ∧ IsSymbol object.typeName
  have hAtoms := fun atoms => forall_mem_zipIdx atoms fun atom : Atom => ∀ n ∈ atom.name :: atom.args, IsSymbol n
  have hFunctions := forall_mem_zipIdx p.functions fun f =>
    (∀ n ∈ f.name :: f.args, IsSymbol n) ∧ f.value.isFinite = true
  simp only [hChecks, checks, List.forall_mem_append, List.forall_mem_map, List.forall_mem_flatMap,
    symbolFault?_eq_none_iff, forall_mem_atomNames, List.forall_mem_cons, List.not_mem_nil, ite_eq_left_iff,
    reduceCtorEq, imp_false, not_not, false_imp_iff, implies_true, and_true] at hObjects hAtoms hFunctions ⊢
  rw [hObjects, hAtoms, hAtoms, hFunctions]
  constructor
  · rintro ⟨⟨⟨⟨⟨hName, hDomain⟩, hObjects⟩, hPredicates⟩, hGoals⟩, hFunctions⟩
    exact ⟨hName, hDomain, hObjects, by simpa using hPredicates, by simpa using hGoals,
      fun f hf => by simpa using (hFunctions f hf).1, fun f hf => (hFunctions f hf).2⟩
  · intro h
    refine ⟨⟨⟨⟨⟨h.name, h.domainName⟩, h.objects⟩, ?_⟩, ?_⟩, ?_⟩
    · simpa using h.predicates
    · simpa using h.goals
    · exact fun f hf => ⟨by simpa using h.functions f hf, h.values f hf⟩

-- ---------------------------------------------------------------------------
-- Texts of numbers
-- ---------------------------------------------------------------------------

theorem isSeparator_of_isDigit {c : Char} (h : c.isDigit = true) : isSeparator c = false := by
  have hOpening : c ≠ '(' := by rintro rfl; cases h
  have hClosing : c ≠ ')' := by rintro rfl; cases h
  simp [isSeparator, isBlank_of_isDigit h, hOpening, hClosing]

theorem isSeparator_of_mem_withPoint {places : Nat} {digits : List Char}
    (h : ∀ c ∈ digits, isSeparator c = false) : ∀ c ∈ withPoint places digits, isSeparator c = false := by
  have hFilled : ∀ c ∈ List.replicate (places + 1 - digits.length) '0' ++ digits, isSeparator c = false := by
    intro c hc
    rcases List.mem_append.mp hc with hZero | hDigit
    · rw [List.eq_of_mem_replicate hZero]
      rfl
    · exact h c hDigit
  intro c hc
  unfold withPoint at hc
  split at hc
  · exact h c hc
  · rcases List.mem_append.mp hc with hWhole | hRest
    · exact hFilled c (List.mem_of_mem_take hWhole)
    · rcases List.mem_cons.mp hRest with rfl | hPlaces
      · rfl
      · exact hFilled c (List.mem_of_mem_drop hPlaces)

theorem isSeparator_of_mem_text {d : Scaled} : ∀ c ∈ d.text, isSeparator c = false := by
  refine isSeparator_of_mem_withPoint ?_
  intro c hc
  rcases List.mem_append.mp hc with hDigit | hZero
  · exact isSeparator_of_isDigit (Nat.isDigit_of_mem_toDigits (by decide) (by decide) hDigit)
  · rw [List.eq_of_mem_replicate hZero]
    rfl

theorem text_ne_nil (d : Scaled) : d.text ≠ [] := by
  have hDigits : digitChars d.digits ≠ [] := Nat.toDigits_ne_nil
  unfold Scaled.text withPoint
  split
  · simp [hDigits]
  · simp

/-- Every number is written as one word. -/
theorem isWord_floatText (x : Float) : IsWord (floatText x) := by
  have hChars : ∀ cs : List Char, (cs.all fun c => !isSeparator c) = true → ∀ c ∈ cs, isSeparator c = false := by
    intro cs h
    simpa using h
  have hSign : ∀ negative, ∀ c ∈ signChars negative, isSeparator c = false :=
    fun negative => hChars _ (by cases negative <;> rfl)
  have hText : ∀ negative (cs : List Char), cs ≠ [] → (∀ c ∈ cs, isSeparator c = false) →
      IsWord (String.ofList (signChars negative ++ cs)) := by
    intro negative cs hFilled hWhole
    refine ⟨by simp [hFilled], ?_⟩
    rw [String.toList_ofList]
    exact List.forall_mem_append.mpr ⟨hSign negative, hWhole⟩
  unfold floatText
  cases ofFloat x with
  | nan => exact ⟨by simp [Value.text], hChars _ rfl⟩
  | infinite negative => exact hText negative _ (by simp) (hChars _ rfl)
  | finite negative mantissa exponent edge =>
    unfold Value.text
    dsimp only
    split
    · exact hText negative _ (by simp) (hChars _ rfl)
    · exact hText negative _ (text_ne_nil _) isSeparator_of_mem_text

end PlanReplay
