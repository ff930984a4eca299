import Mathlib.Data.List.Basic
import Mathlib.Data.List.Induction
import PlanReplay.Problem.Pddl

/-!
# What is listed of repeated entries

A problem may repeat objects, predicates and assignments. What is listed of several entries with one key is
described here by places in the list of entries, not by the way in which it is found.

* `distinctBy_eq_firstOccurrences` — listed are the entries whose key no earlier entry has.
* `distinctBy_append`, `distinctBy_eq_self` — what is listed of two lists in a row, and of entries with keys of their own.
* `distinctBy_flatMap`, `filter_flatMap_groups`, `flatMap_filter_perm` — entries that are put together by key.
* `Problem.lastValue_eq` — the value that counts is that of the last entry with the key.
-/

namespace PlanReplay

open Text

variable {α κ : Type} [DecidableEq κ] {key : α → κ}

-- ---------------------------------------------------------------------------
-- First occurrences
-- ---------------------------------------------------------------------------

/-- The members of a list whose key no member at an earlier place has, in their order. -/
def firstOccurrences (key : α → κ) (list : List α) : List α :=
  (list.zipIdx.filter fun (a, place) => (list.take place).all fun b => key b ≠ key a).map Prod.fst

theorem firstOccurrences_cons (a : α) (rest : List α) :
    firstOccurrences key (a :: rest) = a :: (firstOccurrences key rest).filter fun b => key b ≠ key a := by
  unfold firstOccurrences
  rw [List.zipIdx_cons, List.filter_cons_of_pos (by simp), List.map_cons, List.zipIdx_succ, List.filter_map,
    List.map_map, List.filter_map, List.filter_filter]
  congr 1
  -- a later member is kept iff its key is not that of the head and no member between has it
  refine congrArg (List.map Prod.fst) (List.filter_congr ?_)
  rintro ⟨b, place⟩ -
  simp [eq_comm]

theorem distinctBy_eq_firstOccurrences (list : List α) : distinctBy key list = firstOccurrences key list := by
  induction list with
  | nil => rfl
  | cons a rest ih => rw [distinctBy, firstOccurrences_cons, ih]

theorem mem_of_mem_distinctBy {list : List α} {a : α} (h : a ∈ distinctBy key list) : a ∈ list := by
  induction list with
  | nil => exact h
  | cons b rest ih =>
    rcases List.mem_cons.mp h with rfl | hRest
    · exact List.mem_cons_self
    · exact List.mem_cons_of_mem _ (ih (List.mem_filter.mp hRest).1)

/-- Every key of the list is the key of a listed member. -/
theorem exists_mem_distinctBy {list : List α} {a : α} (h : a ∈ list) : ∃ b ∈ distinctBy key list, key b = key a := by
  induction list with
  | nil => cases h
  | cons b rest ih =>
    by_cases hKey : key b = key a
    · exact ⟨b, List.mem_cons_self, hKey⟩
    · have hRest : a ∈ rest := by
        rcases List.mem_cons.mp h with rfl | hRest
        · exact absurd rfl hKey
        · exact hRest
      obtain ⟨c, hc, hSame⟩ := ih hRest
      have hOther : key c ≠ key b := fun hEqual => hKey (hEqual.symm.trans hSame)
      exact ⟨c, List.mem_cons_of_mem _ (List.mem_filter.mpr ⟨hc, by simpa using hOther⟩), hSame⟩

/-- A listed member is the first one of the list with its key. -/
theorem find?_of_mem_distinctBy {list : List α} {a : α} (h : a ∈ distinctBy key list) :
    (list.find? fun b => key b = key a) = some a := by
  induction list with
  | nil => cases h
  | cons b rest ih =>
    rcases List.mem_cons.mp h with rfl | hRest
    · simp
    · obtain ⟨hListed, hOther⟩ := List.mem_filter.mp hRest
      have hKey : key a ≠ key b := of_decide_eq_true hOther
      rw [List.find?_cons_of_neg (by simpa using hKey.symm), ih hListed]

/-- Of two lists in a row, the second one adds the entries with new keys. -/
theorem distinctBy_append (first second : List α) : distinctBy key (first ++ second) =
    distinctBy key first ++ (distinctBy key second).filter fun b => ∀ a ∈ first, key b ≠ key a := by
  induction first with
  | nil => exact (List.filter_eq_self.mpr fun b _ => decide_eq_true nofun).symm
  | cons a first ih =>
    rw [List.cons_append, distinctBy, distinctBy, ih, List.filter_append, List.filter_filter, List.cons_append]
    simp

/-- What has the key of an earlier entry is not listed. -/
theorem distinctBy_concat_of_mem {list : List α} {a b : α} (ha : a ∈ list) (h : key b = key a) :
    distinctBy key (list ++ [b]) = distinctBy key list := by
  have hNone : ([b].filter fun b => decide (∀ a ∈ list, key b ≠ key a)) = [] := by
    rw [List.filter_eq_nil_iff, List.forall_mem_singleton, decide_eq_true_iff]
    exact fun hNew => hNew a ha h
  rw [distinctBy_append]
  exact (congrArg _ hNone).trans (List.append_nil _)

/-- No two listed entries have one key. -/
theorem pairwise_distinctBy (list : List α) : (distinctBy key list).Pairwise fun a b => key a ≠ key b := by
  induction list with
  | nil => exact .nil
  | cons a rest ih =>
    refine List.pairwise_cons.mpr ⟨?_, ih.filter _⟩
    intro b hb
    exact (of_decide_eq_true (List.mem_filter.mp hb).2 : key b ≠ key a).symm

/-- Where no two entries have one key, all are listed. -/
theorem distinctBy_eq_self {list : List α} (h : list.Pairwise fun a b => key a ≠ key b) : distinctBy key list = list := by
  induction list with
  | nil => rfl
  | cons a rest ih =>
    obtain ⟨hFirst, hRest⟩ := List.pairwise_cons.mp h
    rw [distinctBy, ih hRest, List.filter_eq_self.mpr]
    exact fun b hb => decide_eq_true (hFirst b hb).symm

/-- Where no two entries have one key, only an entry itself has its key. -/
theorem filter_key_eq {list : List α} (h : list.Pairwise fun a b => key a ≠ key b) {a : α} (ha : a ∈ list) :
    (list.filter fun b => key b = key a) = [a] := by
  induction list with
  | nil => cases ha
  | cons b rest ih =>
    obtain ⟨hFirst, hRest⟩ := List.pairwise_cons.mp h
    rcases List.mem_cons.mp ha with rfl | hLater
    · rw [List.filter_cons_of_pos (by simp), List.filter_eq_nil_iff.mpr]
      intro c hc hSame
      exact hFirst c hc (of_decide_eq_true hSame).symm
    · rw [List.filter_cons_of_neg, ih hRest hLater]
      intro hSame
      exact hFirst a hLater (of_decide_eq_true hSame)

/-- Entries that are put together by key are listed with one entry for each key. -/
theorem distinctBy_flatMap {groups : κ → List α} {keys : List κ} (hKeys : keys.Nodup)
    (hGroups : ∀ k ∈ keys, groups k ≠ [] ∧ ∀ a ∈ groups k, key a = k) :
    (distinctBy key (keys.flatMap groups)).map key = keys := by
  induction keys with
  | nil => rfl
  | cons k rest ih =>
    obtain ⟨hNew, hRest⟩ := List.nodup_cons.mp hKeys
    rw [List.forall_mem_cons] at hGroups
    obtain ⟨⟨hSome, hSame⟩, hLater⟩ := hGroups
    obtain ⟨a, more, hGroup⟩ := List.exists_cons_of_ne_nil hSome
    rw [hGroup, List.forall_mem_cons] at hSame
    have hOne : distinctBy key (groups k) = [a] := by
      rw [hGroup, distinctBy, List.filter_eq_nil_iff.mpr]
      intro b hb hOther
      exact (of_decide_eq_true hOther : key b ≠ key a) ((hSame.2 b (mem_of_mem_distinctBy hb)).trans hSame.1.symm)
    have hAll : (distinctBy key (rest.flatMap groups)).filter (fun b => ∀ a ∈ groups k, key b ≠ key a) =
        distinctBy key (rest.flatMap groups) := by
      refine List.filter_eq_self.mpr fun b hb => decide_eq_true ?_
      obtain ⟨later, hk, hb⟩ := List.mem_flatMap.mp (mem_of_mem_distinctBy hb)
      rw [hGroup, List.forall_mem_cons, (hLater later hk).2 b hb, hSame.1]
      refine ⟨?_, fun c hc => ?_⟩
      · rintro rfl
        exact hNew hk
      · rw [hSame.2 c hc]
        rintro rfl
        exact hNew hk
    rw [List.flatMap_cons, distinctBy_append, hAll, hOne, List.singleton_append, List.map_cons, hSame.1,
      ih hRest hLater]

/-- Of entries that are put together by key, those of one key are its group. -/
theorem filter_flatMap_groups {groups : κ → List α} {keys : List κ} (hKeys : keys.Nodup)
    (hGroups : ∀ k ∈ keys, ∀ a ∈ groups k, key a = k) {k : κ} (hk : k ∈ keys) :
    (keys.flatMap groups).filter (fun a => key a = k) = groups k := by
  have hOthers : ∀ {rest : List κ}, (∀ k' ∈ rest, ∀ a ∈ groups k', key a = k') → k ∉ rest →
      (rest.flatMap groups).filter (fun a => key a = k) = [] := by
    intro rest hRest hNone
    rw [List.filter_eq_nil_iff]
    intro a ha hSame
    obtain ⟨k', hk', ha⟩ := List.mem_flatMap.mp ha
    rw [hRest k' hk' a ha] at hSame
    exact hNone (of_decide_eq_true hSame ▸ hk')
  induction keys with
  | nil => cases hk
  | cons first rest ih =>
    obtain ⟨hNew, hRest⟩ := List.nodup_cons.mp hKeys
    rw [List.forall_mem_cons] at hGroups
    rw [List.flatMap_cons, List.filter_append]
    rcases List.mem_cons.mp hk with rfl | hLater
    · rw [hOthers hGroups.2 hNew, List.append_nil, List.filter_eq_self]
      exact fun a ha => decide_eq_true (hGroups.1 a ha)
    · have hFirst : (groups first).filter (fun a => key a = k) = [] := by
        rw [List.filter_eq_nil_iff]
        intro a ha hSame
        rw [hGroups.1 a ha] at hSame
        exact hNew (of_decide_eq_true hSame ▸ hLater)
      rw [hFirst, List.nil_append, ih hRest hGroups.2 hLater]

/-- Entries that are put together by key are the same entries in another order. -/
theorem flatMap_filter_perm {keys : List κ} (hKeys : keys.Nodup) {list : List α} (hAll : ∀ a ∈ list, key a ∈ keys) :
    (keys.flatMap fun k => list.filter fun a => key a = k).Perm list := by
  induction keys generalizing list with
  | nil =>
    have hEmpty : list = [] := List.eq_nil_iff_forall_not_mem.mpr fun a ha => List.not_mem_nil (hAll a ha)
    rw [hEmpty]
    exact .nil
  | cons k rest ih =>
    obtain ⟨hNew, hRest⟩ := List.nodup_cons.mp hKeys
    -- the groups of the other keys are those of the entries without this key
    have hLater : (rest.flatMap fun k' => list.filter fun a => key a = k') =
        rest.flatMap fun k' => (list.filter fun a => !decide (key a = k)).filter fun a => key a = k' := by
      refine List.flatMap_congr fun k' hk' => ?_
      rw [List.filter_filter]
      refine List.filter_congr fun a _ => ?_
      by_cases hSame : key a = k'
      · have hOther : key a ≠ k := fun hFirst => hNew (hFirst.symm.trans hSame ▸ hk')
        simp [hSame, hSame ▸ hOther]
      · simp [hSame]
    rw [List.flatMap_cons, hLater]
    refine (List.Perm.append_left _ (ih hRest ?_)).trans (List.filter_append_perm _ list)
    intro a ha
    obtain ⟨hMem, hOther⟩ := List.mem_filter.mp ha
    exact (List.mem_cons.mp (hAll a hMem)).resolve_left (by simpa using hOther)

/-- The keys that are listed are the keys of the listed entries. -/
theorem distinctBy_map (list : List α) : distinctBy id (list.map key) = (distinctBy key list).map key := by
  induction list with
  | nil => rfl
  | cons a rest ih =>
    rw [List.map_cons, distinctBy, distinctBy, ih, List.filter_map]
    rfl

-- ---------------------------------------------------------------------------
-- Last values
-- ---------------------------------------------------------------------------

/-- Where some member of a list is chosen, there is a last one that is. -/
theorem exists_getLast?_filter {chosen : α → Bool} {list : List α} {a : α} (h : a ∈ list) (ha : chosen a = true) :
    ∃ last, (list.filter chosen).getLast? = some last := by
  have hFilled : list.filter chosen ≠ [] := List.ne_nil_of_mem (List.mem_filter.mpr ⟨h, ha⟩)
  exact ⟨_, List.getLast?_eq_some_getLast hFilled⟩

namespace Problem

/-- The value of the last assignment to a key counts. -/
theorem lastValue_eq (functions : List Assignment) (key : String × List String) (otherwise : Float) :
    lastValue functions key otherwise =
      ((functions.filter fun f => identityKey f.name f.args = key).getLast?.map (·.value)).getD otherwise := by
  have hFold : lastValue functions key otherwise =
      (functions.filter fun f => identityKey f.name f.args = key).foldl (fun _ f => f.value) otherwise := by
    rw [List.foldl_filter]
    simp [lastValue]
  rw [hFold]
  induction functions.filter fun f => identityKey f.name f.args = key using List.reverseRecOn with
  | nil => rfl
  | append_singleton before last _ => simp

end Problem

end PlanReplay
