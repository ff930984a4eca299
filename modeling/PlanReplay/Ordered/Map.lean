import PlanReplay.Ordered.Set

/-!
# Ordered maps

A finite map kept as a list of entries with strictly ascending keys, so that a map is listed in the order
of its keys and two maps with the same look-ups are the same value.

Each operation has one statement through look-up: `OrderedMap.get?_insert_self`,
`OrderedMap.get?_insert_ne`, `OrderedMap.get?_erase` and `OrderedMap.get?_map`; `OrderedMap.mem_toList_iff`
ties look-up to the listed entries and `OrderedMap.ext` says that look-ups decide equality.
-/

namespace PlanReplay

open Std

variable {κ ν : Type}

/-- Puts an entry before the first larger key; an entry whose key compares equal is replaced. -/
def upsertAscending [Ord κ] (k : κ) (v : ν) : List (κ × ν) → List (κ × ν)
  | [] => [(k, v)]
  | (c, w) :: rest =>
    match compare k c with
    | .lt => (k, v) :: (c, w) :: rest
    | .eq => (k, v) :: rest
    | .gt => (c, w) :: upsertAscending k v rest

/-- The value of the first entry with key `k`. -/
def lookupEntry [DecidableEq κ] (k : κ) : List (κ × ν) → Option ν
  | [] => none
  | (c, w) :: rest => if k = c then some w else lookupEntry k rest

/-- A finite map, listed in ascending order of its keys. -/
structure OrderedMap (κ ν : Type) [Ord κ] where
  toList : List (κ × ν)
  ascending : toList.Pairwise fun a b => compare a.1 b.1 = .lt

section Lookup

variable [DecidableEq κ]

@[simp] theorem lookupEntry_nil (k : κ) : lookupEntry k ([] : List (κ × ν)) = none := rfl

theorem lookupEntry_cons (k c : κ) (v : ν) (rest : List (κ × ν)) :
    lookupEntry k ((c, v) :: rest) = if k = c then some v else lookupEntry k rest :=
  rfl

theorem lookupEntry_upsertAscending [Ord κ] [LawfulEqOrd κ] (k c : κ) (v : ν) (xs : List (κ × ν)) :
    lookupEntry c (upsertAscending k v xs) = if c = k then some v else lookupEntry c xs := by
  induction xs with
  | nil => simp [upsertAscending, lookupEntry_cons]
  | cons entry rest ih =>
    obtain ⟨d, w⟩ := entry
    unfold upsertAscending
    split
    · simp [lookupEntry_cons]
    · rename_i same
      rw [LawfulEqOrd.eq_of_compare same]
      by_cases hc : c = d <;> simp [lookupEntry_cons, hc]
    · rename_i greater
      have differs : k ≠ d := fun h => by
        rw [h, ReflOrd.compare_self] at greater
        cases greater
      by_cases hc : c = d
      · subst hc
        simp [lookupEntry_cons, Ne.symm differs]
      · simp [lookupEntry_cons, hc, ih]

theorem lookupEntry_filter_ne (k c : κ) (xs : List (κ × ν)) :
    lookupEntry c (xs.filter fun entry => entry.1 ≠ k) = if c = k then none else lookupEntry c xs := by
  induction xs with
  | nil => simp
  | cons entry rest ih =>
    obtain ⟨d, w⟩ := entry
    by_cases hd : d = k
    · subst hd
      by_cases hc : c = d <;> simp_all [lookupEntry_cons]
    · by_cases hc : c = d
      · subst hc
        simp [lookupEntry_cons, hd]
      · simp_all [lookupEntry_cons]

theorem lookupEntry_map {μ : Type} (f : κ → ν → μ) (k : κ) (xs : List (κ × ν)) :
    lookupEntry k (xs.map fun entry => (entry.1, f entry.1 entry.2)) = (lookupEntry k xs).map (f k) := by
  induction xs with
  | nil => rfl
  | cons entry rest ih =>
    obtain ⟨c, w⟩ := entry
    by_cases h : k = c
    · subst h
      simp [lookupEntry_cons]
    · simp [lookupEntry_cons, h, ih]

theorem lookupEntry_eq_some_of_mem {k : κ} {v : ν} {xs : List (κ × ν)}
    (distinct : xs.Pairwise fun a b => a.1 ≠ b.1) (mem : (k, v) ∈ xs) : lookupEntry k xs = some v := by
  induction xs with
  | nil => cases mem
  | cons entry rest ih =>
    obtain ⟨c, w⟩ := entry
    obtain ⟨away, tail⟩ := List.pairwise_cons.1 distinct
    rcases List.mem_cons.1 mem with h | h
    · cases h
      simp [lookupEntry_cons]
    · have : k ≠ c := fun h' => away _ h h'.symm
      simp [lookupEntry_cons, this, ih tail h]

theorem mem_of_lookupEntry_eq_some {k : κ} {v : ν} {xs : List (κ × ν)}
    (found : lookupEntry k xs = some v) : (k, v) ∈ xs := by
  induction xs with
  | nil => cases found
  | cons entry rest ih =>
    obtain ⟨c, w⟩ := entry
    by_cases h : k = c
    · subst h
      simp only [lookupEntry_cons, if_true, Option.some.injEq] at found
      exact found ▸ List.mem_cons_self
    · simp only [lookupEntry_cons, h, if_false] at found
      exact List.mem_cons_of_mem _ (ih found)

end Lookup

theorem mem_upsertAscending [Ord κ] {k : κ} {v : ν} {entry : κ × ν} {xs : List (κ × ν)}
    (mem : entry ∈ upsertAscending k v xs) : entry = (k, v) ∨ entry ∈ xs := by
  induction xs with
  | nil => simpa [upsertAscending] using mem
  | cons first rest ih =>
    obtain ⟨c, w⟩ := first
    unfold upsertAscending at mem
    split at mem
    · simpa using mem
    · rcases List.mem_cons.1 mem with h | h
      · exact .inl h
      · exact .inr (List.mem_cons_of_mem _ h)
    · rcases List.mem_cons.1 mem with h | h
      · exact .inr (h ▸ List.mem_cons_self)
      · exact (ih h).imp_right (List.mem_cons_of_mem _)

theorem upsertAscending_ascending [Ord κ] [LawfulEqOrd κ] [TransOrd κ] (k : κ) (v : ν)
    {xs : List (κ × ν)} (sorted : xs.Pairwise fun a b => compare a.1 b.1 = .lt) :
    (upsertAscending k v xs).Pairwise fun a b => compare a.1 b.1 = .lt := by
  induction xs with
  | nil => simp [upsertAscending]
  | cons first rest ih =>
    obtain ⟨c, w⟩ := first
    obtain ⟨below, tail⟩ := List.pairwise_cons.1 sorted
    unfold upsertAscending
    split
    · rename_i less
      refine List.pairwise_cons.2 ⟨fun entry mem => ?_, sorted⟩
      rcases List.mem_cons.1 mem with rfl | mem
      · exact less
      · exact TransCmp.lt_trans less (below entry mem)
    · rename_i same
      refine List.pairwise_cons.2 ⟨fun entry mem => ?_, tail⟩
      have : k = c := LawfulEqOrd.eq_of_compare same
      exact this ▸ below entry mem
    · rename_i greater
      refine List.pairwise_cons.2 ⟨fun entry mem => ?_, ih tail⟩
      rcases mem_upsertAscending mem with rfl | mem
      · exact OrientedCmp.gt_iff_lt.1 greater
      · exact below entry mem

namespace OrderedMap

variable [Ord κ]

/-- The map without entries. -/
def empty : OrderedMap κ ν := ⟨[], .nil⟩

/-- The keys, in ascending order. -/
def keys (m : OrderedMap κ ν) : List κ := m.toList.map Prod.fst

/-- The number of entries. -/
def size (m : OrderedMap κ ν) : Nat := m.toList.length

/-- The map with every value replaced; keys stay. -/
def map {μ : Type} (f : κ → ν → μ) (m : OrderedMap κ ν) : OrderedMap κ μ :=
  ⟨m.toList.map fun entry => (entry.1, f entry.1 entry.2),
    List.pairwise_map.2 m.ascending⟩

instance [DecidableEq κ] [DecidableEq ν] : DecidableEq (OrderedMap κ ν) := fun m n =>
  if same : m.toList = n.toList then
    .isTrue (by cases m; cases n; simp_all)
  else
    .isFalse fun equal => same (equal ▸ rfl)

/-- The map with `k` bound to `v`. -/
def insert [LawfulEqOrd κ] [TransOrd κ] (k : κ) (v : ν) (m : OrderedMap κ ν) : OrderedMap κ ν :=
  ⟨upsertAscending k v m.toList, upsertAscending_ascending k v m.ascending⟩

variable [DecidableEq κ]

/-- The map with `k` unbound. -/
def erase (k : κ) (m : OrderedMap κ ν) : OrderedMap κ ν :=
  ⟨m.toList.filter fun entry => entry.1 ≠ k, m.ascending.filter _⟩

/-- The value bound to `k`. -/
def get? (m : OrderedMap κ ν) (k : κ) : Option ν := lookupEntry k m.toList

/-- Whether `k` is bound. -/
def contains (m : OrderedMap κ ν) (k : κ) : Bool := (m.get? k).isSome

@[simp] theorem get?_empty (k : κ) : (empty : OrderedMap κ ν).get? k = none := rfl

omit [DecidableEq κ] in
theorem distinct_keys [LawfulEqOrd κ] (m : OrderedMap κ ν) :
    m.toList.Pairwise fun a b => a.1 ≠ b.1 :=
  m.ascending.imp fun {a b} less same => by
    rw [same, ReflOrd.compare_self] at less
    cases less

/-- The listed entries are the bindings. -/
theorem mem_toList_iff [LawfulEqOrd κ] {m : OrderedMap κ ν} {k : κ} {v : ν} :
    (k, v) ∈ m.toList ↔ m.get? k = some v :=
  ⟨lookupEntry_eq_some_of_mem m.distinct_keys, mem_of_lookupEntry_eq_some⟩

variable [LawfulEqOrd κ] [TransOrd κ]

theorem get?_insert (m : OrderedMap κ ν) (k c : κ) (v : ν) :
    (m.insert k v).get? c = if c = k then some v else m.get? c :=
  lookupEntry_upsertAscending k c v m.toList

@[simp] theorem get?_insert_self (m : OrderedMap κ ν) (k : κ) (v : ν) :
    (m.insert k v).get? k = some v := by
  simp [get?_insert]

theorem get?_insert_ne (m : OrderedMap κ ν) {k c : κ} (v : ν) (differs : c ≠ k) :
    (m.insert k v).get? c = m.get? c := by
  simp [get?_insert, differs]

omit [LawfulEqOrd κ] [TransOrd κ] in
theorem get?_erase (m : OrderedMap κ ν) (k c : κ) :
    (m.erase k).get? c = if c = k then none else m.get? c :=
  lookupEntry_filter_ne k c m.toList

omit [LawfulEqOrd κ] [TransOrd κ] in
@[simp] theorem get?_map {μ : Type} (f : κ → ν → μ) (m : OrderedMap κ ν) (k : κ) :
    (m.map f).get? k = (m.get? k).map (f k) :=
  lookupEntry_map f k m.toList

/-- Maps with the same look-ups are equal. -/
theorem ext {m n : OrderedMap κ ν} (same : ∀ k, m.get? k = n.get? k) : m = n := by
  have entries : ∀ entry, entry ∈ m.toList ↔ entry ∈ n.toList := fun entry => by
    rw [mem_toList_iff, mem_toList_iff, same]
  obtain ⟨xs, hx⟩ := m
  obtain ⟨ys, hy⟩ := n
  have equal : xs = ys :=
    eq_of_ascending (fun a => compare_ne_lt a.1) TransCmp.lt_trans hx hy entries
  subst equal
  rfl

/-- Replacing values goes along with binding a key. -/
theorem map_insert {μ : Type} (f : κ → ν → μ) (m : OrderedMap κ ν) (k : κ) (v : ν) :
    (m.insert k v).map f = (m.map f).insert k (f k v) := by
  refine ext fun c => ?_
  by_cases h : c = k
  · subst h
    simp
  · simp [get?_insert_ne, h]

end OrderedMap

end PlanReplay
