/-!
# Finite maps as sorted lists

A `SortedMap` is a list of keys with values, its keys strictly ascending. So a map has one form only: two maps with the
same entries are equal.

* `mem_insertEntry`, `ascending_insertEntry`: what an insertion adds to the list, and that the keys stay ascending.
* `lookup_insert_self`, `lookup_insert_ne`: a lookup after an insertion.
-/

namespace Arbiter

/-- Keys with values, the keys strictly ascending. -/
structure SortedMap (κ ν : Type) [Ord κ] where
  entries : List (κ × ν)
  ascending : entries.Pairwise fun a b => compare a.1 b.1 = .lt

namespace SortedMap

variable {κ ν μ : Type} [Ord κ]

instance [DecidableEq κ] [DecidableEq ν] : DecidableEq (SortedMap κ ν) := fun a b =>
  if h : a.entries = b.entries then isTrue (by cases a; cases b; cases h; rfl)
  else isFalse fun e => h (congrArg entries e)

@[ext] theorem ext {a b : SortedMap κ ν} (h : a.entries = b.entries) : a = b := by
  cases a; cases b; cases h; rfl

/-- The map without entries. -/
def empty : SortedMap κ ν := ⟨[], .nil⟩

instance : EmptyCollection (SortedMap κ ν) := ⟨empty⟩
instance : Inhabited (SortedMap κ ν) := ⟨empty⟩

/-- The entries with `k` at its place, in place of an old value. -/
def insertEntry (k : κ) (v : ν) : List (κ × ν) → List (κ × ν)
  | [] => [(k, v)]
  | (a, b) :: rest =>
    match compare k a with
    | .lt => (k, v) :: (a, b) :: rest
    | .eq => (k, v) :: rest
    | .gt => (a, b) :: insertEntry k v rest

theorem mem_insertEntry {k : κ} {v : ν} {e : κ × ν} :
    ∀ {l : List (κ × ν)}, e ∈ insertEntry k v l → e = (k, v) ∨ e ∈ l
  | [], h => by simpa [insertEntry] using h
  | (a, b) :: rest, h => by
    rw [insertEntry] at h
    split at h
    · simpa using h
    · rcases List.mem_cons.1 h with h | h
      · exact .inl h
      · exact .inr (List.mem_cons_of_mem _ h)
    · rcases List.mem_cons.1 h with h | h
      · exact .inr (h ▸ List.mem_cons_self)
      · exact (mem_insertEntry h).imp_right (List.mem_cons_of_mem _)

theorem ascending_insertEntry [Std.TransOrd κ] (k : κ) (v : ν) :
    ∀ {l : List (κ × ν)}, (l.Pairwise fun a b => compare a.1 b.1 = .lt) →
      (insertEntry k v l).Pairwise fun a b => compare a.1 b.1 = .lt
  | [], _ => List.pairwise_singleton _ _
  | (a, b) :: rest, h => by
    have ⟨ha, hr⟩ := List.pairwise_cons.1 h
    rw [insertEntry]
    split
    · rename_i hk
      refine List.pairwise_cons.2 ⟨fun e he => ?_, h⟩
      rcases List.mem_cons.1 he with rfl | he
      · exact hk
      · exact Std.TransCmp.lt_trans hk (ha e he)
    · rename_i hk
      exact List.pairwise_cons.2 ⟨fun e he => Std.TransCmp.lt_of_eq_of_lt hk (ha e he), hr⟩
    · rename_i hk
      refine List.pairwise_cons.2 ⟨fun e he => ?_, ascending_insertEntry k v hr⟩
      rcases mem_insertEntry he with rfl | he
      · exact Std.OrientedCmp.lt_of_gt hk
      · exact ha e he

/-- The map with `v` at `k`. -/
def insert [Std.TransOrd κ] (m : SortedMap κ ν) (k : κ) (v : ν) : SortedMap κ ν :=
  ⟨insertEntry k v m.entries, ascending_insertEntry k v m.ascending⟩

/-- The map of a list of entries; the last one of a key counts. -/
def ofList [Std.TransOrd κ] (l : List (κ × ν)) : SortedMap κ ν :=
  l.foldl (fun m e => m.insert e.1 e.2) empty

/-- The map with one entry. -/
def single (k : κ) (v : ν) : SortedMap κ ν := ⟨[(k, v)], List.pairwise_singleton _ _⟩

/-- The value at a key. -/
def lookup (m : SortedMap κ ν) (k : κ) : Option ν :=
  (m.entries.find? fun e => compare k e.1 == .eq).map (·.2)

/-- The keys, ascending. -/
def keys (m : SortedMap κ ν) : List κ := m.entries.map (·.1)

/-- The values in the order of their keys. -/
def values (m : SortedMap κ ν) : List ν := m.entries.map (·.2)

/-- How many entries there are. -/
def size (m : SortedMap κ ν) : Nat := m.entries.length

/-- Whether there are no entries. -/
def isEmpty (m : SortedMap κ ν) : Bool := m.entries.isEmpty

/-- The map with `f` applied to each key and value. -/
def mapEntries (f : κ → ν → μ) (m : SortedMap κ ν) : SortedMap κ μ :=
  ⟨m.entries.map fun e => (e.1, f e.1 e.2), List.pairwise_map.2 m.ascending⟩

/-- The map with `f` applied to each value. -/
def mapValues (f : ν → μ) (m : SortedMap κ ν) : SortedMap κ μ :=
  m.mapEntries fun _ v => f v

/-- The entries that `p` holds of. -/
def filter (p : κ → ν → Bool) (m : SortedMap κ ν) : SortedMap κ ν :=
  ⟨m.entries.filter fun e => p e.1 e.2, m.ascending.filter _⟩

/-- The map with the value at `k` replaced by `f` of it, or of nothing. -/
def alter [Std.TransOrd κ] (m : SortedMap κ ν) (k : κ) (f : Option ν → ν) : SortedMap κ ν :=
  m.insert k (f (m.lookup k))

@[simp] theorem entries_empty : (empty : SortedMap κ ν).entries = [] := rfl

@[simp] theorem entries_insert [Std.TransOrd κ] (m : SortedMap κ ν) (k : κ) (v : ν) :
    (m.insert k v).entries = insertEntry k v m.entries := rfl

theorem lookup_insert_self [Std.TransOrd κ] (m : SortedMap κ ν) (k : κ) (v : ν) : (m.insert k v).lookup k = some v := by
  have h : ∀ l : List (κ × ν), (insertEntry k v l).find? (fun e => compare k e.1 == .eq) = some (k, v) := by
    intro l
    induction l with
    | nil => simp [insertEntry, Std.ReflCmp.compare_self]
    | cons e rest ih =>
      obtain ⟨a, b⟩ := e
      rw [insertEntry]
      split
      · simp [Std.ReflCmp.compare_self]
      · simp [Std.ReflCmp.compare_self]
      · rename_i hk
        simp [hk, ih]
  simp [lookup, h]

theorem lookup_insert_ne [Std.TransOrd κ] [Std.LawfulEqOrd κ] (m : SortedMap κ ν) {k j : κ} (v : ν) (hne : j ≠ k) :
    (m.insert k v).lookup j = m.lookup j := by
  have hj : ¬compare j k = .eq := fun h => hne (Std.LawfulEqCmp.eq_of_compare h)
  have h : ∀ l : List (κ × ν), (insertEntry k v l).find? (fun e => compare j e.1 == .eq) =
      l.find? (fun e => compare j e.1 == .eq) := by
    intro l
    induction l with
    | nil => simp [insertEntry, hj]
    | cons e rest ih =>
      obtain ⟨a, b⟩ := e
      rw [insertEntry]
      split
      · simp [List.find?_cons, hj]
      · rename_i hk
        have hka : k = a := Std.LawfulEqCmp.eq_of_compare hk
        subst hka
        simp [hj]
      · simp only [List.find?_cons, ih]
  simp [lookup, h]

@[simp] theorem keys_mapEntries (f : κ → ν → μ) (m : SortedMap κ ν) : (m.mapEntries f).keys = m.keys := by
  simp [keys, mapEntries, Function.comp_def]

@[simp] theorem keys_mapValues (f : ν → μ) (m : SortedMap κ ν) : (m.mapValues f).keys = m.keys :=
  keys_mapEntries _ m

theorem mem_keys_insert [Std.TransOrd κ] {m : SortedMap κ ν} {k j : κ} {v : ν} (h : j ∈ (m.insert k v).keys) :
    j = k ∨ j ∈ m.keys := by
  obtain ⟨e, he, rfl⟩ := List.mem_map.1 h
  exact (mem_insertEntry he).imp (fun h => by rw [h]) fun h => List.mem_map.2 ⟨e, h, rfl⟩

theorem mem_keys_filter {m : SortedMap κ ν} {p : κ → ν → Bool} {j : κ} (h : j ∈ (m.filter p).keys) : j ∈ m.keys := by
  obtain ⟨e, he, rfl⟩ := List.mem_map.1 h
  exact List.mem_map.2 ⟨e, (List.mem_filter.1 he).1, rfl⟩

end SortedMap

end Arbiter
