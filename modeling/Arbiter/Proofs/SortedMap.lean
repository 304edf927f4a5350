import Arbiter.SortedMap
import Mathlib.Data.List.Perm.Subperm

/-!
# Maps from lists

* `SortedMap.lookup_eq_some_iff`: a look-up finds exactly the entries.
* `SortedMap.mem_of_mem_ofList`: a map made from a list holds nothing else.
* `SortedMap.entries_ofList_perm`: with different keys it holds all of the list. `SortedMap.ofList_perm`: a list of the
  entries of a map, in any order, makes the map again.
* `SortedMap.lookup_ofList_eq_some_iff`: of entries with one key the last one counts. `SortedMap.size_ofList_eq_iff`: all are
  kept exactly if no key is repeated.
* `SortedMap.mem_keys_alter`: to alter a value adds its key.
* `SortedMap.forall_alter`, `SortedMap.forall_mapValues`: what holds of all values after one is altered, or each one is.
-/

namespace Arbiter

namespace SortedMap

section

variable {κ ν μ : Type} [Ord κ] [Std.LawfulEqOrd κ]

theorem find?_eq_some_iff {k : κ} {v : ν} :
    ∀ {l : List (κ × ν)}, (l.Pairwise fun a b => compare a.1 b.1 = .lt) →
      ((l.find? fun e => compare k e.1 == .eq).map (·.2) = some v ↔ (k, v) ∈ l)
  | [], _ => by simp
  | (a, b) :: rest, h => by
    have ⟨ha, hr⟩ := List.pairwise_cons.1 h
    by_cases hk : compare k a = .eq
    · have hka : k = a := Std.LawfulEqCmp.eq_of_compare hk
      subst hka
      have hnot : (k, v) ∉ rest := fun hm => by
        have hlt := ha _ hm
        rw [hk] at hlt
        cases hlt
      simp [hnot, eq_comm]
    · have hka : k ≠ a := fun he => hk (by rw [he]; exact Std.ReflCmp.compare_self)
      have ih := find?_eq_some_iff (k := k) (v := v) hr
      simp only [List.find?_cons, beq_eq_false_iff_ne.2 hk, ih, List.mem_cons, Prod.mk.injEq, hka, false_and, false_or]

/-- A look-up finds the entry of its key. -/
theorem lookup_eq_some_iff {m : SortedMap κ ν} {k : κ} {v : ν} :
    m.lookup k = some v ↔ (k, v) ∈ m.entries := find?_eq_some_iff m.ascending

theorem nodup_keys (m : SortedMap κ ν) : m.keys.Nodup := by
  refine List.pairwise_map.2 (m.ascending.imp fun {a b} hlt heq => ?_)
  have hself : compare b.1 b.1 = .eq := Std.ReflCmp.compare_self
  rw [heq, hself] at hlt
  cases hlt

theorem lookup_filter (m : SortedMap κ ν) (p : κ → ν → Bool) (k : κ) :
    (m.filter p).lookup k = (m.lookup k).filter (p k) := by
  refine Option.ext fun v => ?_
  rw [lookup_eq_some_iff, Option.filter_eq_some_iff, lookup_eq_some_iff]
  exact List.mem_filter

theorem lookup_mapEntries (m : SortedMap κ ν) (f : κ → ν → μ) (k : κ) :
    (m.mapEntries f).lookup k = (m.lookup k).map (f k) := by
  refine Option.ext fun v => ?_
  rw [lookup_eq_some_iff, Option.map_eq_some_iff]
  simp only [lookup_eq_some_iff, mapEntries, List.mem_map, Prod.mk.injEq, Prod.exists]
  constructor
  · rintro ⟨j, u, hm, rfl, rfl⟩
    exact ⟨u, hm, rfl⟩
  · rintro ⟨u, hm, rfl⟩
    exact ⟨k, u, hm, rfl, rfl⟩

end

variable {κ ν : Type} [Ord κ] [Std.TransOrd κ]

theorem mem_of_mem_foldl {e : κ × ν} : ∀ {l : List (κ × ν)} {m : SortedMap κ ν},
    e ∈ (l.foldl (fun m e => m.insert e.1 e.2) m).entries → e ∈ m.entries ∨ e ∈ l
  | [], _, h => .inl h
  | (k, v) :: rest, m, h => by
    rcases mem_of_mem_foldl (l := rest) h with h | h
    · rcases mem_insertEntry h with h | h
      · exact .inr (h ▸ List.mem_cons_self)
      · exact .inl h
    · exact .inr (List.mem_cons_of_mem _ h)

theorem mem_of_mem_ofList {e : κ × ν} {l : List (κ × ν)} (h : e ∈ (ofList l).entries) : e ∈ l :=
  (mem_of_mem_foldl h).resolve_left (by simp)

theorem keys_ofList_subset (l : List (κ × ν)) : (ofList l).keys ⊆ l.map (·.1) := by
  intro k hk
  obtain ⟨e, he, rfl⟩ := List.mem_map.1 hk
  exact List.mem_map_of_mem (mem_of_mem_ofList he)

omit [Std.TransOrd κ] in
/-- A new key only adds an entry. -/
theorem insertEntry_perm {k : κ} {v : ν} : ∀ {l : List (κ × ν)}, (∀ e ∈ l, compare k e.1 ≠ .eq) →
    (insertEntry k v l).Perm ((k, v) :: l)
  | [], _ => .refl _
  | (a, b) :: rest, h => by
    obtain ⟨hne, hrest⟩ := List.forall_mem_cons.1 h
    rw [insertEntry]
    split
    case h_1 => exact .refl _
    case h_2 heq => exact absurd heq hne
    case h_3 => exact ((insertEntry_perm hrest).cons _).trans (.swap ..)

omit [Std.TransOrd κ] in
/-- A key after all others comes last. -/
theorem insertEntry_last {k : κ} {v : ν} : ∀ {l : List (κ × ν)}, (∀ e ∈ l, compare k e.1 = .gt) →
    insertEntry k v l = l ++ [(k, v)]
  | [], _ => rfl
  | (a, b) :: rest, h => by
    obtain ⟨hfirst, hrest⟩ := List.forall_mem_cons.1 h
    have hfirst : compare k a = .gt := hfirst
    rw [insertEntry, hfirst, insertEntry_last hrest]
    rfl

omit [Std.TransOrd κ] in
theorem mem_keys_insertEntry [Std.LawfulEqOrd κ] {k j : κ} {v : ν} : ∀ {l : List (κ × ν)},
    j ∈ (insertEntry k v l).map (·.1) ↔ j = k ∨ j ∈ l.map (·.1)
  | [] => by simp [insertEntry]
  | (a, b) :: rest => by
    rw [insertEntry]
    split
    · simp
    · rename_i hk
      obtain rfl : k = a := Std.LawfulEqCmp.eq_of_compare hk
      simp
    · rw [List.map_cons, List.mem_cons, mem_keys_insertEntry, List.map_cons, List.mem_cons, or_left_comm]

/-- To alter a value adds its key. -/
theorem mem_keys_alter [Std.LawfulEqOrd κ] {m : SortedMap κ ν} {k j : κ} {f : Option ν → ν} :
    j ∈ (m.alter k f).keys ↔ j = k ∨ j ∈ m.keys := mem_keys_insertEntry

/-- What holds of the altered value and of the others holds of all. -/
theorem forall_alter {m : SortedMap κ ν} {k : κ} {f : Option ν → ν} {p : ν → Prop} (hm : ∀ e ∈ m.entries, p e.2)
    (hf : ∀ old, (∀ v ∈ old, p v) → p (f old)) : ∀ e ∈ (m.alter k f).entries, p e.2 := by
  intro e he
  rcases mem_insertEntry he with rfl | he
  · refine hf _ fun v hv => ?_
    obtain ⟨e, hfind, rfl⟩ := Option.map_eq_some_iff.1 hv
    exact hm e (List.mem_of_find?_eq_some hfind)
  · exact hm e he

omit [Std.TransOrd κ] in
theorem forall_mapValues {μ : Type} {m : SortedMap κ ν} {f : ν → μ} {p : μ → Prop} :
    (∀ e ∈ (m.mapValues f).entries, p e.2) ↔ ∀ e ∈ m.entries, p (f e.2) :=
  List.forall_mem_map

theorem foldl_perm : ∀ {l : List (κ × ν)} {m : SortedMap κ ν}, l.Pairwise (fun a b => compare a.1 b.1 ≠ .eq) →
    (∀ a ∈ l, ∀ e ∈ m.entries, compare a.1 e.1 ≠ .eq) →
    (l.foldl (fun m e => m.insert e.1 e.2) m).entries.Perm (l ++ m.entries)
  | [], _, _, _ => .refl _
  | (k, v) :: rest, m, hl, hm => by
    obtain ⟨hk, hrest⟩ := List.pairwise_cons.1 hl
    obtain ⟨hnew, hlater⟩ := List.forall_mem_cons.1 hm
    have hinsert : (m.insert k v).entries.Perm ((k, v) :: m.entries) := insertEntry_perm hnew
    have hne : ∀ a ∈ rest, ∀ e ∈ (m.insert k v).entries, compare a.1 e.1 ≠ .eq := by
      intro a ha e he
      rcases List.mem_cons.1 (hinsert.mem_iff.1 he) with rfl | he
      · exact fun heq => hk a ha (Std.OrientedCmp.eq_symm heq)
      · exact hlater a ha e he
    exact (foldl_perm hrest hne).trans ((hinsert.append_left rest).trans List.perm_middle)

/-- A map made from a list with different keys has the entries of the list. -/
theorem entries_ofList_perm {l : List (κ × ν)} (h : l.Pairwise fun a b => compare a.1 b.1 ≠ .eq) :
    (ofList l).entries.Perm l := by
  have hperm := foldl_perm (m := empty) h (by simp)
  rwa [entries_empty, List.append_nil] at hperm

/-- A list of the entries of a map makes the map again, whatever their order. -/
theorem ofList_perm {l : List (κ × ν)} {m : SortedMap κ ν} (h : l.Perm m.entries) : ofList l = m := by
  have hdistinct : l.Pairwise fun a b => compare a.1 b.1 ≠ .eq := by
    refine (h.pairwise_iff fun {a b} hab heq => hab (Std.OrientedCmp.eq_symm heq)).2 (m.ascending.imp fun hlt heq => ?_)
    rw [hlt] at heq
    cases heq
  have hentries : (ofList l).entries.Perm m.entries := (entries_ofList_perm hdistinct).trans h
  refine SortedMap.ext (hentries.eq_of_pairwise (fun a b _ _ hab hba => ?_) (ofList l).ascending m.ascending)
  rw [Std.OrientedCmp.gt_of_lt hab] at hba
  cases hba

section

variable [Std.LawfulEqOrd κ]

theorem lookup_foldl (k : κ) : ∀ (l : List (κ × ν)) (m : SortedMap κ ν),
    (l.foldl (fun m e => m.insert e.1 e.2) m).lookup k =
      ((l.reverse.find? fun e => compare k e.1 == .eq).map (·.2)).or (m.lookup k)
  | [], m => rfl
  | (j, v) :: rest, m => by
    rw [List.foldl_cons, lookup_foldl k rest, List.reverse_cons, List.find?_append]
    cases rest.reverse.find? fun e => compare k e.1 == .eq with
    | some e => rfl
    | none =>
      by_cases hk : k = j
      · subst hk
        simp [lookup_insert_self, Std.ReflCmp.compare_self]
      · have hne : compare k j ≠ .eq := fun h => hk (Std.LawfulEqCmp.eq_of_compare h)
        simp [lookup_insert_ne m v hk, hne]

/-- Of several entries of a list with one key the last one counts. -/
theorem lookup_ofList_eq_some_iff {k : κ} {v : ν} {l : List (κ × ν)} :
    (ofList l).lookup k = some v ↔ ∃ before after, l = before ++ (k, v) :: after ∧ ∀ e ∈ after, e.1 ≠ k := by
  have hlookup : (ofList l).lookup k = (l.reverse.find? fun e => compare k e.1 == .eq).map (·.2) := by
    rw [ofList, lookup_foldl]
    exact Option.or_none
  rw [hlookup, Option.map_eq_some_iff]
  constructor
  · rintro ⟨⟨j, _⟩, hfind, rfl⟩
    obtain ⟨hkey, after, before, hl, hafter⟩ := List.find?_eq_some_iff_append.1 hfind
    obtain rfl : k = j := by simpa using hkey
    refine ⟨before.reverse, after.reverse, by simpa using congrArg List.reverse hl, fun e he heq => ?_⟩
    simpa [heq] using hafter e (List.mem_reverse.1 he)
  · rintro ⟨before, after, rfl, hafter⟩
    refine ⟨(k, v), ?_, rfl⟩
    rw [List.find?_eq_some_iff_append]
    refine ⟨by simp, after.reverse, before.reverse, by simp, fun e he => ?_⟩
    simpa using (hafter e (List.mem_reverse.1 he)).symm

/-- The map of a list has as many entries as the list exactly if no key is repeated. -/
theorem size_ofList_eq_iff {l : List (κ × ν)} : (ofList l).size = l.length ↔ (l.map (·.1)).Nodup := by
  constructor
  · intro h
    have hle : (l.map (·.1)).length ≤ (ofList l).keys.length := by
      rw [List.length_map, keys, List.length_map]
      exact Nat.le_of_eq h.symm
    have hperm := (List.subperm_of_subset (nodup_keys _) (keys_ofList_subset l)).perm_of_length_le hle
    exact hperm.nodup_iff.1 (nodup_keys _)
  · intro h
    have hdistinct : l.Pairwise fun a b => compare a.1 b.1 ≠ .eq :=
      (List.pairwise_map.1 h).imp fun hne heq => hne (Std.LawfulEqCmp.eq_of_compare heq)
    exact (entries_ofList_perm hdistinct).length_eq

end

end SortedMap

end Arbiter
