import Arbiter.Json.Basic

/-!
# Members of canonical objects

* `Json.find?_sortMembers`: of the members with one name, the last one is found after sorting.
* `Json.mem_sortMembers`: no members are added by sorting.
* `Json.sortMembers_perm`: members with different names are only put into another order.
-/

namespace Arbiter

namespace Json

theorem canonicalItems_eq_map (items : List Json) : canonicalItems items = items.map canonical := by
  induction items with
  | nil => rfl
  | cons v rest ih => rw [canonicalItems, ih, List.map_cons]

theorem canonicalMembers_eq_map (members : List (String × Json)) :
    canonicalMembers members = members.map fun m => (m.1, m.2.canonical) := by
  induction members with
  | nil => rfl
  | cons m rest ih => rw [canonicalMembers, ih, List.map_cons]

theorem find?_insertMember (name other : String) (v : Json) (l : List (String × Json)) :
    (insertMember name v l).find? (·.1 == other) = if name = other then some (name, v) else l.find? (·.1 == other) := by
  induction l with
  | nil => by_cases h : name = other <;> simp [insertMember, h]
  | cons m rest ih =>
    obtain ⟨old, w⟩ := m
    rw [insertMember]
    split
    · by_cases h : name = other <;> simp [h]
    · split
      case isTrue heq =>
        subst heq
        by_cases h : name = other <;> simp [h]
      case isFalse hne =>
        by_cases hold : old = other
        · have hother : name ≠ other := fun h => hne (h.trans hold.symm)
          simp [hold, hother]
        · simp [hold, ih]

/-- Of the members with one name, the last one is found after sorting. -/
theorem find?_sortMembers (name : String) (members : List (String × Json)) :
    (sortMembers members).find? (·.1 == name) = members.reverse.find? (·.1 == name) := by
  have h : ∀ sorted : List (String × Json),
      (members.foldl (fun sorted m => insertMember m.1 m.2 sorted) sorted).find? (·.1 == name) =
        (members.reverse.find? (·.1 == name)).or (sorted.find? (·.1 == name)) := by
    induction members with
    | nil => simp
    | cons m rest ih =>
      intro sorted
      obtain ⟨other, v⟩ := m
      rw [List.foldl_cons, ih, find?_insertMember, List.reverse_cons, List.find?_append, Option.or_assoc]
      congr 1
      by_cases h : other = name <;> simp [h]
  rw [sortMembers, h, List.find?_nil, Option.or_none]

/-- The value that is found in the canonical form is the canonical form of the one that counts. -/
theorem find?_canonical (name : String) (members : List (String × Json)) :
    ((sortMembers (canonicalMembers members)).find? (·.1 == name)).map (·.2) = (lookup name members).map canonical := by
  rw [find?_sortMembers, canonicalMembers_eq_map, ← List.map_reverse, List.find?_map, lookup, Option.map_map, Option.map_map]
  rfl

theorem mem_insertMember {m : String × Json} {name : String} {v : Json} : ∀ {l : List (String × Json)},
    m ∈ insertMember name v l → m = (name, v) ∨ m ∈ l
  | [], h => .inl (List.mem_singleton.1 h)
  | (other, old) :: rest, h => by
    rw [insertMember] at h
    split at h
    · exact List.mem_cons.1 h
    · split at h
      · exact (List.mem_cons.1 h).imp_right (List.mem_cons_of_mem _)
      · rcases List.mem_cons.1 h with rfl | h
        · exact .inr List.mem_cons_self
        · exact (mem_insertMember h).imp_right (List.mem_cons_of_mem _)

/-- No members are added by sorting. -/
theorem mem_sortMembers {m : String × Json} {members : List (String × Json)} (h : m ∈ sortMembers members) :
    m ∈ members := by
  have hfold : ∀ (l sorted : List (String × Json)),
      m ∈ l.foldl (fun sorted m => insertMember m.1 m.2 sorted) sorted → m ∈ l ∨ m ∈ sorted := by
    intro l
    induction l with
    | nil => exact fun _ h => .inr h
    | cons first rest ih =>
      intro sorted h
      rcases ih _ h with h | h
      · exact .inl (List.mem_cons_of_mem _ h)
      · rcases mem_insertMember h with rfl | h
        · exact .inl List.mem_cons_self
        · exact .inr h
  exact (hfold members [] h).resolve_right List.not_mem_nil

theorem insertMember_perm {name : String} (v : Json) : ∀ {l : List (String × Json)}, name ∉ l.map (·.1) →
    (insertMember name v l).Perm ((name, v) :: l)
  | [], _ => .refl _
  | (other, w) :: rest, h => by
    rw [List.map_cons, List.mem_cons, not_or] at h
    rw [insertMember]
    split
    · exact .refl _
    · rw [if_neg h.1]
      exact ((insertMember_perm v h.2).cons _).trans (.swap ..)

theorem foldl_insertMember_perm : ∀ (members sorted : List (String × Json)),
    ((members ++ sorted).map (·.1)).Nodup →
    (members.foldl (fun sorted m => insertMember m.1 m.2 sorted) sorted).Perm (members ++ sorted)
  | [], _, _ => .refl _
  | (name, v) :: rest, sorted, h => by
    have hnew : name ∉ sorted.map (·.1) := fun hmem => by
      rw [List.cons_append, List.map_cons, List.map_append] at h
      exact (List.nodup_cons.1 h).1 (List.mem_append_right _ hmem)
    have hall : (rest ++ insertMember name v sorted).Perm ((name, v) :: (rest ++ sorted)) :=
      ((insertMember_perm v hnew).append_left rest).trans List.perm_middle
    rw [List.foldl_cons]
    exact (foldl_insertMember_perm rest _ ((hall.map (·.1)).nodup_iff.2 h)).trans hall

/-- Members with different names are only put into another order. -/
theorem sortMembers_perm {members : List (String × Json)} (h : (members.map (·.1)).Nodup) :
    (sortMembers members).Perm members := by
  have hperm := foldl_insertMember_perm members [] (by rwa [List.append_nil])
  rwa [List.append_nil] at hperm

end Json

end Arbiter
