import Arbiter.Proofs.Rule.WellFormed

/-!
# Weights that are written in a rule

A distribution is written as an object: the names of its members spell the indexes of answers. An index can be spelled in
many ways, and of several members for one answer the last one counts. So no weight is lost exactly if no index is spelled
twice.

* `Constant.read_of_ofJson`: what the members of an object are read as.
* `Constant.lookup_iff`: which weight an answer has. `Constant.spelledOnce_iff`: when no answer is given two weights.
* `Constant.weights_kept_iff`: when all weights of an object are kept.
-/

namespace Arbiter

/-- A member gives one weight. -/
theorem GivesWeight.unique {member : String × Json} {i j : Nat} {v w : Float} (h : GivesWeight member i v)
    (h' : GivesWeight member j w) : i = j ∧ v = w :=
  ⟨h.1.unique h'.1, Option.some.inj (h.2.symm.trans h'.2)⟩

/-- The weights of an object are kept: there is one entry for each member, and it has the weight that the member gives. -/
structure KeepsEach (members : List (String × Json)) (weights : Distribution Float) : Prop where
  one_each : weights.size = members.length
  weight : ∀ member ∈ members, ∃ index w, GivesWeight member index w ∧ weights.lookup index = some w

/-- No index is spelled by the names of two members. -/
def SpelledOnce (members : List (String × Json)) : Prop :=
  members.Pairwise fun a b => ∀ index, Spells a.1 index → ¬Spells b.1 index

namespace Constant

variable {members : List (String × Json)} {entries : List (Nat × Float)}

/-- An object is read as the entries that its members are read as. -/
theorem read_of_ofJson {c : Constant} (h : ofJson (.object members) = .ok c) :
    ∃ entries, members.map readWeight = entries.map .ok ∧ c = .distribution (SortedMap.ofList entries) := by
  change (members.mapM readWeight >>= fun entries => pure (distribution (SortedMap.ofList entries))) = .ok c at h
  cases hread : members.mapM readWeight with
  | error fault =>
    rw [hread] at h
    cases h
  | ok entries =>
    rw [hread, bind_of_ok rfl] at h
    exact ⟨entries, ensures_mapM_eq _ hread, (Except.ok.inj h).symm⟩

theorem spells_of_read {member : String × Json} {e : Nat × Float} (h : readWeight member = .ok e) : Spells member.1 e.1 :=
  (readWeight_eq_ok_iff.1 h).1.1

section

variable (h : members.map readWeight = entries.map .ok)

include h

theorem exists_entry {member : String × Json} (hm : member ∈ members) :
    ∃ e ∈ entries, readWeight member = .ok e := by
  obtain ⟨e, he, hread⟩ := List.mem_map.1 (h ▸ List.mem_map_of_mem hm)
  exact ⟨e, he, hread.symm⟩

theorem exists_member {e : Nat × Float} (he : e ∈ entries) : ∃ member ∈ members, readWeight member = .ok e :=
  List.mem_map.1 (h ▸ List.mem_map_of_mem he)

/-- An answer has the weight that the last member for it gives. -/
theorem lookup_iff {index : Nat} {w : Float} :
    (SortedMap.ofList entries).lookup index = some w ↔ ∃ before member after, members = before ++ member :: after ∧
      GivesWeight member index w ∧ ∀ later ∈ after, ¬Spells later.1 index := by
  rw [SortedMap.lookup_ofList_eq_some_iff]
  constructor
  · rintro ⟨before, after, rfl, hlast⟩
    rw [List.map_append, List.map_cons] at h
    obtain ⟨earlier, rest, rfl, -, hrest⟩ := List.map_eq_append_iff.1 h
    obtain ⟨member, later, rfl, hmember, hlater⟩ := List.map_eq_cons_iff.1 hrest
    refine ⟨earlier, member, later, rfl, (readWeight_eq_ok_iff.1 hmember).1, fun m hm hspelled => ?_⟩
    obtain ⟨e, he, hread⟩ := exists_entry hlater hm
    exact hlast e he ((spells_of_read hread).unique hspelled)
  · rintro ⟨before, member, after, rfl, hgives, hlast⟩
    rw [List.map_append, List.map_cons] at h
    obtain ⟨earlier, rest, rfl, -, hrest⟩ := List.map_eq_append_iff.1 h.symm
    obtain ⟨⟨i, v⟩, later, rfl, hmember, hlater⟩ := List.map_eq_cons_iff.1 hrest
    obtain ⟨rfl, rfl⟩ := (readWeight_eq_ok_iff.1 hmember.symm).1.unique hgives
    refine ⟨earlier, later, rfl, fun e he heq => ?_⟩
    obtain ⟨m, hm, hread⟩ := exists_member hlater.symm he
    exact hlast m hm (heq ▸ spells_of_read hread)

end

/-- No index is spelled twice exactly if no two entries are for one answer. -/
theorem spelledOnce_iff : ∀ {members : List (String × Json)} {entries : List (Nat × Float)},
    members.map readWeight = entries.map .ok → (SpelledOnce members ↔ (entries.map (·.1)).Nodup)
  | [], [], _ => by simp [SpelledOnce]
  | [], _ :: _, h => by cases h
  | _ :: _, [], h => by cases h
  | member :: rest, e :: more, h => by
    obtain ⟨hread, hrest⟩ := List.cons.inj h
    have hspelled : Spells member.1 e.1 := spells_of_read hread
    have hfirst : (∀ b ∈ rest, ∀ index, Spells member.1 index → ¬Spells b.1 index) ↔ e.1 ∉ more.map (·.1) := by
      constructor
      · intro hfree hmem
        obtain ⟨e', he', heq⟩ := List.mem_map.1 hmem
        obtain ⟨b, hb, hread'⟩ := exists_member hrest he'
        exact hfree b hb e.1 hspelled (heq ▸ spells_of_read hread')
      · intro hnew b hb index ha hb'
        obtain ⟨e', he', hread'⟩ := exists_entry hrest hb
        have heq : e'.1 = e.1 := ((spells_of_read hread').unique hb').trans (ha.unique hspelled)
        exact hnew (heq ▸ List.mem_map_of_mem he')
    have ih := spelledOnce_iff hrest
    unfold SpelledOnce at ih ⊢
    rw [List.pairwise_cons, hfirst, ih, List.map_cons, List.nodup_cons]

/-- All weights of an object are kept exactly if no index is spelled twice. -/
theorem keepsEach_iff (h : members.map readWeight = entries.map .ok) :
    KeepsEach members (SortedMap.ofList entries) ↔ SpelledOnce members := by
  have hlength : members.length = entries.length := by simpa using congrArg List.length h
  rw [spelledOnce_iff h]
  constructor
  · intro hkeeps
    -- as many entries in the map as in the list: none overwrote another
    exact SortedMap.size_ofList_eq_iff.1 (hkeeps.one_each.trans hlength)
  · intro hnodup
    refine ⟨(SortedMap.size_ofList_eq_iff.2 hnodup).trans hlength.symm, fun member hm => ?_⟩
    obtain ⟨⟨index, w⟩, he, hread⟩ := exists_entry h hm
    have hdistinct : entries.Pairwise fun a b => compare a.1 b.1 ≠ .eq :=
      (List.pairwise_map.1 hnodup).imp fun hne heq => hne (Nat.compare_eq_eq.1 heq)
    have hentry := (SortedMap.entries_ofList_perm hdistinct).mem_iff.2 he
    exact ⟨index, w, (readWeight_eq_ok_iff.1 hread).1, SortedMap.lookup_eq_some_iff.2 hentry⟩

/-- What becomes of the weights of an object. An object that is accepted is read as a distribution, where every answer has
the weight of the last member whose name spells its index, and which is stored as an object with one member for each of its
entries. There is one entry for each member of the object, with the weight of this member, exactly if no two names spell one
index: with the same digits, but for zeros in front of them and a plus sign. -/
theorem weights_kept_iff {c : Constant} (h : ofJson (.object members) = .ok c) :
    ∃ weights, c = .distribution weights ∧
      (∀ index w, weights.lookup index = some w ↔ ∃ before member after, members = before ++ member :: after ∧
        GivesWeight member index w ∧ ∀ later ∈ after, ¬Spells later.1 index) ∧
      (∃ stored, c.toJson = .object stored ∧ stored.length = weights.size) ∧
      (KeepsEach members weights ↔ SpelledOnce members) := by
  obtain ⟨entries, hread, rfl⟩ := read_of_ofJson h
  refine ⟨SortedMap.ofList entries, rfl, fun _ _ => lookup_iff hread, ⟨_, rfl, ?_⟩, keepsEach_iff hread⟩
  rw [List.length_map]
  rfl

/-- Two members whose names spell different indexes, one with a plus sign and one with a zero in front, keep their weights. -/
theorem spelledShares_kept : ∃ weights, ofJson (.object [("+1", .int 25), ("02", .int 75)]) = .ok (.distribution weights) ∧
    weights.size = 2 ∧ KeepsEach [("+1", .int 25), ("02", .int 75)] weights := by
  have h : ofJson (.object [("+1", .int 25), ("02", .int 75)]) =
    .ok (.distribution (.ofList [(1, .ofInt 25), (2, .ofInt 75)])) := rfl
  have hfirst : Spells "+1" 1 := ⟨"+", "", .inr rfl, by simp, rfl⟩
  have hsecond : Spells "02" 2 := ⟨"", "0", .inl rfl, by simp, rfl⟩
  obtain ⟨weights, heq, -, -, hkeeps⟩ := weights_kept_iff h
  have hkept := hkeeps.2 (List.pairwise_pair.2 fun index h₁ h₂ => by
    have := (hfirst.unique h₁).trans (h₂.unique hsecond)
    omega)
  exact ⟨weights, heq ▸ h, hkept.one_each, hkept⟩

/-- Of two members that spell the index of one answer, one weight is lost. -/
theorem secondSpelling_lost :
    ofJson (.object [("01", .int 75), ("1", .int 25)]) = .ok (.distribution (.single 1 (.ofInt 25))) ∧
      ¬KeepsEach [("01", .int 75), ("1", .int 25)] (.single 1 (.ofInt 25)) := by
  refine ⟨rfl, fun hkeeps => ?_⟩
  have hone : 1 = 2 := hkeeps.one_each
  omega

end Constant

end Arbiter
