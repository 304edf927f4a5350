import Arbiter.Proofs.Rule.Stored

/-!
# The nodes of a rule

A rule is a tree, and what was read from a value was read node by node: each of its nodes is the reading of a value that
stands inside the whole one.

* `Rule.StandsIn`, `Json.StandsIn`: a rule inside a rule, a value inside a value.
* `Rule.WellFormed.standsIn`: every node of a well-formed rule is well formed.
* `Rule.read_standsIn`: every node of a rule that was read was read itself.
* `Rule.ensures_build_kind`: arguments of a kind make a rule of this kind.
* `Rule.operands_of_read`: the operands of a conditional were read from its arguments, one as a trigger and one as a value
  rule.
-/

namespace Arbiter

/-- A value stands in another one, at whatever depth. -/
inductive Json.StandsIn (u : Json) : Json → Prop where
  | whole : u.StandsIn u
  | item {v : Json} {items : List Json} (hv : v ∈ items) (h : u.StandsIn v) : u.StandsIn (.array items)
  | member {name : String} {v : Json} {members : List (String × Json)} (hv : (name, v) ∈ members) (h : u.StandsIn v) :
      u.StandsIn (.object members)

/-- A rule stands in another one, at whatever depth. -/
inductive Rule.StandsIn (c : Rule) : Rule → Prop where
  | root : c.StandsIn c
  | inner {r child : Rule} (hchild : child ∈ r.subrules) (h : c.StandsIn child) : c.StandsIn r

theorem Json.StandsIn.trans {t u v : Json} (h : t.StandsIn u) (h' : u.StandsIn v) : t.StandsIn v := by
  induction h' with
  | whole => exact h
  | item hv _ ih => exact .item hv ih
  | member hv _ ih => exact .member hv ih

theorem Item.Carries.mono {P Q : Rule → Prop} {i : Item} (hi : i.Carries P) (h : ∀ r, P r → Q r) : i.Carries Q where
  rule := hi.rule.mono h
  pair json rule weight hp := (hi.pair json rule weight hp).mono h

theorem Argument.Carries.mono {P Q : Rule → Prop} {argument : Argument} (ha : argument.Carries P)
    (h : ∀ r, P r → Q r) : argument.Carries Q where
  rule := ha.rule.mono h
  items items hitems i hi := (ha.items items hitems i hi).mono h

namespace Rule

theorem WellFormed.standsIn {c r : Rule} (hr : r.WellFormed) (h : c.StandsIn r) : c.WellFormed := by
  induction h with
  | root => exact hr
  | inner hchild _ ih => exact ih (hr.subrules _ hchild)

/-! ## Readings inside a reading -/

/-- A rule was read from a value inside another one. -/
def ReadInside (v : Json) (r : Rule) : Prop := ∃ u, Json.StandsIn u v ∧ read u = .ok r

theorem ReadInside.mono {u v : Json} {r : Rule} (h : ReadInside u r) (hu : u.StandsIn v) : ReadInside v r := by
  obtain ⟨t, ht, hread⟩ := h
  exact ⟨t, ht.trans hu, hread⟩

theorem ensures_readInside (v : Json) : Ensures (read v) (ReadInside v) := fun _ hr => ⟨v, .whole, hr⟩

/-- The rules inside an item were read from inside it. -/
theorem itemOf_carries (v : Json) : (itemOf v).Carries (ReadInside v) where
  rule := ensures_readInside v
  pair json rule weight h := by
    change readPair? v = some (json, rule, weight) at h
    unfold readPair? at h
    split at h
    · cases h
      exact (ensures_readInside json).mono fun _ hr => hr.mono (.item List.mem_cons_self .whole)
    · cases h

/-- The rules inside an argument were read from inside it. -/
theorem argumentOf_carries (v : Json) : (argumentOf v).Carries (ReadInside v) where
  rule := ensures_readInside v
  items items h i hi := by
    change readItems? v = some items at h
    unfold readItems? at h
    split at h
    · cases h
      rw [readItems_eq_map, List.mem_map] at hi
      obtain ⟨u, hu, rfl⟩ := hi
      exact (itemOf_carries u).mono fun _ hr => hr.mono (.item hu .whole)
    · cases h

/-- The rules inside the arguments of a rule were read from inside its value. -/
theorem readMembers_carries (name : String) (members : List (String × Json)) :
    ∀ m ∈ readMembers members, m.2.Carries (ReadInside (.array [.string name, .object members])) := by
  intro m hm
  rw [readMembers_eq_map, List.mem_map] at hm
  obtain ⟨⟨key, v⟩, hv, rfl⟩ := hm
  have hobject : v.StandsIn (.object members) := .member hv .whole
  exact (argumentOf_carries v).mono fun _ hr => hr.mono (hobject.trans (.item (by simp) .whole))

/-- The rules inside a rule were read from inside its value. -/
theorem read_subrules {v : Json} {r : Rule} (h : read v = .ok r) : ∀ c ∈ r.subrules, ReadInside v c := by
  have step : ∀ a : Arguments, a.Carries (ReadInside v) → Ensures (build a) fun r => ∀ c ∈ r.subrules, ReadInside v c :=
    fun a ha => (ensures_build a ha).mono fun _ hr => hr.2
  have hnone : ∀ name, Ensures (buildNamed name none) fun r => ∀ c ∈ r.subrules, ReadInside v c := fun name =>
    ensures_buildNamed step fun _ hms => nomatch hms
  unfold read at h
  split at h
  · rename_i name members
    exact ensures_buildNamed step (fun ms hms => Option.some.inj hms ▸ readMembers_carries name members) r h
  · exact hnone _ r h
  · exact hnone _ r h
  · exact absurd h (by unfold refuseArguments; split <;> simp)
  · cases h

/-- Every node of a rule that was read was read from inside its value. -/
theorem read_standsIn {c r : Rule} (hc : c.StandsIn r) : ∀ {v : Json}, read v = .ok r → ReadInside v c := by
  induction hc with
  | root => exact fun h => ⟨_, .whole, h⟩
  | inner hchild _ ih =>
    intro v h
    obtain ⟨u, hu, hread⟩ := read_subrules h _ hchild
    exact (ih hread).mono hu

/-! ## Operands -/

theorem ensures_ofPair_kind {a : Arguments} {make : Trigger → Trigger → Trigger} {kind : Kind}
    (hmake : ∀ first second, (make first second).kind = kind) : Ensures (ofPair make a) fun r => r.kind = kind :=
  ensures_bind fun _ => ensures_pure (hmake _ _)

/-- Arguments of a kind make a rule of this kind. -/
theorem ensures_build_kind (a : Arguments) : Ensures (build a) fun r => r.kind = a.kind := by
  obtain ⟨kind, members⟩ := a
  cases kind with
  | currentValue | round => exact ensures_ok rfl
  | both | either | nand | neither | implies => exact ensures_ofPair_kind fun _ _ => rfl
  | constant =>
    refine ensures_bind fun argument => ?_
    split
    · exact ensures_pure rfl
    · exact Arguments.ensures_fault _
  | pullDelta | fibonacci | userProfit | userCreatedVolume | conditional =>
    exact ensures_bind fun _ => ensures_bind fun _ => ensures_pure rfl
  | amplifiedOdds => exact ensures_bind fun _ => ensures_bind fun _ => ensures_bind fun _ => ensures_pure rfl
  | _ => exact ensures_bind fun _ => ensures_pure rfl

end Rule

namespace Arguments

variable {a : Arguments}

theorem ensures_required_mem (name : String) : Ensures (a.required name) fun argument => (name, argument) ∈ a.members := by
  unfold required
  split
  case h_1 argument hfound =>
    obtain ⟨⟨key, found⟩, hm, rfl⟩ := Option.map_eq_some_iff.1 (Option.filter_eq_some_iff.1 hfound).1
    obtain rfl : key = name := by simpa using List.find?_some hm
    exact ensures_ok (List.mem_of_find?_eq_some hm)
  case h_2 => exact ensures_fault _

/-- A trigger is taken from an argument that was read as this trigger. -/
theorem ensures_trigger_mem (name : String) :
    Ensures (a.trigger name) fun r => ∃ argument, (name, argument) ∈ a.members ∧ argument.rule = .ok (.trigger r) :=
  (ensures_required_mem name).bind fun argument hm =>
    (ensures_asTrigger (P := fun r => argument.rule = .ok r) (fun _ hr => hr) name _).mono fun _ hr => ⟨argument, hm, hr⟩

/-- A value rule is taken from an argument that was read as this value rule. -/
theorem ensures_value_mem (name : String) :
    Ensures (a.value name) fun r => ∃ argument, (name, argument) ∈ a.members ∧ argument.rule = .ok (.value r) :=
  (ensures_required_mem name).bind fun argument hm =>
    (ensures_asValue (P := fun r => argument.rule = .ok r) (fun _ hr => hr) name _).mono fun _ hr => ⟨argument, hm, hr⟩

end Arguments

namespace Rule

/-- A conditional as it is written: its first operand is read as the premise and its second one as the value. -/
def WrittenConditional (u : Json) (premise : Trigger) (child : ValueRule) : Prop :=
  ∃ name members first second, u = .array [.string name, .object members] ∧
    ("rule1", first) ∈ members ∧ read first = .ok (.trigger premise) ∧
    ("rule2", second) ∈ members ∧ read second = .ok (.value child)

theorem build_conditional {a : Arguments} {premise : Trigger} {child : ValueRule}
    (h : build a = .ok (.value (.conditional premise child))) :
    (∃ argument, ("rule1", argument) ∈ a.members ∧ argument.rule = .ok (.trigger premise)) ∧
      ∃ argument, ("rule2", argument) ∈ a.members ∧ argument.rule = .ok (.value child) := by
  obtain ⟨kind, members⟩ := a
  obtain rfl : Kind.conditional = kind := ensures_build_kind ⟨kind, members⟩ _ h
  have hoperands : Ensures (build ⟨.conditional, members⟩) fun r => ∀ premise child,
      r = .value (.conditional premise child) →
        (∃ argument, ("rule1", argument) ∈ members ∧ argument.rule = .ok (.trigger premise)) ∧
          ∃ argument, ("rule2", argument) ∈ members ∧ argument.rule = .ok (.value child) := by
    refine (Arguments.ensures_trigger_mem "rule1").bind fun _ hpremise => ?_
    refine (Arguments.ensures_value_mem "rule2").bind fun _ hvalue => ensures_pure ?_
    rintro _ _ ⟨⟩
    exact ⟨hpremise, hvalue⟩
  exact hoperands _ h premise child rfl

theorem mem_readMembers {name : String} {argument : Argument} {members : List (String × Json)}
    (h : (name, argument) ∈ readMembers members) : ∃ v, (name, v) ∈ members ∧ argument.rule = read v := by
  rw [readMembers_eq_map, List.mem_map] at h
  obtain ⟨⟨_, v⟩, hv, ⟨⟩⟩ := h
  exact ⟨v, hv, rfl⟩

/-- The operands of a conditional that was read belong to the families that it takes. -/
theorem operands_of_read {u : Json} {premise : Trigger} {child : ValueRule}
    (h : read u = .ok (.value (.conditional premise child))) : WrittenConditional u premise child := by
  -- without arguments there are no operands
  have hnone : ∀ name, buildNamed name none ≠ .ok (.value (.conditional premise child)) := by
    intro name hbuild
    unfold buildNamed at hbuild
    split at hbuild
    · obtain ⟨⟨_, hmem, -⟩, -⟩ := build_conditional hbuild
      cases hmem
    · cases hbuild
  unfold read at h
  split at h
  · rename_i name members
    unfold buildNamed at h
    split at h
    · obtain ⟨⟨_, hfirst, hpremise⟩, ⟨_, hsecond, hchild⟩⟩ := build_conditional h
      obtain ⟨first, hfirst, heq⟩ := mem_readMembers hfirst
      obtain ⟨second, hsecond, heq'⟩ := mem_readMembers hsecond
      exact ⟨name, members, first, second, rfl, hfirst, heq ▸ hpremise, hsecond, heq' ▸ hchild⟩
    · cases h
  · exact absurd h (hnone _)
  · exact absurd h (hnone _)
  · exact absurd h (by unfold refuseArguments; split <;> simp)
  · cases h

end Rule

end Arbiter
