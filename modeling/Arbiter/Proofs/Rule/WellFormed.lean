import Arbiter.Proofs.Rule.Children
import Arbiter.Proofs.Rule.Reading
import Arbiter.Proofs.SortedMap
import Arbiter.Proofs.Text.Digits

/-!
# Well-formed rules

Each kind has conditions on what stands at its node. A rule that was read meets them at every node.

* `Rule.WellFormed`: every node of a rule of either family meets the conditions of its kind.
* `Rule.ensures_build`: what each kind makes meets its conditions, and the rules inside it come from the arguments.
* `Rule.wellFormed_of_ofJson`: rules that were read are well formed.
-/

namespace Arbiter

/-- A moment that is written somewhere. -/
def Instant.IsWritten (t : Instant) : Prop := ∃ text, readWritten? text = some t

/-- The indexes of the answers fit into a word, and no weight is less than zero. -/
def Constant.WellFormed : Constant → Prop
  | .distribution weights => ∀ e ∈ weights.entries, e.1 ≤ word64Max ∧ 0.0 ≤ e.2
  | _ => True

/-- The root meets the conditions of its kind. -/
def Trigger.MeetsConditions : Trigger → Prop
  | .atTime time => time.IsWritten
  | .thisMarketClosed time => ∀ t ∈ time, t.IsWritten
  | .all children | .any children | .xor children | .xnor children => 2 ≤ children.length
  | _ => True

/-- The root meets the conditions of its kind. -/
def ValueRule.MeetsConditions : ValueRule → Prop
  | .constant c => c.WellFormed
  | .sum children | .product children | .modulus children => 2 ≤ children.length
  | .multipleValues shares => shares ≠ [] ∧ ∀ share ∈ shares, Arguments.isShareWeight share.1 = true
  | .pullDelta _ start => start.IsWritten
  | .popular size => 1 ≤ size
  | .amplifiedOdds _ a _ => 1 ≤ a
  | _ => True

namespace Rule

/-- The root meets the conditions of its kind. -/
def MeetsConditions : Rule → Prop
  | .trigger r => r.MeetsConditions
  | .value r => r.MeetsConditions

/-- Every node meets the conditions of its kind. -/
inductive WellFormed : Rule → Prop where
  | node {r : Rule} (root : r.MeetsConditions) (subrules : ∀ c ∈ r.subrules, WellFormed c) : WellFormed r

theorem WellFormed.root {r : Rule} (h : r.WellFormed) : r.MeetsConditions := by
  cases h with
  | node root _ => exact root

theorem WellFormed.subrules {r : Rule} (h : r.WellFormed) : ∀ c ∈ r.subrules, c.WellFormed := by
  cases h with
  | node _ subrules => exact subrules

end Rule

/-! ## Values -/

/-- The member gives an answer a weight: its name spells the index of the answer, and its value is the weight. -/
def GivesWeight (member : String × Json) (index : Nat) (weight : Float) : Prop :=
  Spells member.1 index ∧ member.2.asFloat? = some weight

namespace Constant

/-- Which members are read, and as what. -/
theorem readWeight_eq_ok_iff {member : String × Json} {index : Nat} {weight : Float} :
    readWeight member = .ok (index, weight) ↔ GivesWeight member index weight ∧ index ≤ word64Max ∧ 0.0 ≤ weight := by
  have hread : readWord? member.1 = some index ↔ Spells member.1 index ∧ index ≤ word64Max := readWord?_eq_some_iff
  unfold readWeight GivesWeight
  cases hkey : readWord? member.1 with
  | none =>
    rw [hkey] at hread
    simp only [reduceCtorEq, false_iff] at hread ⊢
    tauto
  | some i =>
    rw [hkey] at hread
    cases hvalue : member.2.asFloat? with
    | none => simp
    | some w =>
      simp only [Option.some.injEq] at hread ⊢
      split
      case isTrue hle =>
        simp only [Except.ok.injEq, Prod.mk.injEq, hread]
        constructor
        · rintro ⟨⟨hspelled, hword⟩, rfl⟩
          exact ⟨⟨hspelled, rfl⟩, hword, hle⟩
        · rintro ⟨⟨hspelled, rfl⟩, hword, -⟩
          exact ⟨⟨hspelled, hword⟩, rfl⟩
      case isFalse hneg =>
        simp only [reduceCtorEq, false_iff]
        rintro ⟨⟨-, rfl⟩, -, hle⟩
        exact hneg hle

theorem ensures_readWeight (member : String × Json) :
    Ensures (readWeight member) fun e => e.1 ≤ word64Max ∧ 0.0 ≤ e.2 := fun _ h => (readWeight_eq_ok_iff.1 h).2

theorem ensures_ofJson (v : Json) : Ensures (ofJson v) WellFormed := by
  unfold ofJson
  split
  case h_4 members =>
    refine (ensures_mapM fun member _ => ensures_readWeight member).bind fun weights hweights => ensures_pure ?_
    exact fun e he => hweights e (SortedMap.mem_of_mem_ofList he)
  case h_6 => exact ensures_error _
  all_goals exact ensures_ok trivial

end Constant

namespace Arguments

variable {a : Arguments}

theorem isWritten_of_read {v : Json} {t : Instant} (h : v.asString?.bind Instant.readWritten? = some t) : t.IsWritten :=
  (Option.bind_eq_some_iff.1 h).imp fun _ h => h.2

theorem ensures_moment (name : String) : Ensures (a.moment name) Instant.IsWritten :=
  (ensures_get name .timestamp _).mono fun _ ⟨_, h⟩ => isWritten_of_read h

theorem ensures_moment? (name : String) : Ensures (a.moment? name) fun found => ∀ t ∈ found, t.IsWritten :=
  (ensures_get? name .timestamp _).mono fun _ h t ht => by
    obtain ⟨v, hv⟩ := h t ht
    exact isWritten_of_read hv

end Arguments

/-! ## Rules -/

namespace Rule

variable {P : Rule → Prop}

theorem ensures_ofPair {a : Arguments} (h : a.Carries P) {make : Trigger → Trigger → Trigger}
    (hmake : ∀ first second, (make first second).MeetsConditions ∧ (make first second).children = [first, second]) :
    Ensures (ofPair make a) fun r => r.MeetsConditions ∧ ∀ c ∈ r.subrules, P c := by
  refine (Arguments.ensures_triggerPair h).bind fun pair hpair => ensures_pure ⟨(hmake _ _).1, ?_⟩
  rw [subrules, (hmake _ _).2]
  exact List.forall_mem_cons.2 ⟨hpair.1, List.forall_mem_singleton.2 hpair.2⟩

/-- What a kind makes of arguments meets its conditions, and what holds of the rules inside the arguments holds of the
rules inside it. -/
theorem ensures_build (a : Arguments) (h : a.Carries P) :
    Ensures (build a) fun r => r.MeetsConditions ∧ ∀ c ∈ r.subrules, P c := by
  obtain ⟨kind, members⟩ := a
  cases kind with
  | atTime => exact (Arguments.ensures_moment "resolve_at").bind fun _ ht => ensures_pure ⟨ht, List.forall_mem_nil _⟩
  | thisMarketClosed =>
    exact (Arguments.ensures_moment? "resolve_at").bind fun _ ht => ensures_pure ⟨ht, List.forall_mem_nil _⟩
  | pullFinished | otherMarketClosed | otherMarketResolved =>
    exact ensures_bind fun _ => ensures_pure ⟨trivial, List.forall_mem_nil _⟩
  | not =>
    exact (Arguments.ensures_trigger h "child").bind fun _ hchild =>
      ensures_pure ⟨trivial, List.forall_mem_singleton.2 hchild⟩
  | all | any | xor | xnor =>
    exact (Arguments.ensures_triggers h).bind fun _ hrules => ensures_pure ⟨hrules.1, List.forall_mem_map.2 hrules.2⟩
  | both | either | nand | neither | implies => exact ensures_ofPair h fun _ _ => ⟨trivial, rfl⟩
  | constant =>
    refine ensures_bind fun argument => ?_
    split
    case h_1 c hc => exact ensures_pure ⟨Constant.ensures_ofJson _ c hc, List.forall_mem_nil _⟩
    case h_2 => exact Arguments.ensures_fault _
  | currentValue | round => exact ensures_ok ⟨trivial, List.forall_mem_nil _⟩
  | otherMarketValue | randomIndex | pullMerged =>
    exact ensures_bind fun _ => ensures_pure ⟨trivial, List.forall_mem_nil _⟩
  | fibonacci | userProfit | userCreatedVolume =>
    exact ensures_bind fun _ => ensures_bind fun _ => ensures_pure ⟨trivial, List.forall_mem_nil _⟩
  | negate =>
    exact (Arguments.ensures_value h "child").bind fun _ hchild =>
      ensures_pure ⟨trivial, List.forall_mem_singleton.2 hchild⟩
  | sum | product | modulus =>
    exact (Arguments.ensures_values h).bind fun _ hrules => ensures_pure ⟨hrules.1, List.forall_mem_map.2 hrules.2⟩
  | multipleValues =>
    refine (Arguments.ensures_shares h).bind fun shares hshares => ensures_pure ⟨?_, ?_⟩
    · exact ⟨hshares.1, fun share hshare => (hshares.2 share hshare).1⟩
    · exact List.forall_mem_map.2 (List.forall_mem_map.2 fun share hshare => (hshares.2 share hshare).2)
  | pullDelta =>
    exact ensures_bind fun _ => (Arguments.ensures_moment "start").bind fun _ ht =>
      ensures_pure ⟨ht, List.forall_mem_nil _⟩
  | popular =>
    exact (Arguments.ensures_atLeastOne "size").bind fun _ hsize => ensures_pure ⟨hsize, List.forall_mem_nil _⟩
  | amplifiedOdds =>
    exact (Arguments.ensures_atLeastOne "a").bind fun _ ha =>
      ensures_bind fun _ => ensures_bind fun _ => ensures_pure ⟨ha, List.forall_mem_nil _⟩
  | conditional =>
    exact (Arguments.ensures_trigger h "rule1").bind fun _ hpremise => (Arguments.ensures_value h "rule2").bind
      fun _ hvalue => ensures_pure ⟨trivial, List.forall_mem_cons.2 ⟨hpremise, List.forall_mem_singleton.2 hvalue⟩⟩

theorem ensures_build_wellFormed (a : Arguments) (h : a.Carries WellFormed) : Ensures (build a) WellFormed :=
  (ensures_build a h).mono fun _ ⟨root, subrules⟩ => .node root subrules

theorem wellFormed_of_ofJson {v : Json} {r : Rule} (h : ofJson v = .ok r) : r.WellFormed :=
  ensures_ofJson ensures_build_wellFormed v r h

end Rule

end Arbiter
