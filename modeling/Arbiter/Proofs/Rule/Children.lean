import Arbiter.Rule.Basic

/-!
# Rules by their children

What a rule has as soon as its children have it, every rule has.

* `Trigger.children_induction`, `ValueRule.children_induction`: induction over the children of a node, whatever its kind.
* `Rule.subrules_induction`: the same over both families at once.
-/

namespace Arbiter

namespace Trigger

variable {motive : Trigger → Prop}

mutual

/-- Induction over the children of triggers. -/
theorem children_induction (step : ∀ r : Trigger, (∀ c ∈ r.children, motive c) → motive r) : ∀ r : Trigger, motive r
  | .not child => step _ (List.forall_mem_singleton.2 (children_induction step child))
  | .all children => step _ (children_induction_each step children)
  | .any children => step _ (children_induction_each step children)
  | .xor children => step _ (children_induction_each step children)
  | .xnor children => step _ (children_induction_each step children)
  | .both first second | .either first second | .nand first second | .neither first second | .implies first second =>
    step _ (List.forall_mem_cons.2
      ⟨children_induction step first, List.forall_mem_singleton.2 (children_induction step second)⟩)
  | .atTime _ | .thisMarketClosed _ | .pullFinished _ | .otherMarketClosed _ | .otherMarketResolved _ => step _ nofun

/-- The same for several triggers. -/
theorem children_induction_each (step : ∀ r : Trigger, (∀ c ∈ r.children, motive c) → motive r) :
    ∀ rs : List Trigger, ∀ r ∈ rs, motive r
  | [] => nofun
  | r :: rest => List.forall_mem_cons.2 ⟨children_induction step r, children_induction_each step rest⟩

end

end Trigger

namespace ValueRule

variable {motive : ValueRule → Prop}

mutual

/-- Induction over the children of value rules. -/
theorem children_induction (step : ∀ r : ValueRule, (∀ c ∈ r.children, motive c) → motive r) :
    ∀ r : ValueRule, motive r
  | .negate child => step _ (List.forall_mem_singleton.2 (children_induction step child))
  | .sum children => step _ (children_induction_each step children)
  | .product children => step _ (children_induction_each step children)
  | .modulus children => step _ (children_induction_each step children)
  | .multipleValues shares => step _ (List.forall_mem_map.2 (children_induction_shares step shares))
  | .conditional _ value => step _ (List.forall_mem_singleton.2 (children_induction step value))
  | .constant _ | .currentValue | .otherMarketValue _ | .randomIndex _ | .pullDelta _ _ | .pullMerged _ | .popular _
  | .fibonacci _ _ | .round | .amplifiedOdds _ _ _ | .userStat _ _ _ => step _ nofun

/-- The same for several rules. -/
theorem children_induction_each (step : ∀ r : ValueRule, (∀ c ∈ r.children, motive c) → motive r) :
    ∀ rs : List ValueRule, ∀ r ∈ rs, motive r
  | [] => nofun
  | r :: rest => List.forall_mem_cons.2 ⟨children_induction step r, children_induction_each step rest⟩

/-- The same for the rules of a weighted union. -/
theorem children_induction_shares (step : ∀ r : ValueRule, (∀ c ∈ r.children, motive c) → motive r) :
    ∀ shares : List (Float × ValueRule), ∀ share ∈ shares, motive share.2
  | [] => nofun
  | (_, r) :: rest => List.forall_mem_cons.2 ⟨children_induction step r, children_induction_shares step rest⟩

end

end ValueRule

namespace Rule

variable {motive : Rule → Prop}

/-- The rules of either family that stand directly inside a rule; the premise of a conditional is one of them. -/
def subrules : Rule → List Rule
  | .trigger r => r.children.map .trigger
  | .value (.conditional premise child) => [.trigger premise, .value child]
  | .value r => r.children.map .value

/-- Induction over the rules inside a rule. -/
theorem subrules_induction (step : ∀ r : Rule, (∀ c ∈ r.subrules, motive c) → motive r) : ∀ r : Rule, motive r := by
  have htrigger : ∀ r : Trigger, motive (.trigger r) :=
    Trigger.children_induction fun r ih => step _ (List.forall_mem_map.2 ih)
  have hvalue : ∀ r : ValueRule, motive (.value r) := ValueRule.children_induction fun r ih => by
    refine step _ ?_
    cases r with
    | conditional premise child =>
      exact List.forall_mem_cons.2 ⟨htrigger premise, List.forall_mem_singleton.2 (ih child (List.mem_singleton_self _))⟩
    | _ => exact List.forall_mem_map.2 ih
  intro r
  cases r with
  | trigger r => exact htrigger r
  | value r => exact hvalue r

end Rule

end Arbiter
