import Arbiter.Market.Pass
import Arbiter.Proofs.Rule.Drawing

/-!
# What holds of all work on rules

Rules reach the outside world only through the reads of a pass. So whatever holds of the reads and of work without
reads, and is kept when work is put together, holds of the evaluation and of the explanation of every tree.

* `ReadLaw`: a property of work that the reads of a pass have and that is kept. `PassLaw`: draws have it too.
* `ReadLaw.trigger`, `ReadLaw.explainedTrigger`: the trees of triggers, which never draw, have it.
* `ReadLaw.value`: a tree of value rules has it if the draws at its own nodes have it. `PassLaw.value`,
  `PassLaw.explainedValue`: if all draws have it, all trees have it.
* `PassLaw.shouldResolve`, `PassLaw.resolveTo`, `PassLaw.explainIn`: the work on a market has it.
-/

namespace Arbiter

variable {m : Type → Type} [Monad m]

/-- A property that the reads of a pass have, and that is kept when work is put together. -/
structure ReadLaw (p : Pass m) (P : {α : Type} → PassM m α → Prop) : Prop where
  pure : ∀ {α : Type} (a : α), P (pure a : PassM m α)
  bind : ∀ {α β : Type} {x : PassM m α} {f : α → PassM m β}, P x → (∀ a, P (f a)) → P (x >>= f)
  halt : ∀ {α : Type} (h : Halt), P (throw h : PassM m α)
  currentValue : P p.currentValue
  otherMarket : ∀ url, P (p.otherMarket url)
  user : ∀ name, P (p.user name)
  pullRequest : ∀ pull, P (p.pullRequest pull)

/-- Such a property that the draws of a pass have as well. -/
structure PassLaw (p : Pass m) (P : {α : Type} → PassM m α → Prop) : Prop extends ReadLaw p P where
  entropy : ∀ node, P (p.entropy node)

namespace ReadLaw

variable {p : Pass m} {P : {α : Type} → PassM m α → Prop} {α : Type}

/-! ## Work without reads -/

theorem fail (law : ReadLaw p P) (f : RuleFault) : P (PassM.fail f : PassM m α) := law.halt (.fault f)

theorem ofExcept (law : ReadLaw p P) : ∀ r : Except RuleFault α, P (PassM.ofExcept r : PassM m α)
  | .ok a => law.pure a
  | .error f => law.fail f

/-! ## Connectives -/

theorem allTrue (law : ReadLaw p P) : ∀ works : List (PassM m Bool), (∀ x ∈ works, P x) → P (allTrue works)
  | [], _ => law.pure true
  | _ :: rest, h => law.bind (h _ List.mem_cons_self) fun holds => by
    cases holds with
    | true => exact allTrue law rest fun x hx => h x (List.mem_cons_of_mem _ hx)
    | false => exact law.pure false

theorem anyTrue (law : ReadLaw p P) : ∀ works : List (PassM m Bool), (∀ x ∈ works, P x) → P (anyTrue works)
  | [], _ => law.pure false
  | _ :: rest, h => law.bind (h _ List.mem_cons_self) fun holds => by
    cases holds with
    | true => exact law.pure true
    | false => exact anyTrue law rest fun x hx => h x (List.mem_cons_of_mem _ hx)

theorem oddlyMany (law : ReadLaw p P) :
    ∀ (works : List (PassM m Bool)) (odd : Bool), (∀ x ∈ works, P x) → P (oddlyMany odd works)
  | [], odd, _ => law.pure odd
  | _ :: rest, _, h => law.bind (h _ List.mem_cons_self) fun _ =>
    oddlyMany law rest _ fun x hx => h x (List.mem_cons_of_mem _ hx)

theorem allGive (law : ReadLaw p P) (expected : Bool) :
    ∀ works : List (PassM m Bool), (∀ x ∈ works, P x) → P (allGive expected works)
  | [], _ => law.pure true
  | _ :: rest, h => law.bind (h _ List.mem_cons_self) fun holds => by
    by_cases he : holds = expected
    · rw [if_pos he]
      exact allGive law expected rest fun x hx => h x (List.mem_cons_of_mem _ hx)
    · rw [if_neg he]
      exact law.pure false

theorem allAgree (law : ReadLaw p P) : ∀ works : List (PassM m Bool), (∀ x ∈ works, P x) → P (allAgree works)
  | [], _ => law.pure true
  | _ :: rest, h => law.bind (h _ List.mem_cons_self) fun holds =>
    law.allGive holds rest fun x hx => h x (List.mem_cons_of_mem _ hx)

theorem impliedBy (law : ReadLaw p P) {first second : PassM m Bool} (h₁ : P first) (h₂ : P second) :
    P (impliedBy first second) :=
  law.bind h₁ fun holds => by
    cases holds with
    | true => exact h₂
    | false => exact law.pure true

/-! ## Triggers -/

omit [Monad m] in
theorem pair {first second : PassM m Bool} (h₁ : P first) (h₂ : P second) : ∀ x ∈ [first, second], P x := by
  simp [h₁, h₂]

theorem negation (law : ReadLaw p P) {x : PassM m Bool} (h : P x) : P (do return !(← x)) :=
  law.bind h fun holds => law.pure !holds

mutual

/-- The evaluation of every trigger has the property. -/
theorem trigger (law : ReadLaw p P) : ∀ r : Trigger, P (r.evaluate p)
  | .atTime _ | .thisMarketClosed _ => law.pure _
  | .pullFinished pull => law.bind (law.pullRequest pull) fun _ => law.pure _
  | .otherMarketClosed url | .otherMarketResolved url => law.bind (law.otherMarket url) fun _ => law.pure _
  | .not child => law.negation (trigger law child)
  | .all children => law.allTrue _ (triggers law children)
  | .both first second => law.allTrue _ (pair (trigger law first) (trigger law second))
  | .any children => law.anyTrue _ (triggers law children)
  | .either first second => law.anyTrue _ (pair (trigger law first) (trigger law second))
  | .xor children => law.oddlyMany _ _ (triggers law children)
  | .xnor children => law.allAgree _ (triggers law children)
  | .nand first second => law.negation (law.allTrue _ (pair (trigger law first) (trigger law second)))
  | .neither first second => law.negation (law.anyTrue _ (pair (trigger law first) (trigger law second)))
  | .implies first second => law.impliedBy (trigger law first) (trigger law second)

/-- So have those of several triggers. -/
theorem triggers (law : ReadLaw p P) : ∀ rs : List Trigger, ∀ x ∈ Trigger.evaluateEach p rs, P x
  | [] => by simp [Trigger.evaluateEach]
  | r :: rest => List.forall_mem_cons.2 ⟨trigger law r, triggers law rest⟩

end

/-! ## Values -/

theorem joinAll (law : ReadLaw p P) (op : Float → Float → Except RuleFault Float) :
    ∀ (works : List (PassM m Outcome)) (sofar : Option Outcome), (∀ x ∈ works, P x) → P (joinAll op sofar works)
  | [], some value, _ => law.pure value
  | [], none, _ => law.fail _
  | _ :: rest, sofar, h => law.bind (h _ List.mem_cons_self) fun next => by
    have hrest : ∀ value, P (Arbiter.joinAll op (some value) rest) := fun value =>
      joinAll law op rest (some value) fun x hx => h x (List.mem_cons_of_mem _ hx)
    cases next with
    | cancel => exact law.pure _
    | _ => exact law.bind (law.ofExcept _) hrest

theorem blendAll (law : ReadLaw p P) (count : Nat) (total : Float) :
    ∀ (shares : List (Float × PassM m Outcome)) (sofar : Blend Float), (∀ x ∈ shares, P x.2) →
      P (blendAll count total sofar shares)
  | [], _, _ => law.ofExcept _
  | (weight, _) :: rest, sofar, h => law.bind (h _ List.mem_cons_self) fun next => by
    have hrest : ∀ blended, P (Arbiter.blendAll count total blended rest) := fun blended =>
      blendAll law count total rest blended fun x hx => h x (List.mem_cons_of_mem _ hx)
    cases next with
    | cancel => exact law.pure _
    | _ => exact law.bind (law.ofExcept _) hrest

theorem blend (law : ReadLaw p P) (count : Nat) (shares : List (Float × PassM m Outcome)) (h : ∀ x ∈ shares, P x.2) :
    P (blend count shares) :=
  law.bind (law.ofExcept _) fun total => law.blendAll count total shares _ h

theorem scaled (law : ReadLaw p P) (weights : Distribution Float) : P (Pass.scaled weights : PassM m Outcome) := by
  unfold Pass.scaled
  split
  · exact law.pure _
  · exact law.fail _

theorem currentDistribution (law : ReadLaw p P) : P p.currentDistribution :=
  law.bind law.currentValue fun value => by
    cases value with
    | distribution weights => exact law.pure weights
    | _ => exact law.fail _

theorem generator (law : ReadLaw p P) (node : List Nat) :
    ∀ seed : Option Seed, (seed.isNone = true → P (p.entropy node)) → P (p.generator node seed)
  | some _, _ => law.pure _
  | none, draw => law.bind (draw rfl) fun _ => law.pure _

theorem randomAnswer (law : ReadLaw p P) (node : List Nat) (answer : RandomAnswer)
    (draw : answer.seed.isNone = true → P (p.entropy node)) : P (p.randomAnswer node answer) := by
  unfold Pass.randomAnswer
  split
  · exact law.fail _
  dsimp only
  split
  · exact law.fail _
  split
  · refine law.bind law.currentDistribution fun _ => law.bind (law.pure _) fun _ => ?_
    refine law.bind (law.generator node _ draw) fun g => ?_
    split
    · exact law.pure _
    · exact law.halt _
    · exact law.fail _
  · refine law.bind (law.pure _) fun _ => law.bind (law.generator node _ draw) fun g => ?_
    split
    · exact law.pure _
    · exact law.halt _
    · exact law.fail _

theorem pullDelta (law : ReadLaw p P) (pull : PullRef) (start : Instant) : P (p.pullDelta pull start) := by
  unfold Pass.pullDelta
  split
  · exact law.fail _
  split
  · exact law.fail _
  refine law.bind (law.pullRequest pull) fun request => ?_
  split
  · exact law.pure _
  · exact law.pure _

theorem roundedValue (law : ReadLaw p P) : P p.roundedValue :=
  law.bind law.currentValue fun value => by
    cases value with
    | probability _ | numeric _ => exact law.pure _
    | _ => exact law.fail _

theorem amplified (law : ReadLaw p P) (node : List Nat) (url : String) (a : Nat) (seed : Option Seed)
    (draw : seed.isNone = true → P (p.entropy node)) : P (p.amplified node url a seed) :=
  law.bind (law.otherMarket url) fun reference => law.bind (law.ofExcept _) fun odds => by
    cases odds with
    | settled value => exact law.pure value
    | drawn chance => exact law.bind (law.generator node seed draw) fun _ => law.pure _

theorem opposite (law : ReadLaw p P) : ∀ value : Outcome, P (Pass.opposite value : PassM m Outcome)
  | .cancel | .probability _ | .bool _ => law.pure _
  | .numeric _ | .distribution _ => law.fail _

mutual

/-- The evaluation of a value rule has the property if the draws at its nodes have it. -/
theorem value (law : ReadLaw p P) (node : List Nat) :
    ∀ r : ValueRule, (∀ path ∈ r.drawing node, P (p.entropy path)) → P (r.evaluate p node)
  | .constant _, _ => law.ofExcept _
  | .currentValue, _ => law.currentValue
  | .otherMarketValue url, _ => law.bind (law.otherMarket url) fun _ => law.pure _
  | .negate child, draw => law.bind (value law (0 :: node) child draw) law.opposite
  | .sum children, draw | .product children, draw | .modulus children, draw =>
    law.joinAll _ _ _ (valueEach law node 0 children draw)
  | .randomIndex answer, draw =>
    law.randomAnswer node answer fun unseeded => draw node (by simp [ValueRule.drawing, unseeded])
  | .multipleValues shares, draw => law.blend _ _ (valueShares law node 0 shares draw)
  | .pullDelta pull start, _ => law.pullDelta pull start
  | .pullMerged pull, _ => law.bind (law.pullRequest pull) fun _ => law.pure _
  | .popular _, _ | .fibonacci _ _, _ => law.bind law.currentDistribution fun _ => law.scaled _
  | .round, _ => law.roundedValue
  | .amplifiedOdds url a seed, draw =>
    law.amplified node url a seed fun unseeded => draw node (by simp [ValueRule.drawing, unseeded])
  | .conditional premise child, draw => law.bind (law.trigger premise) fun holds => by
    cases holds with
    | true => exact value law (0 :: node) child draw
    | false => exact law.pure _
  | .userStat user _ _, _ => law.bind (law.user user) fun _ => law.pure _

/-- So have those of several children. -/
theorem valueEach (law : ReadLaw p P) (node : List Nat) (i : Nat) :
    ∀ rs : List ValueRule, (∀ path ∈ ValueRule.drawingEach node i rs, P (p.entropy path)) →
      ∀ x ∈ ValueRule.evaluateEach p node i rs, P x
  | [], _ => by simp [ValueRule.evaluateEach]
  | r :: rest, draw =>
    have h := List.forall_mem_append.1 draw
    List.forall_mem_cons.2 ⟨value law (i :: node) r h.1, valueEach law node (i + 1) rest h.2⟩

/-- So have those of weighted children. -/
theorem valueShares (law : ReadLaw p P) (node : List Nat) (i : Nat) :
    ∀ shares : List (Float × ValueRule), (∀ path ∈ ValueRule.drawingShares node i shares, P (p.entropy path)) →
      ∀ x ∈ ValueRule.evaluateShares p node i shares, P x.2
  | [], _ => by simp [ValueRule.evaluateShares]
  | (_, r) :: rest, draw =>
    have h := List.forall_mem_append.1 draw
    List.forall_mem_cons.2 ⟨value law (i :: node) r h.1, valueShares law node (i + 1) rest h.2⟩

end

/-! ## Explanations of triggers -/

theorem explainedParts (law : ReadLaw p P) (r : Trigger) :
    ∀ (parts : List (Part m Bool)) (seen : List Bool), (∀ x ∈ parts, P x.explained) → P (r.explainParts seen parts)
  | [], _, _ => law.pure _
  | _ :: rest, seen, h => law.bind (h _ List.mem_cons_self) fun (_, value) => by
    dsimp only
    split
    · exact law.pure _
    · exact law.bind (explainedParts law r rest _ fun x hx => h x (List.mem_cons_of_mem _ hx)) fun _ => law.pure _

theorem explainedNode (law : ReadLaw p P) (r : Trigger) (depth : Nat) (parts : List (Part m Bool))
    (h : ∀ x ∈ parts, P x.explained) : P (r.explainNode depth parts) :=
  law.bind (law.explainedParts r parts [] h) fun _ => law.pure _

theorem explainedLeaf (law : ReadLaw p P) (r : Trigger) (depth : Nat) (question : Option String) :
    P (Trigger.explainLeaf p r depth question) :=
  law.bind (law.trigger r) fun _ => law.pure _

omit [Monad m] in
theorem partPair {first second : Part m Bool} (h₁ : P first.explained) (h₂ : P second.explained) :
    ∀ x ∈ [first, second], P x.explained := by
  simp [h₁, h₂]

mutual

/-- The explanation of every trigger has the property. -/
theorem explainedTrigger (law : ReadLaw p P) (depth : Nat) : ∀ r : Trigger, P (r.explainIn p depth)
  | .otherMarketClosed url | .otherMarketResolved url =>
    law.bind (law.otherMarket url) fun _ => law.explainedLeaf _ _ _
  | .not child => law.explainedNode _ _ _ (by simpa using explainedTrigger law (depth + 1) child)
  | .all children | .any children | .xor children | .xnor children =>
    law.explainedNode _ _ _ (explainedTriggers law (depth + 1) children)
  | .both first second | .either first second | .nand first second | .neither first second | .implies first second =>
    law.explainedNode _ _ _
      (partPair (explainedTrigger law (depth + 1) first) (explainedTrigger law (depth + 1) second))
  | .atTime _ | .thisMarketClosed _ | .pullFinished _ => law.explainedLeaf _ _ _

/-- So have those of several triggers. -/
theorem explainedTriggers (law : ReadLaw p P) (depth : Nat) :
    ∀ rs : List Trigger, ∀ x ∈ Trigger.parts p depth rs, P x.explained
  | [] => by simp [Trigger.parts]
  | r :: rest => List.forall_mem_cons.2 ⟨explainedTrigger law depth r, explainedTriggers law depth rest⟩

end

end ReadLaw

namespace PassLaw

variable {p : Pass m} {P : {α : Type} → PassM m α → Prop}

/-- The evaluation of every value rule has a property that all draws have. -/
theorem value (law : PassLaw p P) (node : List Nat) (r : ValueRule) : P (r.evaluate p node) :=
  law.toReadLaw.value node r fun path _ => law.entropy path

/-! ## Explanations of values -/

theorem explainedBelow (law : PassLaw p P) :
    ∀ (parts : List (List Line × Part m Outcome)) (cancelled : Bool), (∀ x ∈ parts, P x.2.explained) →
      P (ValueRule.explainParts cancelled parts)
  | [], _, _ => law.pure _
  | (_, part) :: rest, cancelled, h => by
    have hrest : ∀ cancelled, P (ValueRule.explainParts cancelled rest) := fun cancelled =>
      explainedBelow law rest cancelled fun x hx => h x (List.mem_cons_of_mem _ hx)
    cases cancelled with
    | true => exact law.bind (hrest true) fun _ => law.pure _
    | false => exact law.bind (h _ List.mem_cons_self) fun _ => law.bind (hrest _) fun _ => law.pure _

theorem explainedValueNode (law : PassLaw p P) (r : ValueRule) (node : List Nat) (depth : Nat)
    (question : Option String) {below : PassM m (List Line)} (h : P below) :
    P (ValueRule.explainNode p r node depth question below) :=
  law.bind (law.value node r) fun _ => law.bind h fun _ => law.pure _

theorem explainedConditional (law : PassLaw p P) {premise : PassM m (List Line × Bool)} {value : Part m Outcome}
    (h₁ : P premise) (h₂ : P value.explained) : P (ValueRule.explainConditional premise value) :=
  law.bind h₁ fun (_, holds) => by
    cases holds with
    | true => exact law.bind h₂ fun _ => law.pure _
    | false => exact law.pure _

mutual

/-- The explanation of every value rule has the property. -/
theorem explainedValue (law : PassLaw p P) (node : List Nat) (depth : Nat) :
    ∀ r : ValueRule, P (r.explainIn p node depth)
  | .otherMarketValue url | .amplifiedOdds url _ _ =>
    law.bind (law.otherMarket url) fun _ => law.explainedValueNode _ _ _ _ (law.pure _)
  | .negate child =>
    law.explainedValueNode _ _ _ _ (law.explainedBelow _ _ (by simpa using explainedValue law (0 :: node) (depth + 1) child))
  | .sum children | .product children | .modulus children =>
    law.explainedValueNode _ _ _ _ (law.explainedBelow _ _ (explainedEach law node (depth + 1) 0 children))
  | .multipleValues shares =>
    law.explainedValueNode _ _ _ _ (law.explainedBelow _ _ (explainedShares law node (depth + 1) 0 shares))
  | .conditional premise child =>
    law.explainedValueNode _ _ _ _
      (law.explainedConditional (law.explainedTrigger (depth + 1) premise)
        (explainedValue law (0 :: node) (depth + 1) child))
  | .constant _ | .currentValue | .randomIndex _ | .pullDelta _ _ | .pullMerged _ | .popular _ | .fibonacci _ _
  | .round | .userStat _ _ _ => law.explainedValueNode _ _ _ _ (law.pure _)

/-- So have those of several children. -/
theorem explainedEach (law : PassLaw p P) (node : List Nat) (depth i : Nat) :
    ∀ rs : List ValueRule, ∀ x ∈ ValueRule.parts p node depth i rs, P x.2.explained
  | [] => by simp [ValueRule.parts]
  | r :: rest =>
    List.forall_mem_cons.2 ⟨explainedValue law (i :: node) depth r, explainedEach law node depth (i + 1) rest⟩

/-- So have those of weighted children. -/
theorem explainedShares (law : PassLaw p P) (node : List Nat) (depth i : Nat) :
    ∀ shares : List (Float × ValueRule), ∀ x ∈ ValueRule.shareParts p node depth i shares, P x.2.explained
  | [] => by simp [ValueRule.shareParts]
  | (_, r) :: rest =>
    List.forall_mem_cons.2 ⟨explainedValue law (i :: node) (depth + 1) r, explainedShares law node depth (i + 1) rest⟩

end

/-! ## Markets -/

theorem shouldResolve (law : PassLaw p P) (market : Market) : P (market.shouldResolve p) := by
  unfold Market.shouldResolve
  split
  · exact law.pure _
  · refine law.anyTrue _ fun x hx => ?_
    obtain ⟨r, _, rfl⟩ := List.mem_map.1 hx
    exact law.trigger r

theorem resolveTo (law : PassLaw p P) (market : Market) : P (market.resolveTo p) := by
  unfold Market.resolveTo
  split
  · exact law.bind (law.value _ _) fun _ => law.ofExcept _
  · exact law.fail _

theorem explainTriggers (law : PassLaw p P) :
    ∀ (rs : List Trigger) (fired : Bool), P (explainTriggers p fired rs)
  | [], _ => law.pure _
  | _ :: rest, true => law.bind (explainTriggers law rest true) fun _ => law.pure _
  | r :: rest, false => law.bind (law.explainedTrigger 0 r) fun (_, value) =>
    law.bind (explainTriggers law rest value) fun _ => law.pure _

theorem explainValues (law : PassLaw p P) : ∀ (rs : List ValueRule) (i : Nat), P (explainValues p i rs)
  | [], _ => law.pure _
  | r :: rest, i => law.bind (law.explainedValue [i] 0 r) fun _ =>
    law.bind (explainValues law rest (i + 1)) fun _ => law.pure _

/-- The explanation of a market has the property. -/
theorem explainIn (law : PassLaw p P) (market : Market) : P (market.explainIn p) :=
  law.bind (law.explainTriggers _ _) fun _ => law.bind (law.explainValues _ _) fun _ => law.pure _

end PassLaw

end Arbiter
