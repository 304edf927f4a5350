import Arbiter.Proofs.Explanation.Trigger
import Arbiter.Proofs.Outcome.Weights
import Arbiter.Proofs.Pass.Moment
import Arbiter.Proofs.Rule.Nodes

/-!
# Faults that no rule that was read runs into

A combination without operands, a weighted union without shares and odds that are not amplified are faults of a node, and
no node of a rule that was read has them.

* `RuleFault.IsHollow`: the faults of such nodes.
* `PassM.Solid`: work that ends with none of them, with one rule for each way of putting work together.
* `solid_trigger`: triggers are solid. `solid_evaluate`: well-formed value rules are.
* `Rule.read_sound`: what holds of every rule that was read.
-/

namespace Arbiter

/-- A fault that only a node without operands, without shares or without amplification runs into. -/
def RuleFault.IsHollow : RuleFault → Bool
  | .value .noOperands | .value .nothingToBlend | .value .noAmplification => true
  | _ => false

/-- The end of work with such a fault. -/
def Halt.IsHollow : Halt → Bool
  | .fault f => f.IsHollow
  | .crash => false

namespace PassM

variable {α β κ : Type} [DecidableEq κ]

/-- Against every world the work, whenever it begins, ends with no hollow fault. -/
def Solid (x : PassM Course α) : Prop := ∀ w s halt, (x.endsAt w s).1 = .error halt → halt.IsHollow = false

theorem solid_pure (a : α) : Solid (pure a : PassM Course α) := by
  intro w s halt h
  rw [endsAt_pure] at h
  cases h

theorem solid_halt {halt : Halt} (h : halt.IsHollow = false) : Solid (throw halt : PassM Course α) := by
  intro w s halt' h'
  cases h'
  exact h

theorem solid_fail {f : RuleFault} (h : f.IsHollow = false) : Solid (PassM.fail f : PassM Course α) := solid_halt h

/-- Work followed by work that is solid for whatever the first may come to. -/
theorem Solid.bind_of {x : PassM Course α} {f : α → PassM Course β} (hx : Solid x)
    (hf : ∀ w s a t, Succeeds w x s a t → Solid (f a)) : Solid (x >>= f) := by
  intro w s halt h
  rw [endsAt_bind] at h
  split at h
  · rename_i a t he
    exact hf w s a t he w t halt h
  · rename_i he
    cases h
    exact hx w s halt (by rw [he])

theorem Solid.bind {x : PassM Course α} {f : α → PassM Course β} (hx : Solid x) (hf : ∀ a, Solid (f a)) :
    Solid (x >>= f) := hx.bind_of fun _ _ a _ _ => hf a

/-- A computation that fails with no hollow fault. -/
def SolidResult (r : Except RuleFault α) : Prop := ∀ f, r = .error f → f.IsHollow = false

theorem solidResult_ok (a : α) : SolidResult (.ok a) := fun _ hf => nomatch hf

theorem solidResult_error {f : RuleFault} (h : f.IsHollow = false) : SolidResult (.error f : Except RuleFault α) :=
  fun _ hf => Except.error.inj hf ▸ h

theorem SolidResult.map {r : Except RuleFault α} (h : SolidResult r) (f : α → β) : SolidResult (f <$> r) := by
  cases r with
  | ok a => exact solidResult_ok (f a)
  | error fault => exact solidResult_error (h fault rfl)

theorem solid_ofExcept {r : Except RuleFault α} (h : SolidResult r) : Solid (PassM.ofExcept r) := by
  cases r with
  | ok a => exact solid_pure a
  | error f => exact solid_fail (h f rfl)

/-- A read that fails is a fault of the world. -/
theorem solid_remember (table : Memory → Cache κ α) (put : Memory → Cache κ α → Memory) (key : κ)
    (read : Course (Except ReadFault α)) : Solid (remember table put key read) := by
  intro w s halt h
  obtain ⟨fault, rfl⟩ := halt_of_remember h
  rfl

theorem solid_entropy (market : Snapshot) (now : Instant) (node : List Nat) :
    Solid ((worldPass market now).entropy node) := by
  intro w s halt h
  obtain ⟨seed, t, hends⟩ := endsAt_entropy market now node w s
  rw [hends] at h
  cases h

end PassM

open PassM

section

variable (market : Snapshot) (now : Instant)

/-! ## Triggers -/

theorem solid_gather (settled : List Bool → Bool) : ∀ (works : List (PassM Course Bool)) (seen : List Bool),
    (∀ x ∈ works, Solid x) → Solid (gather settled seen works)
  | [], seen, _ => solid_pure seen
  | work :: rest, seen, h => by
    obtain ⟨hwork, hrest⟩ := List.forall_mem_cons.1 h
    refine hwork.bind fun value => ?_
    split
    · exact solid_pure _
    · exact solid_gather settled rest _ hrest

/-- A trigger fails only where a read fails. -/
theorem solid_trigger (r : Trigger) : Solid (r.evaluate (worldPass market now)) := by
  induction r using Trigger.children_induction with
  | step r ih =>
    cases hr : r.isJoint with
    | true =>
      rw [Trigger.evaluate_joint _ hr, ← Trigger.combine_gather hr (List.length_map _), map_eq_pure_bind]
      refine (solid_gather _ _ [] fun x hx => ?_).bind fun values => solid_pure _
      obtain ⟨c, hc, rfl⟩ := List.mem_map.1 hx
      exact ih c hc
    | false =>
      cases r with
      | atTime _ | thisMarketClosed _ => exact solid_pure _
      | pullFinished _ | otherMarketClosed _ | otherMarketResolved _ =>
        exact (solid_remember _ _ _ _).bind fun _ => solid_pure _
      | _ => cases hr

/-! ## Values -/

theorem solidResult_interpret (c : Constant) : SolidResult (c.interpret market) := by
  unfold Constant.interpret
  split
  · exact solidResult_ok _
  · split
    · exact solidResult_ok _
    · exact solidResult_error rfl
  · split
    · exact solidResult_ok _
    · exact solidResult_ok _
    all_goals
      split
      · exact solidResult_error rfl
      · exact solidResult_ok _
  · split
    · exact solidResult_ok _
    · exact solidResult_error rfl

end

section

variable {market : Snapshot} {now : Instant}

theorem solidResult_joinScalar {op : Float → Float → Except RuleFault Float} (hop : ∀ a b, SolidResult (op a b))
    (sofar : Option Outcome) (next : Outcome) : SolidResult (joinScalar op sofar next) := by
  unfold joinScalar
  split
  · exact solidResult_ok _
  · exact solidResult_ok _
  · exact solidResult_error rfl
  · exact (hop _ _).map _
  · exact (hop _ _).map _
  · exact solidResult_error rfl

theorem solidResult_flooredRemainder (a b : Float) : SolidResult (flooredRemainder a b) := by
  unfold flooredRemainder
  split
  · exact solidResult_error rfl
  · exact solidResult_ok _

/-- Values are joined without a hollow fault if there is one to begin with. -/
theorem solid_joinAll {op : Float → Float → Except RuleFault Float} (hop : ∀ a b, SolidResult (op a b)) :
    ∀ (works : List (PassM Course Outcome)) (sofar : Option Outcome), sofar.isSome = true ∨ works ≠ [] →
      (∀ x ∈ works, Solid x) → Solid (joinAll op sofar works)
  | [], some value, _, _ => solid_pure value
  | [], none, hne, _ => by simp at hne
  | work :: rest, sofar, _, h => by
    obtain ⟨hwork, hrest⟩ := List.forall_mem_cons.1 h
    refine hwork.bind fun next => ?_
    have hlater : ∀ joined, Solid (joinAll op (some joined) rest) := fun joined =>
      solid_joinAll hop rest (some joined) (.inl rfl) hrest
    cases next with
    | cancel => exact solid_pure _
    | _ => exact (solid_ofExcept (solidResult_joinScalar hop _ _)).bind hlater

theorem normalize_eq_error {weights : Distribution Float} {fault : ValueFault}
    (h : Distribution.normalize weights = .error fault) : fault = .noWeight := by
  unfold Distribution.normalize at h
  dsimp only at h
  split at h
  · cases h
    rfl
  · cases h

theorem solidResult_mixScaled (count : Nat) (mixed : Distribution Float) (fraction : Float)
    (weights : Distribution Float) : SolidResult (Blend.mixScaled count mixed fraction weights) := by
  rw [Blend.mixScaled_eq]
  split
  · exact solidResult_error rfl
  split
  · exact solidResult_error rfl
  · exact solidResult_ok _

theorem solidResult_add (count : Nat) (fraction : Float) (sofar : Blend Float) (next : Outcome) :
    SolidResult (sofar.add count fraction next) := by
  unfold Blend.add
  split
  · exact solidResult_ok _
  · exact solidResult_ok _
  · exact solidResult_mixScaled count _ fraction _
  · exact solidResult_mixScaled count _ fraction _
  · exact solidResult_error rfl
  · exact solidResult_error rfl
  · exact solidResult_error rfl

theorem mixScaled_ne_nothing {count : Nat} {mixed weights : Distribution Float} {fraction : Float} :
    Blend.mixScaled count mixed fraction weights ≠ .ok .nothing := by
  rw [Blend.mixScaled_eq]
  split
  · nofun
  split
  · nofun
  · nofun

/-- After one share a union holds something. -/
theorem add_ne_nothing {count : Nat} {fraction : Float} {sofar : Blend Float} {next : Outcome} :
    sofar.add count fraction next ≠ .ok .nothing := by
  unfold Blend.add
  split
  · nofun
  · nofun
  · exact mixScaled_ne_nothing
  · exact mixScaled_ne_nothing
  · nofun
  · nofun
  · nofun

theorem solid_blendAll (count : Nat) (total : Float) :
    ∀ (shares : List (Float × PassM Course Outcome)) (sofar : Blend Float), sofar ≠ .nothing ∨ shares ≠ [] →
      (∀ x ∈ shares, Solid x.2) → Solid (blendAll count total sofar shares)
  | [], sofar, hne, _ => by
    refine solid_ofExcept ?_
    cases sofar with
    | nothing => simp at hne
    | probability sum => exact solidResult_ok _
    | distribution mixed => exact solidResult_ok _
  | (weight, work) :: rest, sofar, _, h => by
    obtain ⟨hwork, hrest⟩ := List.forall_mem_cons.1 h
    refine hwork.bind fun next => ?_
    have hlater : Solid (PassM.ofExcept (sofar.add count (weight / total) next) >>= fun blended =>
        blendAll count total blended rest) := by
      refine (solid_ofExcept (solidResult_add _ _ _ _)).bind_of fun w s blended t hb => ?_
      have hne : blended ≠ .nothing := by
        rintro rfl
        exact add_ne_nothing (succeeds_ofExcept.1 hb).1
      exact solid_blendAll count total rest blended (.inl hne) hrest
    cases next with
    | cancel => exact solid_pure _
    | _ => exact hlater

/-- A weighted union that has a share. -/
theorem solid_blend (count : Nat) {shares : List (Float × PassM Course Outcome)} (hne : shares ≠ [])
    (h : ∀ x ∈ shares, Solid x.2) : Solid (blend count shares) := by
  refine (solid_ofExcept ?_).bind fun total => solid_blendAll count total shares .nothing (.inr hne) h
  unfold shareTotal
  dsimp only
  split
  · exact solidResult_error rfl
  · exact solidResult_ok _

theorem solid_scaled (weights : Distribution Float) : Solid (Pass.scaled weights : PassM Course Outcome) := by
  unfold Pass.scaled
  split
  · exact solid_pure _
  · rename_i fault hfault
    obtain rfl := normalize_eq_error hfault
    exact solid_fail rfl

theorem solid_currentDistribution : Solid (worldPass market now).currentDistribution :=
  (solid_remember _ _ _ _).bind fun value => by
    cases value with
    | distribution weights => exact solid_pure weights
    | _ => exact solid_fail rfl

theorem solid_generator (node : List Nat) (seed : Option Seed) : Solid ((worldPass market now).generator node seed) := by
  cases seed with
  | some seed => exact solid_pure _
  | none => exact (solid_entropy market now node).bind fun _ => solid_pure _

theorem solid_randomAnswer (node : List Nat) (answer : RandomAnswer) :
    Solid ((worldPass market now).randomAnswer node answer) := by
  unfold Pass.randomAnswer
  split
  · exact solid_fail rfl
  dsimp only
  split
  · exact solid_fail rfl
  split
  · refine solid_currentDistribution.bind fun _ => (solid_pure _).bind fun _ => ?_
    refine (solid_generator node answer.seed).bind fun g => ?_
    split
    · exact solid_pure _
    · exact solid_halt rfl
    · exact solid_fail rfl
  · refine (solid_pure _).bind fun _ => (solid_generator node answer.seed).bind fun g => ?_
    split
    · exact solid_pure _
    · exact solid_halt rfl
    · exact solid_fail rfl

theorem solid_pullDelta (pull : PullRef) (start : Instant) : Solid ((worldPass market now).pullDelta pull start) := by
  unfold Pass.pullDelta
  split
  · exact solid_fail rfl
  split
  · exact solid_fail rfl
  refine (solid_remember _ _ _ _).bind fun request => ?_
  split
  · exact solid_pure _
  · exact solid_pure _

theorem solid_roundedValue : Solid (worldPass market now).roundedValue :=
  (solid_remember _ _ _ _).bind fun value => by
    cases value with
    | probability _ | numeric _ => exact solid_pure _
    | _ => exact solid_fail rfl

/-- Odds that are amplified at all. -/
theorem solid_amplified (node : List Nat) (url : String) {a : Nat} (ha : 1 ≤ a) (seed : Option Seed) :
    Solid ((worldPass market now).amplified node url a seed) := by
  refine (solid_remember _ _ _ _).bind fun reference => ?_
  have hodds : SolidResult (amplifiedOdds reference.resolved reference.value a) := by
    unfold amplifiedOdds
    rw [if_neg (by omega)]
    unfold Odds.ofReference
    split
    · exact solidResult_ok _
    · exact solidResult_ok _
    · exact solidResult_ok _
    · exact solidResult_ok _
    · exact solidResult_error rfl
  refine (solid_ofExcept hodds).bind fun odds => ?_
  cases odds with
  | settled value => exact solid_pure value
  | drawn chance => exact (solid_generator node seed).bind fun _ => solid_pure _

theorem solid_opposite : ∀ value : Outcome, Solid (Pass.opposite value : PassM Course Outcome)
  | .cancel | .probability _ | .bool _ => solid_pure _
  | .numeric _ | .distribution _ => solid_fail rfl

theorem evaluateEach_ne_nil {p : Pass Course} {node : List Nat} {i : Nat} {rs : List ValueRule} (h : 2 ≤ rs.length) :
    ValueRule.evaluateEach p node i rs ≠ [] := by
  cases rs with
  | nil => simp at h
  | cons r rest => simp [ValueRule.evaluateEach]

mutual

/-- A well-formed value rule never runs into a hollow fault. -/
theorem solid_evaluate (node : List Nat) : ∀ r : ValueRule, (Rule.value r).WellFormed →
    Solid (r.evaluate (worldPass market now) node)
  | .constant c, _ => solid_ofExcept (solidResult_interpret market c)
  | .currentValue, _ => solid_remember _ _ _ _
  | .otherMarketValue url, _ => (solid_remember _ _ _ _).bind fun _ => solid_pure _
  | .negate child, hr =>
    (solid_evaluate (0 :: node) child (List.forall_mem_singleton.1 hr.subrules)).bind solid_opposite
  | .sum children, hr | .product children, hr =>
    solid_joinAll (fun _ _ => solidResult_ok _) _ _ (.inr (evaluateEach_ne_nil hr.root))
      (solid_evaluateEach node 0 children (List.forall_mem_map.1 hr.subrules))
  | .modulus children, hr =>
    solid_joinAll solidResult_flooredRemainder _ _ (.inr (evaluateEach_ne_nil hr.root))
      (solid_evaluateEach node 0 children (List.forall_mem_map.1 hr.subrules))
  | .randomIndex answer, _ => solid_randomAnswer node answer
  | .multipleValues shares, hr => by
    have hchildren := List.forall_mem_map.1 (List.forall_mem_map.1 hr.subrules)
    refine solid_blend _ ?_ (solid_evaluateShares node 0 shares hchildren)
    obtain ⟨hne, -⟩ := hr.root
    cases shares with
    | nil => exact absurd rfl hne
    | cons share rest => simp [ValueRule.evaluateShares]
  | .pullDelta pull start, _ => solid_pullDelta pull start
  | .pullMerged pull, _ => (solid_remember _ _ _ _).bind fun _ => solid_pure _
  | .popular size, _ => solid_currentDistribution.bind fun _ => solid_scaled _
  | .fibonacci exclude leastShare, _ => solid_currentDistribution.bind fun _ => solid_scaled _
  | .round, _ => solid_roundedValue
  | .amplifiedOdds url a seed, hr => solid_amplified node url hr.root seed
  | .conditional premise child, hr => (solid_trigger market now premise).bind fun holds => by
    cases holds with
    | true => exact solid_evaluate (0 :: node) child (hr.subrules _ (by simp [Rule.subrules]))
    | false => exact solid_pure _
  | .userStat user _ _, _ => (solid_remember _ _ _ _).bind fun _ => solid_pure _

/-- Nor do several children. -/
theorem solid_evaluateEach (node : List Nat) (i : Nat) :
    ∀ rs : List ValueRule, (∀ r ∈ rs, (Rule.value r).WellFormed) →
      ∀ x ∈ ValueRule.evaluateEach (worldPass market now) node i rs, Solid x
  | [], _ => by simp [ValueRule.evaluateEach]
  | r :: rest, h =>
    have ⟨hr, hrest⟩ := List.forall_mem_cons.1 h
    List.forall_mem_cons.2 ⟨solid_evaluate (i :: node) r hr, solid_evaluateEach node (i + 1) rest hrest⟩

/-- Nor do weighted children. -/
theorem solid_evaluateShares (node : List Nat) (i : Nat) :
    ∀ shares : List (Float × ValueRule), (∀ share ∈ shares, (Rule.value share.2).WellFormed) →
      ∀ x ∈ ValueRule.evaluateShares (worldPass market now) node i shares, Solid x.2
  | [], _ => by simp [ValueRule.evaluateShares]
  | (_, r) :: rest, h =>
    have ⟨hr, hrest⟩ := List.forall_mem_cons.1 h
    List.forall_mem_cons.2 ⟨solid_evaluate (i :: node) r hr, solid_evaluateShares node (i + 1) rest hrest⟩

end

end

/-! ## Rules that were read -/

namespace Rule

/-- The evaluation of a rule of either family, at a node of its market's rules, ends with this halt. -/
def HaltsWith (p : Pass Course) (node : List Nat) (w : World) (s : Moment) (halt : Halt) : Rule → Prop
  | .trigger r => ((r.evaluate p).endsAt w s).1 = .error halt
  | .value r => ((r.evaluate p node).endsAt w s).1 = .error halt

/-- A rule that was read is sound. Every node in it meets the conditions of its kind, and was itself read from inside the
value, the operands of a conditional as a trigger and a value rule. So whatever the market and the world, its evaluation
never ends for want of operands, of shares or of amplification. -/
theorem read_sound {v : Json} {r : Rule} (h : ofJson v = .ok r) :
    (∀ c, c.StandsIn r → c.MeetsConditions ∧ ∃ u, u.StandsIn v.canonical ∧ read u = .ok c ∧
      ∀ premise child, c = .value (.conditional premise child) → WrittenConditional u premise child) ∧
    ∀ (market : Snapshot) (now : Instant) (node : List Nat) (w : World) (s : Moment) (halt : Halt),
      r.HaltsWith (worldPass market now) node w s halt → halt.IsHollow = false := by
  have hr := wellFormed_of_ofJson h
  refine ⟨fun c hc => ⟨(hr.standsIn hc).root, ?_⟩, ?_⟩
  · obtain ⟨u, hu, hread⟩ := read_standsIn hc h
    refine ⟨u, hu, hread, ?_⟩
    rintro premise child rfl
    exact operands_of_read hread
  · intro market now node w s halt hhalt
    cases r with
    | trigger r => exact solid_trigger market now r w s halt hhalt
    | value r => exact solid_evaluate node r hr w s halt hhalt

/-- A sum under a condition, in a market that has closed and whose value cannot be read: it ends with the failed read. -/
theorem conditional_sum_sound :
    let closed := taggedJson .thisMarketClosed []
    let sum := taggedJson .sum [("rules", .array [taggedJson .currentValue [], taggedJson .round []])]
    let v := taggedJson .conditional [("rule2", sum), ("rule1", taggedJson .any [("rules", .array [closed, closed])])]
    let inner : ValueRule := .sum [.currentValue, .round]
    let r : Rule := .value (.conditional (.any [.thisMarketClosed none, .thisMarketClosed none]) inner)
    let now : Instant := ⟨1709298000, 0⟩
    let p := worldPass ⟨"m", "u", "M?", .binary, none, none, false, [], some now, false⟩ now
    let halt : Halt := .fault (.read (.request ""))
    ofJson v = .ok r ∧ (Rule.value inner).StandsIn r ∧ (Rule.value inner).MeetsConditions ∧
      r.HaltsWith p [] (World.still now) ⟨[], .empty, .empty⟩ halt ∧ halt.IsHollow = false := by
  intro closed sum v inner r now p halt
  have hany : read (taggedJson .any [("rules", .array [closed, closed])]).canonical =
      .ok (.trigger (.any [.thisMarketClosed none, .thisMarketClosed none])) := by rfl
  have hsum : read sum.canonical = .ok (.value inner) := by rfl
  have hread : ofJson v = .ok r :=
    (read_taggedJson _ _).trans ((bind_of_ok (Arguments.trigger_stored rfl hany) _).trans
      (bind_of_ok (Arguments.value_stored rfl hsum) _))
  have hstands : (Rule.value inner).StandsIn r := .inner (by simp [subrules, r]) .root
  have hhalts : r.HaltsWith p [] (World.still now) ⟨[], .empty, .empty⟩ halt := by rfl
  obtain ⟨hnodes, hsolid⟩ := read_sound hread
  exact ⟨hread, hstands, (hnodes _ hstands).1, hhalts, hsolid _ _ _ _ _ _ hhalts⟩

end Rule

end Arbiter
