import Arbiter.Proofs.Outcome.Finite
import Arbiter.Proofs.Pass.Moment

/-!
# Weights in a pass

Against a world that tells no weight less than zero, no rule that was read comes to one, and none is remembered.

* `PassM.Grants`: what work comes to from such memories in such worlds. `grants_bind` and the others: one rule for each
  way of putting work together.
* `grants_evaluate`: a well-formed rule comes only to values without weights less than zero.
-/

namespace Arbiter

/-- No weight that is remembered is less than zero. -/
structure Memory.NeverNegative (memory : Memory) : Prop where
  current : ∀ id v, memory.current.get? id = some v → Outcome.NeverNegative v
  others : ∀ url reference, memory.others.get? url = some reference → Outcome.NeverNegative reference.value

/-- No weight that is told is less than zero. -/
structure World.NeverNegative (w : World) : Prop where
  currentValue : ∀ past market v, w.answer past (.currentValue market) = .ok v → Outcome.NeverNegative v
  otherMarket : ∀ past url (reference : Reference), w.answer past (.otherMarket url) = .ok reference →
    Outcome.NeverNegative reference.value

theorem Memory.neverNegative_empty : Memory.empty.NeverNegative := ⟨nofun, nofun⟩

/-- What holds of all that a table remembers and of one more value holds after it is put there. -/
theorem Cache.forall_insert {κ α : Type} [DecidableEq κ] {P : α → Prop} {c : Cache κ α} {k : κ} {v : α}
    (hc : ∀ j u, c.get? j = some u → P u) (hv : P v) : ∀ j u, (c.insert k v).get? j = some u → P u := by
  intro j u hj
  by_cases h : j = k
  · subst h
    rw [Cache.get?_insert_self] at hj
    cases hj
    exact hv
  · rw [Cache.get?_insert_ne c v h] at hj
    exact hc j u hj

namespace PassM

variable {α β κ : Type} [DecidableEq κ] {P : α → Prop} {Q : β → Prop}

/-- Wherever no weight is less than zero, the work comes only to what `P` holds of, and remembers no such weight. -/
def Grants (P : α → Prop) (x : PassM Course α) : Prop :=
  ∀ (w : World) (past : List Call) (memory : Memory) (store : Store), w.NeverNegative → memory.NeverNegative →
    (x.runFrom memory).Leads w past store fun ends _ _ => ends.2.NeverNegative ∧ ∀ a, ends.1 = .ok a → P a

theorem grants_pure {a : α} (h : P a) : Grants P (pure a : PassM Course α) := fun _ _ _ _ _ hm =>
  ⟨hm, fun _ ha => Except.ok.inj ha ▸ h⟩

theorem grants_halt (halt : Halt) : Grants P (throw halt : PassM Course α) := fun _ _ _ _ _ hm => ⟨hm, nofun⟩

theorem grants_ofExcept {r : Except RuleFault α} (h : ∀ a, r = .ok a → P a) : Grants P (PassM.ofExcept r) := by
  cases r with
  | ok a => exact grants_pure (h a rfl)
  | error fault => exact grants_halt _

theorem Grants.bind {x : PassM Course α} {f : α → PassM Course β} (hx : Grants P x) (hf : ∀ a, P a → Grants Q (f a)) :
    Grants Q (x >>= f) := by
  intro w past memory store hw hm
  rw [runFrom_bind]
  refine (hx w past memory store hw hm).bind fun (result, middle) calls store' ⟨hmiddle, ha⟩ => ?_
  cases result with
  | error halt => exact ⟨hmiddle, nofun⟩
  | ok a => exact hf a (ha a rfl) w (past ++ calls) middle store' hw hmiddle

theorem Grants.mono {P' : α → Prop} {x : PassM Course α} (hx : Grants P x) (h : ∀ a, P a → P' a) : Grants P' x :=
  fun w past memory store hw hm => (hx w past memory store hw hm).mono fun _ _ _ ⟨hm, ha⟩ => ⟨hm, fun a hr => h a (ha a hr)⟩

theorem Grants.of_succeeds {w : World} {s t : Moment} {x : PassM Course α} {a : α} (hx : Grants P x)
    (hw : w.NeverNegative) (hm : s.memory.NeverNegative) (h : Succeeds w x s a t) : P a ∧ t.memory.NeverNegative := by
  obtain ⟨hmemory, ha⟩ := hx w s.past s.memory s.store hw hm
  obtain ⟨hresult, ht⟩ := Prod.mk.inj h
  exact ⟨ha a hresult, ht ▸ hmemory⟩

/-- A read of a table that may hold only what `P` holds of. -/
theorem grants_remember {table : Memory → Cache κ α} {put : Memory → Cache κ α → Memory} {key : κ}
    {read : Course (Except ReadFault α)}
    (hread : ∀ w past store, w.NeverNegative → read.Leads w past store fun result _ _ => ∀ a, result = .ok a → P a)
    (hknown : ∀ memory, memory.NeverNegative → ∀ k a, (table memory).get? k = some a → P a)
    (hput : ∀ memory t, memory.NeverNegative → (∀ k a, t.get? k = some a → P a) → (put memory t).NeverNegative) :
    Grants P (remember table put key read) := by
  intro w past memory store hw hm
  rw [runFrom_remember]
  cases hk : (table memory).get? key with
  | some a => exact ⟨hm, fun b hb => Except.ok.inj hb ▸ hknown memory hm key a hk⟩
  | none =>
    refine (hread w past store hw).bind fun result calls _ ha => ?_
    cases result with
    | error fault => exact ⟨hm, nofun⟩
    | ok a =>
      refine ⟨hput memory _ hm (Cache.forall_insert (hknown memory hm) (ha a rfl)), fun b hb => ?_⟩
      exact Except.ok.inj hb ▸ ha a rfl

end PassM

open PassM

section

variable (market : Snapshot) (now : Instant)

theorem grants_currentValue : Grants Outcome.NeverNegative (worldPass market now).currentValue :=
  grants_remember (fun _ past _ hw v hv => hw.currentValue past market v hv) (fun _ hm => hm.current)
    fun _ _ hm ht => { hm with current := ht }

theorem grants_otherMarket (url : String) :
    Grants (fun reference => Outcome.NeverNegative reference.value) ((worldPass market now).otherMarket url) :=
  grants_remember (fun _ past _ hw reference hr => hw.otherMarket past url reference hr) (fun _ hm => hm.others)
    fun _ _ hm ht => { hm with others := ht }

/-- All work on rules remembers no weight less than zero. -/
theorem grants_true : PassLaw (worldPass market now) (Grants fun _ => True) where
  pure _ := grants_pure trivial
  bind hx hf := hx.bind fun a _ => hf a
  halt := grants_halt
  currentValue := (grants_currentValue market now).mono fun _ _ => trivial
  otherMarket url := (grants_otherMarket market now url).mono fun _ _ => trivial
  user _ := grants_remember (fun _ _ _ _ _ _ => trivial) (fun _ _ _ _ _ => trivial) fun _ _ hm _ =>
    ⟨hm.current, hm.others⟩
  pullRequest _ := grants_remember (fun _ _ _ _ _ _ => trivial) (fun _ _ _ _ _ => trivial) fun _ _ hm _ =>
    ⟨hm.current, hm.others⟩
  entropy node := by
    intro w past memory store _ hm
    unfold PassM.runFrom Pass.entropy
    cases memory.seeds.get? node with
    | some seed => exact ⟨hm, fun _ _ => trivial⟩
    | none => exact ⟨⟨hm.current, hm.others⟩, fun _ _ => trivial⟩

end

/-! ## Values -/

section

variable {market : Snapshot} {now : Instant}

theorem grants_joinAll {op : Float → Float → Except RuleFault Float} :
    ∀ {works : List (PassM Course Outcome)} {sofar : Option Outcome}, (∀ v ∈ sofar, Outcome.NeverNegative v) →
      (∀ x ∈ works, Grants Outcome.NeverNegative x) → Grants Outcome.NeverNegative (joinAll op sofar works)
  | [], some value, hs, _ => grants_pure (hs value rfl)
  | [], none, _, _ => grants_halt _
  | _ :: rest, sofar, _, hw => (hw _ List.mem_cons_self).bind fun next _ => by
    have hrest : ∀ joined, Outcome.NeverNegative joined →
        Grants Outcome.NeverNegative (joinAll op (some joined) rest) := fun joined hj =>
      grants_joinAll (fun v hv => Option.some.inj hv ▸ hj) fun x hx => hw x (List.mem_cons_of_mem _ hx)
    cases next with
    | cancel => exact grants_pure trivial
    | _ => exact (grants_ofExcept fun _ => joinScalar_neverNegative).bind hrest

theorem grants_blendAll {count : Nat} {total : Float} (ht : ¬total ≤ 0) :
    ∀ {shares : List (Float × PassM Course Outcome)} {sofar : Blend Float}, sofar.NeverNegative →
      (∀ x ∈ shares, ¬x.1 < 0 ∧ Grants Outcome.NeverNegative x.2) →
      Grants Outcome.NeverNegative (blendAll count total sofar shares)
  | [], _, hs, _ => grants_ofExcept fun _ => Blend.result_neverNegative hs
  | (weight, _) :: rest, sofar, hs, hw => (hw _ List.mem_cons_self).2.bind fun next hn => by
    have hweight : ¬weight / total < 0 := not_neg_div (hw _ List.mem_cons_self).1 ht
    have hrest : ∀ blended : Blend Float, blended.NeverNegative →
        Grants Outcome.NeverNegative (blendAll count total blended rest) := fun blended hb =>
      grants_blendAll ht hb fun x hx => hw x (List.mem_cons_of_mem _ hx)
    cases next with
    | cancel => exact grants_pure trivial
    | _ => exact (grants_ofExcept fun _ => Blend.add_neverNegative hweight hs hn).bind hrest

theorem grants_scaled {weights : Distribution Float} (h : Distribution.NeverNegative weights) :
    Grants Outcome.NeverNegative (Pass.scaled weights : PassM Course Outcome) := by
  unfold Pass.scaled
  split
  · rename_i d hd
    exact grants_pure (normalize_neverNegative h hd)
  · exact grants_halt _

theorem grants_currentDistribution :
    Grants Distribution.NeverNegative (worldPass market now).currentDistribution :=
  (grants_currentValue market now).bind fun value hv => by
    cases value with
    | distribution weights => exact grants_pure hv
    | _ => exact grants_halt _

/-- Whatever seed a generator is made of, what follows it counts. -/
theorem grants_generator {β : Type} {Q : β → Prop} (node : List Nat) (seed : Option Seed)
    {f : Generator → PassM Course β} (hf : ∀ g, Grants Q (f g)) :
    Grants Q ((worldPass market now).generator node seed >>= f) :=
  ((grants_true market now).generator node seed fun _ => (grants_true market now).entropy node).bind fun g _ => hf g

theorem grants_randomAnswer (node : List Nat) (answer : RandomAnswer) :
    Grants Outcome.NeverNegative ((worldPass market now).randomAnswer node answer) := by
  unfold Pass.randomAnswer
  split
  · exact grants_halt _
  dsimp only
  split
  · exact grants_halt _
  split
  · refine grants_currentDistribution.bind fun _ _ => (grants_pure (P := fun _ => True) trivial).bind fun _ _ => ?_
    refine grants_generator node answer.seed fun g => ?_
    split
    · exact grants_pure (answer_neverNegative _)
    · exact grants_halt _
    · exact grants_halt _
  · refine (grants_pure (P := fun _ => True) trivial).bind fun _ _ => grants_generator node answer.seed fun g => ?_
    split
    · exact grants_pure (answer_neverNegative _)
    · exact grants_halt _
    · exact grants_halt _

theorem grants_pullDelta (pull : PullRef) (start : Instant) :
    Grants Outcome.NeverNegative ((worldPass market now).pullDelta pull start) := by
  unfold Pass.pullDelta
  split
  · exact grants_halt _
  split
  · exact grants_halt _
  refine ((grants_true market now).pullRequest pull).bind fun request _ => ?_
  split
  · exact grants_pure trivial
  · exact grants_pure trivial

theorem grants_roundedValue : Grants Outcome.NeverNegative (worldPass market now).roundedValue :=
  (grants_currentValue market now).bind fun value _ => by
    cases value with
    | probability _ | numeric _ => exact grants_pure trivial
    | _ => exact grants_halt _

theorem grants_amplified (node : List Nat) (url : String) (a : Nat) (seed : Option Seed) :
    Grants Outcome.NeverNegative ((worldPass market now).amplified node url a seed) := by
  refine (grants_otherMarket market now url).bind fun reference _ => ?_
  refine (grants_ofExcept fun odds h => h).bind fun odds h => ?_
  cases odds with
  | settled value => exact grants_pure (amplifiedOdds_neverNegative h)
  | drawn chance =>
    refine grants_generator node seed fun g => grants_pure ?_
    unfold Odds.decide
    split
    · trivial
    · trivial

theorem grants_opposite : ∀ value : Outcome, Grants Outcome.NeverNegative (Pass.opposite value : PassM Course Outcome)
  | .cancel | .probability _ | .bool _ => grants_pure trivial
  | .numeric _ | .distribution _ => grants_halt _

theorem not_neg_of_isShareWeight {w : Float} (h : Arguments.isShareWeight w = true) : ¬w < 0 :=
  not_neg_of_le (of_decide_eq_true (Bool.and_eq_true_iff.1 h).2)

mutual

/-- A well-formed rule comes only to values without weights less than zero. -/
theorem grants_evaluate (node : List Nat) : ∀ r : ValueRule, (Rule.value r).WellFormed →
    Grants Outcome.NeverNegative (r.evaluate (worldPass market now) node)
  | .constant _, hr => grants_ofExcept fun _ => interpret_neverNegative hr.root
  | .currentValue, _ => grants_currentValue market now
  | .otherMarketValue url, _ => (grants_otherMarket market now url).bind fun _ h => grants_pure h
  | .negate child, hr =>
    (grants_evaluate (0 :: node) child (List.forall_mem_singleton.1 hr.subrules)).bind fun v _ => grants_opposite v
  | .sum children, hr | .product children, hr | .modulus children, hr =>
    grants_joinAll nofun (grants_evaluateEach node 0 children (List.forall_mem_map.1 hr.subrules))
  | .randomIndex answer, _ => grants_randomAnswer node answer
  | .multipleValues shares, hr => by
    have hchildren := List.forall_mem_map.1 (List.forall_mem_map.1 hr.subrules)
    refine (grants_ofExcept fun total ht => (shareTotal_eq_ok_iff.1 ht).1).bind fun total ht => ?_
    exact grants_blendAll ht trivial (grants_evaluateShares node 0 shares hr.root.2 hchildren)
  | .pullDelta pull start, _ => grants_pullDelta pull start
  | .pullMerged pull, _ => ((grants_true market now).pullRequest pull).bind fun _ _ => grants_pure trivial
  | .popular size, _ => grants_currentDistribution.bind fun _ h => grants_scaled (mostPopular_neverNegative size h)
  | .fibonacci exclude leastShare, _ => grants_currentDistribution.bind fun current _ =>
    grants_scaled (fibonacciWeights_neverNegative exclude leastShare current)
  | .round, _ => grants_roundedValue
  | .amplifiedOdds url a seed, _ => grants_amplified node url a seed
  | .conditional premise child, hr => ((grants_true market now).trigger premise).bind fun holds _ => by
    cases holds with
    | true => exact grants_evaluate (0 :: node) child (hr.subrules _ (by simp [Rule.subrules]))
    | false => exact grants_pure trivial
  | .userStat user _ _, _ => ((grants_true market now).user user).bind fun _ _ => grants_pure trivial

/-- So do several children. -/
theorem grants_evaluateEach (node : List Nat) (i : Nat) :
    ∀ rs : List ValueRule, (∀ r ∈ rs, (Rule.value r).WellFormed) →
      ∀ x ∈ ValueRule.evaluateEach (worldPass market now) node i rs, Grants Outcome.NeverNegative x
  | [], _ => by simp [ValueRule.evaluateEach]
  | r :: rest, h =>
    have ⟨hr, hrest⟩ := List.forall_mem_cons.1 h
    List.forall_mem_cons.2 ⟨grants_evaluate (i :: node) r hr, grants_evaluateEach node (i + 1) rest hrest⟩

/-- So do weighted children. -/
theorem grants_evaluateShares (node : List Nat) (i : Nat) :
    ∀ shares : List (Float × ValueRule), (∀ share ∈ shares, Arguments.isShareWeight share.1 = true) →
      (∀ share ∈ shares, (Rule.value share.2).WellFormed) →
      ∀ x ∈ ValueRule.evaluateShares (worldPass market now) node i shares, ¬x.1 < 0 ∧ Grants Outcome.NeverNegative x.2
  | [], _, _ => by simp [ValueRule.evaluateShares]
  | (_, r) :: rest, hw, h =>
    have ⟨hweight, hweights⟩ := List.forall_mem_cons.1 hw
    have ⟨hr, hrest⟩ := List.forall_mem_cons.1 h
    List.forall_mem_cons.2 ⟨⟨not_neg_of_isShareWeight hweight, grants_evaluate (i :: node) r hr⟩,
      grants_evaluateShares node (i + 1) rest hweights hrest⟩

end

end

end Arbiter
