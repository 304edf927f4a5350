import Arbiter.Outcome.Combine
import Arbiter.Outcome.Odds
import Arbiter.Outcome.Ranking
import Arbiter.Proofs.Double.Kinds
import Arbiter.Proofs.Outcome.Shape
import Arbiter.Proofs.Rule.WellFormed
import Arbiter.Proofs.SortedMap

/-!
# Weights that are not negative

Whatever is made of weights that are not less than zero, they never get less than zero. What is no number is not less
than zero either, so a sum that overflows is no exception.

* `Outcome.NeverNegative`: a value without such weights.
* `normalize_neverNegative`, `mostPopular_neverNegative`, `fibonacciWeights_neverNegative`, `Blend.add_neverNegative`:
  weights that are scaled, chosen, ranked or blended.
* `interpret_neverNegative`: constants that meet their conditions.
-/

namespace Arbiter

/-- No weight is less than zero. -/
def Distribution.NeverNegative (weights : Distribution Float) : Prop := ∀ e ∈ weights.entries, ¬e.2 < 0

/-- No weight inside a value is less than zero. -/
def Outcome.NeverNegative : Outcome → Prop
  | .distribution weights => Distribution.NeverNegative weights
  | .bool _ | .probability _ | .numeric _ | .cancel => True

theorem single_neverNegative (index : Nat) {w : Float} (hw : ¬w < 0) :
    Distribution.NeverNegative (SortedMap.single index w) := List.forall_mem_singleton.2 hw

theorem answer_neverNegative (index : Nat) : Outcome.NeverNegative (.answer index) :=
  single_neverNegative index (by decide)

variable {weights scaled current : Distribution Float}

/-! ## Scaled weights -/

section

variable {ν : Type} [Add ν] [Mul ν] [Div ν] [LE ν] [DecidableLE ν] [OfNat ν 0] [OfNat ν 100]

theorem normalize_eq_ok_iff {weights scaled : Distribution ν} :
    Distribution.normalize weights = .ok scaled ↔ ¬Distribution.total weights ≤ 0 ∧
      scaled = SortedMap.mapValues (fun w => w * 100 / Distribution.total weights) weights := by
  unfold Distribution.normalize
  dsimp only
  split
  · rename_i h
    exact ⟨nofun, fun hs => absurd h hs.1⟩
  · rename_i h
    exact ⟨fun hs => by cases hs; exact ⟨h, rfl⟩, fun hs => by rw [hs.2]⟩

end

/-- Shares of a positive total. -/
theorem normalize_neverNegative (h : Distribution.NeverNegative weights)
    (hs : Distribution.normalize weights = .ok scaled) : Distribution.NeverNegative scaled := by
  obtain ⟨htotal, rfl⟩ := normalize_eq_ok_iff.1 hs
  refine (SortedMap.forall_mapValues (p := fun w => ¬w < 0)).2 fun e he => ?_
  exact not_neg_div (not_neg_mul (h e he) (by decide)) htotal

/-! ## Ranked answers -/

theorem mostPopular_neverNegative (size : Nat) (h : Distribution.NeverNegative current) :
    Distribution.NeverNegative (mostPopular size current) := by
  intro e he
  have he := List.mem_of_mem_take (SortedMap.mem_of_mem_ofList he)
  exact h e (List.mem_mergeSort.1 he)

theorem alongSequence_not_neg : ∀ {entries : List (Nat × Float)} {a b : Float}, ¬a < 0 → ¬b < 0 →
    ∀ e ∈ alongSequence a b entries, ¬e.2 < 0
  | [], _, _, _, _ => nofun
  | _ :: _, _, _, ha, hb => List.forall_mem_cons.2 ⟨ha, alongSequence_not_neg hb (not_neg_add ha hb)⟩

theorem fibonacciWeights_neverNegative (exclude : SortedMap Nat Unit) (leastShare : Float)
    (current : Distribution Float) : Distribution.NeverNegative (fibonacciWeights exclude leastShare current) :=
  fun e he => alongSequence_not_neg (by decide) (by decide) e (SortedMap.mem_of_mem_ofList he)

/-! ## Combinations -/

/-- Scalars joined give a scalar. -/
theorem joinScalar_neverNegative {op : Float → Float → Except RuleFault Float} {sofar : Option Outcome}
    {next joined : Outcome} (h : joinScalar op sofar next = .ok joined) : Outcome.NeverNegative joined := by
  unfold joinScalar at h
  split at h
  · cases h
    trivial
  · cases h
    trivial
  · cases h
  · rename_i p q
    cases hop : op p q with
    | error fault => rw [hop] at h; cases h
    | ok x => rw [hop] at h; cases h; trivial
  · rename_i x y
    cases hop : op x y with
    | error fault => rw [hop] at h; cases h
    | ok z => rw [hop] at h; cases h; trivial
  · cases h

/-- No weight of a union so far is less than zero. -/
def Blend.NeverNegative : Blend Float → Prop
  | .distribution mixed => Distribution.NeverNegative mixed
  | .nothing | .probability _ => True

theorem mix_neverNegative {fraction : Float} (hf : ¬fraction < 0) (h : Distribution.NeverNegative weights) :
    ∀ {mixed : Distribution Float}, Distribution.NeverNegative mixed →
      Distribution.NeverNegative (Blend.mix mixed fraction weights) := by
  unfold Blend.mix
  unfold Distribution.NeverNegative at h
  generalize weights.entries = entries at h
  induction entries with
  | nil => exact fun hm => hm
  | cons e rest ih =>
    obtain ⟨he, hrest⟩ := List.forall_mem_cons.1 h
    refine fun hm => ih hrest (SortedMap.forall_alter (p := fun w => ¬w < 0) hm fun old hold => ?_)
    refine not_neg_add ?_ (not_neg_mul he hf)
    cases old with
    | none => decide
    | some w => exact hold w rfl

section

variable {ν : Type} [Add ν] [Mul ν] [Div ν] [LE ν] [DecidableLE ν] [OfNat ν 0] [OfNat ν 100]

/-- A distribution is mixed in if all its answers are known and it has some weight. -/
theorem Blend.mixScaled_eq {count : Nat} {weights mixed : Distribution ν} {fraction : ν} :
    mixScaled count mixed fraction weights =
      match Distribution.unknownAnswer? weights count with
      | some index => .error (.mismatch (.answersBelow count) (.answerIndex index))
      | none =>
        if Distribution.total weights ≤ 0 then .error (.value .noWeight)
        else .ok (.distribution
          (mix mixed fraction (SortedMap.mapValues (fun w => w * 100 / Distribution.total weights) weights))) := by
  unfold mixScaled Distribution.checkAnswers Distribution.normalize
  cases Distribution.unknownAnswer? weights count with
  | some index => rfl
  | none =>
    by_cases htotal : Distribution.total weights ≤ 0
    · simp only [bind, Except.bind, if_pos htotal]
    · simp only [bind, Except.bind, if_neg htotal]

end

theorem mixScaled_neverNegative {count : Nat} {mixed : Distribution Float} {fraction : Float} {blended : Blend Float}
    (hf : ¬fraction < 0) (h : Distribution.NeverNegative weights) (hm : Distribution.NeverNegative mixed)
    (hb : Blend.mixScaled count mixed fraction weights = .ok blended) : blended.NeverNegative := by
  rw [Blend.mixScaled_eq] at hb
  split at hb
  · cases hb
  split at hb
  · cases hb
  · rename_i htotal
    cases hb
    exact mix_neverNegative hf (normalize_neverNegative h (normalize_eq_ok_iff.2 ⟨htotal, rfl⟩)) hm

/-- One more share of a union. -/
theorem Blend.add_neverNegative {count : Nat} {fraction : Float} {sofar blended : Blend Float} {next : Outcome}
    (hf : ¬fraction < 0) (hs : sofar.NeverNegative) (hn : Outcome.NeverNegative next)
    (h : sofar.add count fraction next = .ok blended) : blended.NeverNegative := by
  have hnext : Outcome.NeverNegative (asProbability next) := by
    cases next with
    | bool b => trivial
    | _ => exact hn
  unfold Blend.add at h
  revert hnext h
  generalize asProbability next = next
  intro h hnext
  split at h
  · cases h
    trivial
  · cases h
    trivial
  · refine mixScaled_neverNegative hf hnext ?_ h
    exact List.forall_mem_nil _
  · exact mixScaled_neverNegative hf hnext hs h
  · cases h
  · cases h
  · cases h

theorem Blend.result_neverNegative {sofar : Blend Float} {v : Outcome} (hs : sofar.NeverNegative)
    (h : sofar.result = .ok v) : Outcome.NeverNegative v := by
  cases sofar with
  | nothing => cases h
  | probability sum => cases h; trivial
  | distribution mixed => cases h; exact hs

/-- Shares add up to something positive, or to no number. -/
theorem shareTotal_eq_ok_iff {ν : Type} [Add ν] [LE ν] [DecidableLE ν] [OfNat ν 0] {shares : List ν} {total : ν} :
    shareTotal shares = .ok total ↔ ¬total ≤ 0 ∧ total = shares.foldl (· + ·) 0 := by
  unfold shareTotal
  dsimp only
  split
  · rename_i h
    exact ⟨nofun, fun ht => absurd (ht.2 ▸ h) ht.1⟩
  · rename_i h
    exact ⟨fun ht => by cases ht; exact ⟨h, rfl⟩, fun ht => by rw [ht.2]⟩

/-! ## Constants and odds -/

theorem interpret_neverNegative {c : Constant} {market : Snapshot} {v : Outcome} (hc : c.WellFormed)
    (h : c.interpret market = .ok v) : Outcome.NeverNegative v := by
  cases c with
  | cancel => cases h; trivial
  | bool b =>
    unfold Constant.interpret at h
    dsimp only at h
    split at h
    · cases h
      trivial
    · cases h
  | number x =>
    unfold Constant.interpret at h
    dsimp only at h
    split at h
    · cases h
      trivial
    · cases h
      trivial
    all_goals
      split at h
      · cases h
      · cases h
        exact answer_neverNegative _
  | distribution weights =>
    unfold Constant.interpret at h
    dsimp only at h
    split at h
    · cases h
      exact fun e he => not_neg_of_le (hc e he).2
    · cases h

theorem ofProbability_neverNegative {resolved : Bool} {p a : Float} {v : Outcome}
    (h : Odds.ofProbability resolved p a = .settled v) : Outcome.NeverNegative v := by
  unfold Odds.ofProbability at h
  split at h
  · cases h
    trivial
  · split at h
    · cases h
    · cases h
      trivial

/-- Odds have no weights. -/
theorem amplifiedOdds_neverNegative {resolved : Bool} {value v : Outcome} {a : Nat}
    (h : amplifiedOdds resolved value a = .ok (.settled v)) : Outcome.NeverNegative v := by
  unfold amplifiedOdds at h
  split at h
  · cases h
  · unfold Odds.ofReference at h
    split at h
    · cases h
      trivial
    · exact ofProbability_neverNegative (Except.ok.inj h)
    · exact ofProbability_neverNegative (Except.ok.inj h)
    · exact ofProbability_neverNegative (Except.ok.inj h)
    · cases h

end Arbiter
