import Arbiter.Outcome.Odds
import Arbiter.Proofs.Double.Hundredths
import Mathlib.Algebra.Order.Field.Rat
import Mathlib.Order.Monotone.Basic
import Mathlib.Tactic.FieldSimp
import Mathlib.Tactic.Linarith

/-!
# Amplified odds

What the odds of a reference come to does not depend on how numbers are computed with, except at the two ends of the
percentages: a double counts as zero as soon as its hundredth does.

* `Odds.Amplifies`: the laws of the formula read exactly. `Odds.amplifies`: they hold for a factor of one at least.
* `Odds.Follows`: what the value of a reference comes to, by the percentages that count as NO and as YES.
  `Odds.Follows.drawn_iff`: when chance has to decide.
* `amplifiedOdds_follows`: the doubles that count as NO and as YES.
-/

namespace Arbiter

namespace Odds

/-! ## The formula read exactly -/

section

variable {a b p q : ℚ}

theorem divisor_pos (ha : 1 ≤ a) (hp : 0 ≤ p) (hp' : p ≤ 1) : 0 < p + (1 - p) / a := by
  have hrest : 0 ≤ (1 - p) / a := div_nonneg (by linarith) (by linarith)
  rcases hp.eq_or_lt with rfl | hpos
  · simp only [sub_zero, zero_add]
    positivity
  · linarith

/-- The formula with one division. -/
theorem amplify_eq (ha : 1 ≤ a) (hp : 0 ≤ p) (hp' : p ≤ 1) : amplify p a = a * p / (1 + (a - 1) * p) * 100 := by
  have hdivisor := (divisor_pos ha hp hp').ne'
  have ha' : a ≠ 0 := by positivity
  have hone : 1 + (a - 1) * p = a * (p + (1 - p) / a) := by
    field_simp
    ring
  rw [amplify, hone, mul_div_mul_left _ _ ha']

theorem one_divisor_pos (ha : 1 ≤ a) (hp : 0 ≤ p) : 0 < 1 + (a - 1) * p := by
  have := mul_nonneg (sub_nonneg.2 ha) hp
  linarith

/-- The odds are not below the probability that is amplified, and they stay percentages. -/
theorem amplify_mem (ha : 1 ≤ a) (hp : 0 ≤ p) (hp' : p ≤ 1) : amplify p a ∈ Set.Icc (p * 100) 100 := by
  have hpos := one_divisor_pos ha hp
  rw [amplify_eq ha hp hp']
  constructor
  · have hlower : p ≤ a * p / (1 + (a - 1) * p) := by
      rw [le_div_iff₀ hpos]
      nlinarith [mul_nonneg (mul_nonneg hp (sub_nonneg.2 ha)) (sub_nonneg.2 hp')]
    linarith
  · have hupper : a * p / (1 + (a - 1) * p) ≤ 1 := by
      rw [div_le_one hpos]
      linarith
    linarith

theorem amplify_le_of_probability (ha : 1 ≤ a) (hp : 0 ≤ p) (hq : q ≤ 1) (h : p ≤ q) : amplify p a ≤ amplify q a := by
  rw [amplify_eq ha hp (h.trans hq), amplify_eq ha (hp.trans h) hq]
  have hquot : a * p / (1 + (a - 1) * p) ≤ a * q / (1 + (a - 1) * q) := by
    rw [div_le_div_iff₀ (one_divisor_pos ha hp) (one_divisor_pos ha (hp.trans h))]
    nlinarith
  linarith

theorem amplify_le_of_factor (ha : 1 ≤ a) (hp : 0 ≤ p) (hp' : p ≤ 1) (h : a ≤ b) : amplify p a ≤ amplify p b := by
  rw [amplify_eq ha hp hp', amplify_eq (ha.trans h) hp hp']
  have hquot : a * p / (1 + (a - 1) * p) ≤ b * p / (1 + (b - 1) * p) := by
    rw [div_le_div_iff₀ (one_divisor_pos ha hp) (one_divisor_pos (ha.trans h) hp)]
    nlinarith [mul_nonneg (mul_nonneg hp (sub_nonneg.2 hp')) (sub_nonneg.2 h)]
  linarith

/-- The laws of the formula at a factor, for the percentages of open references. -/
structure Amplifies (a : ℚ) : Prop where
  /-- Nothing is divided by zero. -/
  divisors : ∀ p ∈ Set.Icc (0 : ℚ) 100, a ≠ 0 ∧ p / 100 + (1 - p / 100) / a ≠ 0
  formula : ∀ p ∈ Set.Icc (0 : ℚ) 100,
    ofReference false (.probability p) a = .ok (.settled (.probability (amplify (p / 100) a)))
  bounds : ∀ p ∈ Set.Icc (0 : ℚ) 100, amplify (p / 100) a ∈ Set.Icc p 100
  monotone_probability : MonotoneOn (fun p => amplify (p / 100) a) (Set.Icc 0 100)
  monotone_factor : ∀ p ∈ Set.Icc (0 : ℚ) 100, ∀ b, a ≤ b → amplify (p / 100) a ≤ amplify (p / 100) b
  zero : amplify (0 / 100) a = 0
  hundred : amplify (100 / 100) a = 100

/-- With a factor of one at least the laws hold. -/
theorem amplifies (ha : 1 ≤ a) : Amplifies a where
  divisors p hp := by
    obtain ⟨hp, hp'⟩ := hp
    have hpos := divisor_pos ha (by linarith : 0 ≤ p / 100) (by linarith)
    exact ⟨by positivity, hpos.ne'⟩
  formula p hp := rfl
  bounds p hp := by
    obtain ⟨hp, hp'⟩ := hp
    have hmem := amplify_mem ha (by linarith : 0 ≤ p / 100) (by linarith)
    rwa [div_mul_cancel₀ p (by norm_num)] at hmem
  monotone_probability := by
    rintro p ⟨hp, -⟩ q ⟨-, hq⟩ h
    exact amplify_le_of_probability ha (by linarith) (by linarith) (by linarith)
  monotone_factor p hp b h := by
    obtain ⟨hp, hp'⟩ := hp
    exact amplify_le_of_factor ha (by linarith) (by linarith) h
  zero := by simp [amplify]
  hundred := by simp [amplify]

/-- The factor one leaves every probability as it is. -/
theorem amplify_one (p : ℚ) : amplify (p / 100) 1 = p := by
  rw [amplify]
  ring

end

/-! ## What a reference comes to -/

/-- What a value says as a percentage, if it is about one event. -/
def percent? {ν : Type} [OfNat ν 0] [OfNat ν 100] : OutcomeValue ν → Option ν
  | .bool true => some 100
  | .bool false => some 0
  | .probability p => some p
  | .numeric _ | .distribution _ | .cancel => none

section

variable {ν : Type} [Add ν] [Sub ν] [Mul ν] [Div ν] [OfNat ν 0] [OfNat ν 1] [OfNat ν 100]

/-- What the value of a reference comes to with the factor `a`, where some percentages count as NO and some as YES once
the reference is resolved. -/
inductive Follows (no yes : ν → Prop) (resolved : Bool) (a : ν) : OutcomeValue ν → Except RuleFault (Odds ν) → Prop
  | cancelled : Follows no yes resolved a .cancel (.ok (.settled .cancel))
  | numeric (x : ν) :
      Follows no yes resolved a (.numeric x) (.error (.mismatch (.variant .probability) (.variant .numeric)))
  | distribution (d : Distribution ν) :
      Follows no yes resolved a (.distribution d) (.error (.mismatch (.variant .probability) (.variant .distribution)))
  | yes {value : OutcomeValue ν} {p : ν} (hvalue : percent? value = some p) (hr : resolved = true) (hp : yes p) :
      Follows no yes resolved a value (.ok (.settled (.bool true)))
  | no {value : OutcomeValue ν} {p : ν} (hvalue : percent? value = some p) (hr : resolved = true) (hp : no p) :
      Follows no yes resolved a value (.ok (.drawn (1 / a)))
  | between {value : OutcomeValue ν} {p : ν} (hvalue : percent? value = some p)
      (hp : resolved = true → ¬no p ∧ ¬yes p) :
      Follows no yes resolved a value (.ok (.settled (.probability (amplify (p / 100) a))))

variable {no yes : ν → Prop} {resolved : Bool} {a : ν} {value : OutcomeValue ν} {result : Except RuleFault (Odds ν)}

/-- Chance decides exactly where a resolved reference counts as NO. -/
theorem Follows.drawn_iff (h : Follows no yes resolved a value result) (hne : ∀ p, no p → ¬yes p) :
    (∃ chance, result = .ok (.drawn chance)) ↔ resolved = true ∧ ∃ p, percent? value = some p ∧ no p := by
  cases h with
  | cancelled | numeric | distribution => simp [percent?]
  | yes hvalue hr hp =>
    refine iff_of_false nofun ?_
    rintro ⟨-, p, hp', hno⟩
    obtain rfl := Option.some.inj (hvalue.symm.trans hp')
    exact hne _ hno hp
  | no hvalue hr hp => exact iff_of_true ⟨_, rfl⟩ ⟨hr, _, hvalue, hp⟩
  | between hvalue hp =>
    refine iff_of_false nofun ?_
    rintro ⟨hr, p, hp', hno⟩
    obtain rfl := Option.some.inj (hvalue.symm.trans hp')
    exact (hp hr).1 hno

/-- It is the hundredth of the percentage that is compared. -/
theorem follows_ofReference [LE ν] [DecidableLE ν] (hzero : (0 : ν) / 100 = 0) (hone : (100 : ν) / 100 = 1)
    (hno : ∀ p : ν, p / 100 ≤ 0 ↔ no p) (hyes : ∀ p : ν, 1 ≤ p / 100 ↔ yes p) (resolved : Bool) (a : ν) (value : OutcomeValue ν) :
    Follows no yes resolved a value (ofReference resolved value a) := by
  have hpercent : ∀ p, percent? value = some p →
      Follows no yes resolved a value (.ok (ofProbability resolved (p / 100) a)) := by
    intro p hp
    have hcount : ∀ (q : Prop) [Decidable q], (resolved && Decidable.decide q) = true ↔ resolved = true ∧ q := by simp
    unfold ofProbability
    split
    case isTrue hy =>
      rw [hcount, hyes] at hy
      exact .yes hp hy.1 hy.2
    case isFalse hy =>
    rw [hcount, hyes] at hy
    split
    case isTrue hn =>
      rw [hcount, hno] at hn
      exact .no hp hn.1 hn.2
    case isFalse hn =>
      rw [hcount, hno] at hn
      exact .between hp fun hr => ⟨fun h => hn ⟨hr, h⟩, fun h => hy ⟨hr, h⟩⟩
  cases value with
  | cancel => exact .cancelled
  | numeric x => exact .numeric x
  | distribution d => exact .distribution d
  | probability p => exact hpercent p rfl
  | bool b =>
    cases b with
    | true =>
      have h := hpercent 100 rfl
      rwa [hone] at h
    | false =>
      have h := hpercent 0 rfl
      rwa [hzero] at h

end

/-- Read exactly, only zero and less count as NO. -/
theorem ofReference_follows (resolved : Bool) (a : ℚ) (value : OutcomeValue ℚ) :
    Follows (· ≤ 0) (100 ≤ ·) resolved a value (ofReference resolved value a) := by
  refine follows_ofReference (by norm_num) (by norm_num) (fun p => ?_) (fun p => ?_) resolved a value
  · rw [div_le_iff₀ (by norm_num), zero_mul]
  · rw [le_div_iff₀ (by norm_num), one_mul]

end Odds

/-- Of the doubles also the least positive ones count as NO. -/
theorem amplifiedOdds_follows {a : ℕ} (ha : 1 ≤ a) (resolved : Bool) (value : Outcome) :
    Odds.Follows (· ≤ Float.ofBits 50) (100 ≤ ·) resolved (floatOfInt a) value (amplifiedOdds resolved value a) := by
  rw [amplifiedOdds, if_neg (by omega)]
  exact Odds.follows_ofReference rfl rfl hundredth_le_zero_iff one_le_hundredth_iff resolved (floatOfInt a) value

theorem not_yes_of_no {p : Float} (h : p ≤ Float.ofBits 50) : ¬100 ≤ p := by
  rw [← hundredth_le_zero_iff] at h
  rw [← one_le_hundredth_iff]
  exact one_hasValue.not_le_of_le_zero one_pos h

end Arbiter
