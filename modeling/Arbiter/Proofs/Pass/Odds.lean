import Arbiter.Pass.Value
import Arbiter.Proofs.Chance.Reciprocal
import Arbiter.Proofs.Outcome.Odds
import Arbiter.Proofs.Pass.Moment

/-!
# Amplified odds in a pass

The work of amplified odds reads the reference, and what the reference says settles the value or leaves it to chance.
Only then a number is drawn.

* `Odds.Ends`: how the work ends after the reference was read. `amplified_ends`: it does so.
* `amplifiedOdds_wellBehaved`: the odds of open references, and what resolved ones come to.
-/

namespace Arbiter

variable {market : Snapshot} {now : Instant} {node : List Nat} {seed : Option Seed} {url : String} {a : ℕ} {w : World}
  {s u : Moment}

/-- How the work ends after the reference was read: on the spot, unless chance has to decide. Then one of the numbers
`k / 2 ^ 53` is drawn and compared with one in `a`. -/
inductive Odds.Ends (market : Snapshot) (now : Instant) (node : List Nat) (seed : Option Seed) (a : ℕ) (w : World)
    (u : Moment) : Except RuleFault (Odds Float) → Except Halt Outcome × Moment → Prop
  | refused (fault : RuleFault) : Ends market now node seed a w u (.error fault) (.error (.fault fault), u)
  | settled (value : Outcome) : Ends market now node seed a w u (.ok (.settled value)) (.ok value, u)
  | drawn {g : Generator} {t : Moment} {k : ℕ} (chance : Float)
      (hg : ((worldPass market now).generator node seed).endsAt w u = (.ok g, t)) (hk : k < 2 ^ 53)
      (hdraw : HasValue g.unit.1 (k * 2 ^ (-53 : ℤ))) :
      Ends market now node seed a w u (.ok (.drawn chance))
        (.ok (if (k * 2 ^ (-53 : ℤ) : ℚ) < 1 / a then .bool false else .cancel), t)

/-- Where chance decides, it does so with one in `a`. -/
theorem chance_of_drawn {resolved : Bool} {value : Outcome} {chance : Float}
    (h : amplifiedOdds resolved value a = .ok (.drawn chance)) : 1 ≤ a ∧ chance = 1 / floatOfInt a := by
  have ha : 1 ≤ a := by
    by_contra! hzero
    rw [amplifiedOdds, if_pos (by omega)] at h
    cases h
  have hfollows := amplifiedOdds_follows ha resolved value
  rw [h] at hfollows
  cases hfollows
  exact ⟨ha, rfl⟩

theorem amplified_ends {reference : Reference} (ha : a ≤ word64Max)
    (hread : PassM.Succeeds w ((worldPass market now).otherMarket url) s reference u) :
    Odds.Ends market now node seed a w u (amplifiedOdds reference.resolved reference.value a)
      (((ValueRule.amplifiedOdds url a seed).evaluate (worldPass market now) node).endsAt w s) := by
  rw [ValueRule.evaluate, Pass.amplified, PassM.endsAt_bind, hread]
  dsimp only
  rw [PassM.endsAt_bind, PassM.endsAt_ofExcept]
  cases hodds : amplifiedOdds reference.resolved reference.value a with
  | error fault => exact .refused fault
  | ok odds =>
    cases odds with
    | settled value =>
      dsimp only [Except.mapError]
      rw [PassM.endsAt_pure]
      exact .settled value
    | drawn chance =>
      obtain ⟨hpos, rfl⟩ := chance_of_drawn hodds
      obtain ⟨g, t, hg⟩ := PassM.endsAt_generator market now node seed w u
      obtain ⟨k, hk, hdraw⟩ := unit_hasValue g
      dsimp only [Except.mapError]
      rw [PassM.endsAt_bind, hg]
      dsimp only
      rw [PassM.endsAt_pure, Odds.decide]
      simp only [drawn_lt_iff hpos ha hk hdraw]
      exact .drawn _ hg hk hdraw

/-- Amplified odds are well behaved. Read exactly, with a factor of one at least, the laws of the formula hold, and only
zero and less counts as NO once the reference is resolved. Of doubles also the least positive ones do. Chance decides
exactly where a resolved reference counts as NO: then a number is drawn, and the value is NO if it is below one in `a`. The
factor zero is refused. -/
theorem amplifiedOdds_wellBehaved :
    (∀ a : ℚ, 1 ≤ a → Odds.Amplifies a ∧ ∀ (resolved : Bool) (value : OutcomeValue ℚ),
      Odds.Follows (· ≤ 0) (100 ≤ ·) resolved a value (Odds.ofReference resolved value a)) ∧
    (∀ p ∈ Set.Icc (0 : ℚ) 100, Odds.amplify (p / 100) 1 = p) ∧
    (∀ (a : ℕ) (resolved : Bool) (value : Outcome), 1 ≤ a →
      Odds.Follows (· ≤ Float.ofBits 50) (100 ≤ ·) resolved (floatOfInt a) value (amplifiedOdds resolved value a) ∧
      ((∃ chance, amplifiedOdds resolved value a = .ok (.drawn chance)) ↔
        resolved = true ∧ ∃ p, Odds.percent? value = some p ∧ p ≤ Float.ofBits 50)) ∧
    (∀ (resolved : Bool) (value : Outcome), amplifiedOdds resolved value 0 = .error (.value .noAmplification)) ∧
    ∀ (market : Snapshot) (now : Instant) (node : List Nat) (url : String) (a : ℕ) (seed : Option Seed) (w : World)
      (s u : Moment) (reference : Reference),
      a ≤ word64Max → PassM.Succeeds w ((worldPass market now).otherMarket url) s reference u →
      Odds.Ends market now node seed a w u (amplifiedOdds reference.resolved reference.value a)
        (((ValueRule.amplifiedOdds url a seed).evaluate (worldPass market now) node).endsAt w s) := by
  refine ⟨fun a ha => ⟨Odds.amplifies ha, fun resolved value => Odds.ofReference_follows resolved a value⟩,
    fun p _ => Odds.amplify_one p, fun a resolved value ha => ?_, fun _ _ => rfl,
    fun _ _ _ _ _ _ _ _ _ _ => amplified_ends⟩
  have hfollows := amplifiedOdds_follows ha resolved value
  exact ⟨hfollows, hfollows.drawn_iff fun _ => not_yes_of_no⟩

/-- A world in which every other market is resolved to NO. -/
def deniedWorld : World where
  answer past
    | .otherMarket _ => .ok ⟨"B?", true, true, .bool false⟩
    | q => (World.still ⟨0, 0⟩).answer past q

/-- With the factor four the odds of one in five become even, and a NO stands or is cancelled. -/
theorem amplifiedOdds_byFour :
    let market : Snapshot := ⟨"a", "", "A?", .binary, none, none, false, [], none, false⟩
    let work := (ValueRule.amplifiedOdds "b" 4 (some (.number 1))).evaluate (worldPass market ⟨0, 0⟩) []
    Odds.amplify (20 / 100) 4 = (50 : ℚ) ∧ Odds.amplify (20 / 100) 4 ∈ Set.Icc (20 : ℚ) 100 ∧
      Odds.amplify (20 / 100) 1 = (20 : ℚ) ∧
    (∃ chance, amplifiedOdds true (.bool false) 4 = .ok (.drawn chance)) ∧
    ∃ v t, PassM.Succeeds deniedWorld work ⟨[], .empty, .empty⟩ v t ∧ (v = .bool false ∨ v = .cancel) := by
  intro market work
  obtain ⟨hexact, hone, hdoubles, -, hpass⟩ := amplifiedOdds_wellBehaved
  have hpercent : (20 : ℚ) ∈ Set.Icc (0 : ℚ) 100 := ⟨by norm_num, by norm_num⟩
  obtain ⟨hamplifies, -⟩ := hexact 4 (by norm_num)
  obtain ⟨-, hdrawn⟩ := hdoubles 4 true (.bool false) (by decide)
  obtain ⟨chance, hchance⟩ := hdrawn.2 ⟨rfl, 0, rfl, by decide +kernel⟩
  have hread : ∃ u, PassM.Succeeds deniedWorld ((worldPass market ⟨0, 0⟩).otherMarket "b") ⟨[], .empty, .empty⟩
      ⟨"B?", true, true, .bool false⟩ u := ⟨_, rfl⟩
  obtain ⟨u, hread⟩ := hread
  have hends := hpass market ⟨0, 0⟩ [] "b" 4 (some (.number 1)) deniedWorld _ u _ (by decide) hread
  rw [hchance] at hends
  refine ⟨by norm_num [Odds.amplify], hamplifies.bounds 20 hpercent, hone 20 hpercent, ⟨chance, hchance⟩, ?_⟩
  generalize hresult : PassM.endsAt deniedWorld work ⟨[], .empty, .empty⟩ = result at hends
  cases hends with
  | drawn _ hg hk hdraw =>
    refine ⟨_, _, hresult, ?_⟩
    split
    · exact .inl rfl
    · exact .inr rfl

/-- The least positive percentage counts as NO once it is the value of a resolved reference, so that chance can cancel it;
and with the factor zero not even a reference without a value is accepted. -/
theorem leastPercentage_drawn :
    0 < Float.ofBits 1 ∧ Float.ofBits 1 < 100 ∧
    amplifiedOdds true (.probability (Float.ofBits 1)) 2 = .ok (.drawn 0.5) ∧
    Odds.decide (0.5 : Float) 0.75 = .cancel ∧
    amplifiedOdds false .cancel 0 = .error (.value .noAmplification) := by
  have hyes : ¬(true && decide (1 ≤ Float.ofBits 1 / 100)) = true := by decide +kernel
  have hno : (true && decide (Float.ofBits 1 / 100 ≤ 0)) = true := by decide +kernel
  have hchance : 1 / floatOfInt 2 = 0.5 := by decide +kernel
  have hodds : Odds.ofProbability true (Float.ofBits 1 / 100) (floatOfInt 2) = .drawn 0.5 := by
    rw [Odds.ofProbability, if_neg hyes, if_pos hno, hchance]
  refine ⟨by decide +kernel, by decide +kernel, ?_, by decide +kernel, rfl⟩
  rw [amplifiedOdds, if_neg (by decide), ← hodds]
  rfl

end Arbiter
