import Arbiter.Market.Pass
import Arbiter.Proofs.Pass.Weights
import Arbiter.Proofs.Rule.RoundTrip

/-!
# What markets resolve to is finite

Nothing on the way from the rules of a market to its proposal keeps a number from getting too great. So a proposal is
finite, and can be sent without a gap, exactly if what the rules come to can be fitted to the market without an overflow.

* `succeeds_resolveTo`: what a market resolves to is what its one value rule comes to, as it passes the last check.
* `Conforms.fits_of_bounded`: a probability always fits, and so does a number between two bounds.
* `resolutions_sound_iff`: when a proposal is finite. `heavyShares_unsound`: one that is not.
-/

namespace Arbiter

open PassM

variable {w : World} {market : Market} {seen : Snapshot} {now : Instant} {s t : Moment} {raw v : Outcome}

/-- What the market resolves to is what its one value rule comes to, as it passes the last check. -/
theorem succeeds_resolveTo : Succeeds w (market.resolveTo (worldPass seen now)) s v t ↔ ∃ r raw, market.values = [r] ∧
    Succeeds w (r.evaluate (worldPass seen now) [0]) s raw t ∧ Outcome.conform seen raw = .ok v := by
  unfold Market.resolveTo
  constructor
  · intro h
    split at h
    · rename_i r hr
      obtain ⟨raw, u, hraw, hfits⟩ := succeeds_bind.1 h
      obtain ⟨hconform, rfl⟩ := succeeds_ofExcept.1 hfits
      exact ⟨r, raw, hr, hraw, hconform⟩
    · exact absurd h not_succeeds_fail
  · rintro ⟨r, raw, hr, hraw, hconform⟩
    rw [hr]
    exact succeeds_bind.2 ⟨raw, t, hraw, succeeds_ofExcept.2 ⟨hconform, rfl⟩⟩

/-- All that the market resolves to lies between bounds. -/
def Snapshot.Bounded (m : Snapshot) : Prop :=
  m.outcomeType = .binary ∨ (m.outcomeType = .pseudoNumeric ∧ m.minValue.isSome = true ∧ m.maxValue.isSome = true)

theorem Conforms.fits_of_bounded (h : Conforms seen raw v) (hb : seen.Bounded) : raw.Fits seen := by
  cases h with
  | cancel | certainty | probability => trivial
  | numeric hm x =>
    obtain hb | ⟨-, hmin, hmax⟩ := hb
    · rw [hb] at hm
      cases hm
    · refine .inr ?_
      split
      · exact hmax
      · exact hmin
  | distribution hm =>
    obtain hb | ⟨hb, -⟩ := hb
    · rw [hb] at hm
      cases hm
    · rw [hb] at hm
      cases hm

/-- Where the bounds of a market are finite, its value rules were read and the world tells no weight less than zero, what
the market resolves to is finite, in full in its message, and on an answer if it has answers, exactly if what its rule came
to fits the market without an overflow. What a binary market or one with both bounds resolves to always does. -/
theorem resolutions_sound_iff (hbounds : seen.FinitelyBounded)
    (hread : ∀ r ∈ market.values, ∃ json, Rule.ofJson json = .ok (.value r)) (hw : w.NeverNegative)
    (hm : s.memory.NeverNegative) (h : Succeeds w (market.resolveTo (worldPass seen now)) s v t) :
    t.memory.NeverNegative ∧ (seen.Bounded → Sound seen v) ∧ ∃ r raw, market.values = [r] ∧
      Succeeds w (r.evaluate (worldPass seen now) [0]) s raw t ∧ Outcome.conform seen raw = .ok v ∧
      (Sound seen v ↔ raw.Fits seen) := by
  obtain ⟨r, raw, hvalues, heval, hconform⟩ := succeeds_resolveTo.1 h
  obtain ⟨json, hr⟩ := hread r (hvalues ▸ List.mem_singleton_self r)
  obtain ⟨hraw, ht⟩ := (grants_evaluate [0] r (Rule.wellFormed_of_ofJson hr)).of_succeeds hw hm heval
  have hiff := (conform_eq_ok_iff.1 hconform).sound_iff hbounds hraw
  exact ⟨ht, fun hb => hiff.2 ((conform_eq_ok_iff.1 hconform).fits_of_bounded hb), r, raw, hvalues, heval, hconform, hiff⟩

/-- Weights on two answers. -/
def twoShares (first second : Float) : Distribution Float := SortedMap.ofList [(0, first), (1, second)]

/-- A market that resolves to weights on its two answers. -/
def sharesMarket (first second : Float) : Market where
  snapshot := ⟨"a", "", "A?", .multipleChoice, none, none, false, ["x", "y"], none, false⟩
  triggers := [.thisMarketClosed none]
  values := [.constant (.distribution (twoShares first second))]
  checkRate := 1
  lastChecked := none
  notes := ""
  initialValues := none

section

variable {first second : Float}

/-- Its rule can be read. -/
theorem sharesMarket_read (hfirst : 0.0 ≤ first) (hsecond : 0.0 ≤ second) :
    ∀ r ∈ (sharesMarket first second).values, ∃ json, Rule.ofJson json = .ok (.value r) := by
  refine List.forall_mem_singleton.2 ⟨_, Rule.WellFormed.read_toJson (.node ?_ (List.forall_mem_nil _)) nofun⟩
  exact List.forall_mem_cons.2 ⟨⟨Nat.zero_le _, hfirst⟩, List.forall_mem_singleton.2 ⟨Nat.le_of_ble_eq_true rfl, hsecond⟩⟩

theorem sharesMarket_resolves (h : ¬0 + first + second ≤ 0) :
    Succeeds w ((sharesMarket first second).resolveTo (worldPass (sharesMarket first second).snapshot now)) s
      (.distribution (twoShares (first * 100 / (0 + first + second)) (second * 100 / (0 + first + second)))) s := by
  refine succeeds_resolveTo.2 ⟨_, _, rfl, succeeds_ofExcept.2 ⟨rfl, rfl⟩, ?_⟩
  exact conform_eq_ok_iff.2 (.distribution rfl rfl (normalize_eq_ok_iff.2 ⟨h, rfl⟩))

end

theorem still_neverNegative (now : Instant) : (World.still now).NeverNegative where
  currentValue _ _ _ h := by cases h
  otherMarket _ _ _ h := by cases h

/-- Without bounds there is nothing that could be infinite. -/
theorem sharesMarket_finitelyBounded (first second : Float) : (sharesMarket first second).snapshot.FinitelyBounded :=
  ⟨nofun, nofun⟩

/-- A quarter and three quarters are shares without an overflow. -/
theorem quarters_sound :
    let market := sharesMarket 1 3
    let start : Moment := ⟨[], Memory.empty, ⟨none, none⟩⟩
    let shares := twoShares (1 * 100 / (0 + 1 + 3)) (3 * 100 / (0 + 1 + 3))
    Succeeds (World.still ⟨0, 0⟩) (market.resolveTo (worldPass market.snapshot ⟨0, 0⟩)) start (.distribution shares)
        start ∧ Sound market.snapshot (.distribution shares) := by
  intro market start shares
  have hresolves : Succeeds (World.still ⟨0, 0⟩) (market.resolveTo (worldPass market.snapshot ⟨0, 0⟩)) start
      (.distribution shares) start := sharesMarket_resolves (by decide +kernel)
  obtain ⟨-, -, r, raw, hvalues, heval, -, hiff⟩ := resolutions_sound_iff (sharesMarket_finitelyBounded 1 3)
    (sharesMarket_read (by decide +kernel) (by decide +kernel)) (still_neverNegative ⟨0, 0⟩) Memory.neverNegative_empty
    hresolves
  obtain rfl := List.singleton_inj.1 hvalues
  obtain ⟨hraw, -⟩ := succeeds_ofExcept.1 heval
  obtain rfl := Except.ok.inj hraw
  exact ⟨hresolves, hiff.2 ⟨by decide +kernel, by decide +kernel⟩⟩

/-- Shares of weights whose sum overflows are no numbers, and the message names no answer. -/
theorem heavyShares_unsound :
    let market := sharesMarket 1e308 1e308
    let start : Moment := ⟨[], Memory.empty, ⟨none, none⟩⟩
    (∀ r ∈ market.values, ∃ json, Rule.ofJson json = .ok (.value r)) ∧ market.snapshot.FinitelyBounded ∧
    (World.still ⟨0, 0⟩).NeverNegative ∧ ∃ shares, ¬Outcome.IsFinite (.distribution shares) ∧
      Succeeds (World.still ⟨0, 0⟩) (market.resolveTo (worldPass market.snapshot ⟨0, 0⟩)) start (.distribution shares)
        start ∧
      ∃ message, resolutionMessage market.snapshot (.distribution shares) = .ok message ∧ namedAnswers message = [] := by
  intro market start
  refine ⟨sharesMarket_read (by decide +kernel) (by decide +kernel), sharesMarket_finitelyBounded _ _,
    still_neverNegative _, _, ?_, sharesMarket_resolves (by decide +kernel), _, resolutionMessage_distribution rfl _, ?_⟩
  · have hone : (1e308 * 100 / (0 + 1e308 + 1e308) : Float).isFinite = false := by decide +kernel
    intro h
    rw [h (0, _) List.mem_cons_self] at hone
    cases hone
  · have hnone : ¬(0 : Float) < 1e308 * 100 / (0 + 1e308 + 1e308) := by decide +kernel
    refine (namedAnswers_entriesMessage _).trans ?_
    rw [List.map_eq_nil_iff, List.filter_eq_nil_iff]
    exact List.forall_mem_cons.2 ⟨by simp [hnone], List.forall_mem_singleton.2 (by simp [hnone])⟩

end Arbiter
