import Arbiter.Pass.Value
import Arbiter.Proofs.Outcome.Exact
import Arbiter.Proofs.Pass.Moment

/-!
# Weighted unions read exactly

Over the rational numbers a weighted union is the weighted mean of what its shares come to. The loop over the shares
holds at each moment what the shares up to there make: their percentages mixed, or their probabilities added up, each in
proportion of its weight.

* `ComeTo`: shares evaluated one after another, and how their values are read.
* `Gathers`: what one more share does to a union. `ComeTo.endsAt_blend`: what all of them make of it.
* `gathers_spreads`, `gathers_chances`: shares of distributions, and of probabilities.
* `blend_exact`: unions, their percentages and their means.
-/

namespace Arbiter

open PassM

variable {α : Type} {w : World} {s t : Moment} {count : Nat} {total : ℚ}

/-- From one moment on shares come to values, one after another; each value is read as something. -/
inductive ComeTo (Reads : OutcomeValue ℚ → α → Prop) (w : World) :
    List (ℚ × PassM Course (OutcomeValue ℚ)) → Moment → List (ℚ × α) → Moment → Prop where
  | nil (s : Moment) : ComeTo Reads w [] s [] s
  | cons {weight : ℚ} {work : PassM Course (OutcomeValue ℚ)} {shares : List (ℚ × PassM Course (OutcomeValue ℚ))}
      {s t u : Moment} {v : OutcomeValue ℚ} {a : α} {taken : List (ℚ × α)} (hwork : Succeeds w work s v t)
      (hreads : Reads v a) (hrest : ComeTo Reads w shares t taken u) :
      ComeTo Reads w ((weight, work) :: shares) s ((weight, a) :: taken) u

/-- A proper distribution over `count` answers. -/
def Spreads (count : Nat) (v : OutcomeValue ℚ) (d : Distribution ℚ) : Prop := v = .distribution d ∧ d.Proper count

/-- A probability, or a truth value as the probability of what is certain. -/
inductive Chances : OutcomeValue ℚ → ℚ → Prop where
  | probability (p : ℚ) : Chances (.probability p) p
  | yes : Chances (.bool true) 100
  | no : Chances (.bool false) 0

/-! ## The loop -/

/-- What a union holds after some shares, if their values are read in this way. -/
structure Gathers (count : Nat) (total : ℚ) (Reads : OutcomeValue ℚ → α → Prop) (held : List (ℚ × α) → Blend ℚ) :
    Prop where
  start : held [] = .nothing
  stays : ∀ a, ¬Reads .cancel a
  step : ∀ before weight v a, Reads v a →
    (held before).add count (weight / total) v = .ok (held (before ++ [(weight, a)]))

variable {Reads : OutcomeValue ℚ → α → Prop} {held : List (ℚ × α) → Blend ℚ}
  {shares : List (ℚ × PassM Course (OutcomeValue ℚ))} {taken : List (ℚ × α)}

theorem ComeTo.weights (h : ComeTo Reads w shares s taken t) : taken.map (·.1) = shares.map (·.1) := by
  induction h with
  | nil => rfl
  | cons _ _ _ ih => rw [List.map_cons, List.map_cons, ih]

/-- The loop goes on from a value that does not cancel. -/
theorem endsAt_blendAll_next {weight : ℚ} {work : PassM Course (OutcomeValue ℚ)} {v : OutcomeValue ℚ}
    {sofar joined : Blend ℚ} (hv : v ≠ .cancel) (hwork : Succeeds w work s v t)
    (hjoined : sofar.add count (weight / total) v = .ok joined) :
    (blendAll count total sofar ((weight, work) :: shares)).endsAt w s =
      (blendAll count total joined shares).endsAt w t := by
  have hnext : (PassM.ofExcept (sofar.add count (weight / total) v) >>= fun joined =>
      blendAll count total joined shares).endsAt w t = (blendAll count total joined shares).endsAt w t := by
    rw [hjoined]
    exact congrArg (endsAt w · t) (pure_bind joined _)
  rw [blendAll, endsAt_bind, hwork]
  cases v with
  | cancel => exact absurd rfl hv
  | _ => exact hnext

/-- The loop over all shares. -/
theorem ComeTo.endsAt_blendAll (law : Gathers count total Reads held) (h : ComeTo Reads w shares s taken t) :
    ∀ before, (blendAll count total (held before) shares).endsAt w s =
      ((held (before ++ taken)).result.mapError Halt.fault, t) := by
  induction h with
  | nil s =>
    intro before
    rw [blendAll, endsAt_ofExcept, List.append_nil]
  | @cons weight work shares s t u v a taken hwork hreads hrest ih =>
    intro before
    have hv : v ≠ .cancel := by
      rintro rfl
      exact law.stays a hreads
    rw [endsAt_blendAll_next hv hwork (law.step before weight v a hreads), ih, List.append_assoc]
    rfl

/-- A union of fair shares ends with what they make. -/
theorem ComeTo.endsAt_blend (hw : FairShares (shares.map (·.1)))
    (law : Gathers count (shares.map (·.1)).sum Reads held) (h : ComeTo Reads w shares s taken t) :
    (blend count shares).endsAt w s = ((held taken).result.mapError Halt.fault, t) := by
  have htotal : shareTotal (shares.map (·.1)) = .ok (shares.map (·.1)).sum :=
    shareTotal_eq_ok_iff.2 ⟨not_le.2 hw.positive, List.sum_eq_foldl⟩
  rw [blend, htotal, endsAt_bind, endsAt_ofExcept]
  have hall := h.endsAt_blendAll law []
  rwa [law.start] at hall

theorem ComeTo.ne_nil (hw : FairShares (shares.map (·.1))) (h : ComeTo Reads w shares s taken t) : taken ≠ [] := by
  rintro rfl
  cases h
  exact absurd hw.positive (by simp)

/-! ## Distributions and probabilities -/

/-- The union of some distributions. -/
def heldUnion (total : ℚ) : List (ℚ × Distribution ℚ) → Blend ℚ
  | [] => .nothing
  | e :: rest => .distribution (unite total (e :: rest))

/-- The sum of some probabilities. -/
def heldSum (total : ℚ) : List (ℚ × ℚ) → Blend ℚ
  | [] => .nothing
  | e :: rest => .probability (portions total (e :: rest))

theorem gathers_spreads (count : Nat) (total : ℚ) : Gathers count total (Spreads count) (heldUnion total) where
  start := rfl
  stays := nofun
  step before weight v d hv := by
    obtain ⟨rfl, hd⟩ := hv
    have hmix : ∀ mixed : Distribution ℚ, Blend.mixScaled count mixed (weight / total) d =
        .ok (.distribution (Blend.mix mixed (weight / total) d.percentages)) := fun mixed => by
      rw [Blend.mixScaled, checkAnswers_eq_ok_iff.2 hd.known, Distribution.normalize_eq_ok hd.positive]
      rfl
    cases before with
    | nil => exact hmix SortedMap.empty
    | cons first rest =>
      refine (hmix _).trans ?_
      rw [← unite_snoc (weight, d)]
      rfl

theorem gathers_chances (count : Nat) (total : ℚ) : Gathers count total Chances (heldSum total) where
  start := rfl
  stays := nofun
  step before weight v p hv := by
    have hchance : Blend.asProbability v = .probability p := by
      cases hv with
      | _ => rfl
    cases before with
    | nil => simp [heldSum, Blend.add, hchance, portions, mul_comm]
    | cons first rest =>
      have hsum := portions_snoc total (first :: rest) (weight, p)
      rw [List.cons_append] at hsum ⊢
      simp [heldSum, Blend.add, hchance, hsum, mul_comm]

/-- Distributions come to their union. -/
theorem succeeds_blend_spreads {taken : List (ℚ × Distribution ℚ)} (hw : FairShares (shares.map (·.1)))
    (h : ComeTo (Spreads count) w shares s taken t) :
    Succeeds w (blend count shares) s (.distribution (unite (taken.map (·.1)).sum taken)) t := by
  have hends := h.endsAt_blend hw (gathers_spreads count _)
  cases taken with
  | nil => exact absurd rfl (h.ne_nil hw)
  | cons first rest => rwa [← h.weights] at hends

theorem ComeTo.spreads_proper {taken : List (ℚ × Distribution ℚ)} (h : ComeTo (Spreads count) w shares s taken t) :
    ∀ e ∈ taken, e.2.Proper count := by
  induction h with
  | nil => exact List.forall_mem_nil _
  | cons _ hreads _ ih => exact List.forall_mem_cons.2 ⟨hreads.2, ih⟩

/-- Probabilities come to their weighted mean. -/
theorem succeeds_blend_chances {taken : List (ℚ × ℚ)} (hw : FairShares (shares.map (·.1)))
    (h : ComeTo Chances w shares s taken t) :
    Succeeds w (blend count shares) s (.probability (weightedMean taken)) t := by
  have hends := h.endsAt_blend hw (gathers_chances count _)
  cases taken with
  | nil => exact absurd rfl (h.ne_nil hw)
  | cons first rest => rwa [← h.weights] at hends

/-- **A weighted union is the weighted mean of its shares.** Over fair shares, proper distributions over the market's
answers come to a proper distribution whose weights add up to a hundred and are the weighted means of the percentages,
whatever the scale of each distribution; probabilities and truth values come to their weighted mean, which lies between
them. To scale twice is to scale once, and keeps the ratio of any two weights. -/
theorem blend_exact (count : Nat) :
    (∀ (w : World) (shares : List (ℚ × PassM Course (OutcomeValue ℚ))) (s t : Moment)
        (taken : List (ℚ × Distribution ℚ)), FairShares (shares.map (·.1)) →
      ComeTo (Spreads count) w shares s taken t → ∃ mixed : Distribution ℚ,
        Succeeds w (blend count shares) s (.distribution mixed) t ∧ mixed.Proper count ∧ mixed.total = 100 ∧
        (∀ index, mixed.weight index =
          weightedMean (taken.map fun e => (e.1, e.2.weight index * 100 / e.2.total))) ∧
        ∀ (w' : World) (shares' : List (ℚ × PassM Course (OutcomeValue ℚ))) (s' t' : Moment)
          (taken' : List (ℚ × Distribution ℚ)), ComeTo (Spreads count) w' shares' s' taken' t' →
          Rescaled taken taken' →
          Succeeds w' (blend count shares') s' (.distribution mixed) t') ∧
    (∀ (w : World) (shares : List (ℚ × PassM Course (OutcomeValue ℚ))) (s t : Moment) (taken : List (ℚ × ℚ)),
      FairShares (shares.map (·.1)) → ComeTo Chances w shares s taken t →
        Succeeds w (blend count shares) s (.probability (weightedMean taken)) t ∧
        ∀ lo hi, (∀ e ∈ taken, e.2 ∈ Set.Icc lo hi) → weightedMean taken ∈ Set.Icc lo hi) ∧
    ∀ d : Distribution ℚ, (d.normalize >>= Distribution.normalize) = d.normalize ∧
      (0 < d.total → ∃ scaled, d.normalize = .ok scaled ∧
        ∀ i j, scaled.weight i / scaled.weight j = d.weight i / d.weight j) := by
  refine ⟨fun w shares s t taken hw h => ?_, fun w shares s t taken hw h => ?_, fun d => ?_⟩
  · have hfair : FairShares (taken.map (·.1)) := h.weights ▸ hw
    have hproper : ∀ e ∈ taken, e.2.Proper count := h.spreads_proper
    refine ⟨unite (taken.map (·.1)).sum taken, ?_, ?_, ?_, ?_, ?_⟩
    · exact succeeds_blend_spreads hw h
    · exact proper_unite hfair hproper
    · exact total_unite hfair hproper
    · exact fun index => weight_unite index
    intro w' shares' s' t' taken' h' hscaled
    have hweights : taken'.map (·.1) = taken.map (·.1) := hscaled.weights
    have hw' : FairShares (shares'.map (·.1)) := h'.weights ▸ hweights ▸ hfair
    rw [← hscaled.unite_eq, ← hweights]
    exact succeeds_blend_spreads hw' h'
  · have hfair : FairShares (taken.map (·.1)) := h.weights ▸ hw
    exact ⟨succeeds_blend_chances hw h, fun _ _ hbounds => weightedMean_mem_Icc hfair hbounds⟩
  · exact ⟨d.normalize_normalize, fun hd => ⟨d.percentages, Distribution.normalize_eq_ok hd,
      Distribution.weight_percentages_div hd.ne'⟩⟩

/-- Two distributions on different scales, and then a truth value and a probability, with weights of one to three. -/
theorem blend_twoShares :
    let w := World.still ⟨1709298000, 0⟩
    let s : Moment := ⟨[], .empty, .empty⟩
    let first : Distribution ℚ := SortedMap.ofList [(0, 1), (1, 3)]
    let second : Distribution ℚ := SortedMap.single 1 2
    FairShares [1, 3] ∧ first.Proper 2 ∧ second.Proper 2 ∧
      (∃ mixed : Distribution ℚ,
        Succeeds w (blend 2 [(1, pure (.distribution first)), (3, pure (.distribution second))]) s
          (.distribution mixed) s ∧
        mixed.total = 100 ∧ mixed.weight 0 = 25 / 4 ∧ mixed.weight 1 = 375 / 4) ∧
      Succeeds w (blend 2 [(1, pure (.bool true)), (3, pure (.probability (20 : ℚ)))]) s (.probability 40) s ∧
      ∃ scaled, first.normalize = .ok scaled ∧ scaled.weight 0 / scaled.weight 1 = 1 / 3 := by
  intro w s first second
  have hfair : FairShares [1, 3] := ⟨by decide +kernel, by decide +kernel⟩
  have hfirst : first.Proper 2 := ⟨by decide +kernel, by decide +kernel, by decide +kernel⟩
  have hsecond : second.Proper 2 := ⟨by decide +kernel, by decide +kernel, by decide +kernel⟩
  obtain ⟨hspreads, hchances, hnormalize⟩ := blend_exact 2
  refine ⟨hfair, hfirst, hsecond, ?_, ?_, ?_⟩
  · obtain ⟨mixed, hmixed, -, htotal, hweight, -⟩ := hspreads w [(1, pure (.distribution first)),
      (3, pure (.distribution second))] s s [(1, first), (3, second)] hfair
      (.cons (succeeds_pure.2 ⟨rfl, rfl⟩) ⟨rfl, hfirst⟩ (.cons (succeeds_pure.2 ⟨rfl, rfl⟩) ⟨rfl, hsecond⟩ (.nil s)))
    refine ⟨mixed, hmixed, htotal, (hweight 0).trans ?_, (hweight 1).trans ?_⟩
    · decide +kernel
    · decide +kernel
  · have hmean : weightedMean [(1, 100), (3, 20)] = 40 := by decide +kernel
    rw [← hmean]
    exact (hchances w [(1, pure (.bool true)), (3, pure (.probability 20))] s s [(1, 100), (3, 20)] hfair
      (.cons (succeeds_pure.2 ⟨rfl, rfl⟩) .yes (.cons (succeeds_pure.2 ⟨rfl, rfl⟩) (.probability 20) (.nil s)))).1
  · obtain ⟨scaled, hscaled, hratio⟩ := (hnormalize first).2 hfirst.positive
    refine ⟨scaled, hscaled, (hratio 0 1).trans ?_⟩
    decide +kernel

/-- **A distribution over an unknown answer is not mixed.** The only share is a whole one and no weight is negative, and
yet two answers have no union with the third. -/
theorem blend_unknownAnswer :
    let d : Distribution ℚ := SortedMap.single 2 100
    FairShares [1] ∧ (∀ e ∈ d.entries, 0 ≤ e.2) ∧ 0 < d.total ∧
      (blend 2 [(1, pure (.distribution d))] : PassM Course (OutcomeValue ℚ)).runFrom .empty =
        pure (.error (.fault (.mismatch (.answersBelow 2) (.answerIndex 2))), .empty) := by
  intro d
  refine ⟨⟨by decide +kernel, by decide +kernel⟩, by decide +kernel, by decide +kernel, ?_⟩
  have htotal : shareTotal [(1 : ℚ)] = .ok 1 := shareTotal_eq_ok_iff.2 ⟨by decide +kernel, by decide +kernel⟩
  rw [blend]
  change (PassM.ofExcept (shareTotal [(1 : ℚ)]) >>= _ : PassM Course (OutcomeValue ℚ)).runFrom .empty = _
  rw [htotal]
  rfl

end Arbiter
