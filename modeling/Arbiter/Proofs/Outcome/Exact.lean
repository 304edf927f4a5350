import Arbiter.Proofs.Outcome.Combine
import Mathlib.Algebra.BigOperators.Group.List.Basic
import Mathlib.Algebra.Order.BigOperators.Group.List
import Mathlib.Algebra.Order.Field.Rat
import Mathlib.Order.Interval.Set.Defs
import Mathlib.Tactic.NormNum
import Mathlib.Tactic.Ring

/-!
# Weights read exactly

Over the rational numbers nothing is rounded, and the arithmetic of weights has its exact laws. The loop over the
entries of a distribution is met in one place only: let each answer count for something, then the tally of a mixture is
the tally of what there was and the fraction of the tally of what is mixed in. The total is the tally in which all
answers count alike, and the weight of an answer the one in which only this answer counts.

* `Distribution.weight`, `Distribution.tally`: the weight of an answer, and all weights by what each answer counts for.
* `Distribution.tally_alter`, `Distribution.tally_mix`: one answer of a mixture, and all of them.
* `Distribution.percentages`: the weights as parts of a hundred. `normalize_normalize`,
  `weight_percentages_div`, `percentages_rescale`: to scale twice is to scale once, and neither ratios nor the scale of
  the weights matter to it.
* `weightedMean`: the mean of numbers with weights. `weightedMean_mem_Icc`: it lies between them.
* `unite`: percentages mixed share by share. `tally_unite`, `total_unite`, `mem_keys_unite`: its tallies are the
  weighted means of theirs, its weights add up to a hundred, and it has the answers of all shares.
-/

namespace Arbiter

namespace Distribution

/-- The weight of an answer; an answer without an entry has none. -/
def weight (d : Distribution ℚ) (index : Nat) : ℚ := (SortedMap.lookup d index).getD 0

/-- All weights by what each answer counts for. -/
def tally (f : Nat → ℚ) (d : Distribution ℚ) : ℚ := (d.entries.map fun e => e.2 * f e.1).sum

variable {d mixed : Distribution ℚ} {f : Nat → ℚ}

/-- No answer has a negative weight if no entry is one. -/
theorem weight_nonneg_iff : (∀ index, 0 ≤ d.weight index) ↔ ∀ e ∈ d.entries, 0 ≤ e.2 := by
  constructor
  · intro h e he
    have hweight : d.weight e.1 = e.2 := by rw [weight, SortedMap.lookup_eq_some_iff.2 he, Option.getD_some]
    exact hweight ▸ h e.1
  · intro h index
    rw [weight]
    cases hlookup : SortedMap.lookup d index with
    | none => exact le_rfl
    | some x => exact h _ (SortedMap.lookup_eq_some_iff.1 hlookup)

/-! ## Tallies -/

/-- The total is the tally in which all answers count alike. -/
theorem total_eq_tally (d : Distribution ℚ) : total d = tally (fun _ => 1) d := by
  simp [total, tally, SortedMap.values, List.sum_eq_foldl]

theorem find?_eq_none_of_lt {k : Nat} {entries : List (Nat × ℚ)} (h : ∀ e ∈ entries, compare k e.1 = .lt) :
    (entries.find? fun e => compare k e.1 == .eq) = none := by
  rw [List.find?_eq_none]
  intro e he
  simp [h e he]

/-- The entry of a key among entries with ascending keys. -/
theorem sum_map_ite_eq (index : Nat) : ∀ {entries : List (Nat × ℚ)},
    (entries.Pairwise fun a b => compare a.1 b.1 = .lt) →
      (entries.map fun e => e.2 * if e.1 = index then 1 else 0).sum =
        ((entries.find? fun e => compare index e.1 == .eq).map (·.2)).getD 0
  | [], _ => rfl
  | (j, x) :: rest, h => by
    obtain ⟨hfirst, hrest⟩ := List.pairwise_cons.1 h
    have ih := sum_map_ite_eq index hrest
    by_cases hj : j = index
    · subst hj
      rw [find?_eq_none_of_lt hfirst] at ih
      simpa using ih
    · have hne : ¬compare index j = .eq := fun he => hj (Std.LawfulEqCmp.eq_of_compare he).symm
      simpa [hj, hne] using ih

/-- The weight of an answer is the tally in which only this answer counts. -/
theorem weight_eq_tally (d : Distribution ℚ) (index : Nat) :
    d.weight index = tally (fun j => if j = index then 1 else 0) d :=
  (sum_map_ite_eq index d.ascending).symm

/-- An entry that is put in its place counts in place of the old one. -/
theorem sum_insertEntry {k : Nat} {v : ℚ} : ∀ {entries : List (Nat × ℚ)},
    (entries.Pairwise fun a b => compare a.1 b.1 = .lt) →
      ((SortedMap.insertEntry k v entries).map fun e => e.2 * f e.1).sum =
        (entries.map fun e => e.2 * f e.1).sum +
          (v - ((entries.find? fun e => compare k e.1 == .eq).map (·.2)).getD 0) * f k
  | [], _ => by simp [SortedMap.insertEntry]
  | (j, x) :: rest, h => by
    obtain ⟨hfirst, hrest⟩ := List.pairwise_cons.1 h
    rw [SortedMap.insertEntry]
    split
    case h_1 hk =>
      -- A key before all others has no old entry.
      have hbefore : ∀ e ∈ (j, x) :: rest, compare k e.1 = .lt :=
        List.forall_mem_cons.2 ⟨hk, fun e he => Std.TransCmp.lt_trans hk (hfirst e he)⟩
      rw [find?_eq_none_of_lt hbefore]
      simp [add_comm]
    case h_2 hk =>
      obtain rfl : k = j := Std.LawfulEqCmp.eq_of_compare hk
      have hold : (((k, x) :: rest).find? fun e => compare k e.1 == .eq) = some (k, x) := by simp
      simp only [hold, List.map_cons, List.sum_cons, Option.map_some, Option.getD_some]
      ring
    case h_3 hk =>
      rw [List.map_cons, List.sum_cons, sum_insertEntry hrest]
      simp [hk, add_assoc]

/-- What is added to the weight of one answer. -/
theorem tally_alter (mixed : Distribution ℚ) (k : Nat) (x : ℚ) :
    tally f (mixed.alter k fun old => old.getD 0 + x) = tally f mixed + x * f k := by
  refine (sum_insertEntry mixed.ascending).trans ?_
  rw [← SortedMap.lookup, add_sub_cancel_left]
  rfl

/-- A mixture counts as what there was and a fraction of what is mixed in. -/
theorem tally_mix (mixed : Distribution ℚ) (fraction : ℚ) (d : Distribution ℚ) :
    tally f (Blend.mix mixed fraction d) = tally f mixed + fraction * tally f d := by
  unfold Blend.mix
  rw [tally.eq_def f d]
  generalize d.entries = entries
  induction entries generalizing mixed with
  | nil => simp
  | cons e rest ih =>
    rw [List.foldl_cons, ih, tally_alter, List.map_cons, List.sum_cons]
    ring

/-! ## Percentages -/

/-- The weights as parts of a hundred. -/
def percentages (d : Distribution ℚ) : Distribution ℚ := SortedMap.mapValues (fun w => w * 100 / total d) d

/-- All weights times a factor. -/
def rescale (c : ℚ) (d : Distribution ℚ) : Distribution ℚ := SortedMap.mapValues (c * ·) d

theorem normalize_eq_ok (h : 0 < total d) : normalize d = .ok d.percentages :=
  normalize_eq_ok_iff.2 ⟨not_le.2 h, rfl⟩

/-- Weights are scaled alike in every tally. -/
theorem tally_mapValues {g : ℚ → ℚ} {c : ℚ} (hg : ∀ w, g w = c * w) :
    tally f (SortedMap.mapValues g d) = c * tally f d := by
  simp only [tally, SortedMap.mapValues, SortedMap.mapEntries, List.map_map, Function.comp_def, hg, mul_assoc,
    List.sum_map_mul_left]

theorem tally_rescale (c : ℚ) (d : Distribution ℚ) : tally f (d.rescale c) = c * tally f d :=
  tally_mapValues fun _ => rfl

theorem tally_percentages (d : Distribution ℚ) : tally f d.percentages = 100 / total d * tally f d :=
  tally_mapValues fun w => by ring

theorem weight_percentages (d : Distribution ℚ) (index : Nat) :
    d.percentages.weight index = d.weight index * 100 / total d := by
  rw [weight_eq_tally, tally_percentages, ← weight_eq_tally]
  ring

theorem total_percentages (h : total d ≠ 0) : total d.percentages = 100 := by
  rw [total_eq_tally, tally_percentages, ← total_eq_tally, div_mul_cancel₀ _ h]

/-- Percentages are what they are of themselves. -/
theorem percentages_percentages (h : total d ≠ 0) : d.percentages.percentages = d.percentages := by
  rw [percentages, total_percentages h]
  refine SortedMap.ext ((List.map_congr_left fun e _ => ?_).trans (List.map_id _))
  simp

/-- To scale twice is to scale once. -/
theorem normalize_normalize (d : Distribution ℚ) : (normalize d >>= normalize) = normalize d := by
  by_cases h : 0 < total d
  · have htwice : normalize d.percentages = .ok d.percentages.percentages :=
      normalize_eq_ok (by rw [total_percentages h.ne']; norm_num)
    rw [normalize_eq_ok h]
    exact htwice.trans (by rw [percentages_percentages h.ne'])
  · have hfault : normalize d = .error .noWeight := if_pos (not_lt.1 h)
    rw [hfault]
    rfl

/-- Percentages are to each other as the weights are. -/
theorem weight_percentages_div (h : total d ≠ 0) (i j : Nat) :
    d.percentages.weight i / d.percentages.weight j = d.weight i / d.weight j := by
  rw [weight_percentages, weight_percentages, div_div_div_cancel_right₀ h, mul_div_mul_right _ _ (by norm_num)]

/-- Percentages do not depend on the scale of the weights. -/
theorem percentages_rescale {c : ℚ} (hc : c ≠ 0) (d : Distribution ℚ) : (d.rescale c).percentages = d.percentages := by
  have htotal : total (d.rescale c) = c * total d := by
    rw [total_eq_tally, tally_rescale, ← total_eq_tally]
  rw [percentages, htotal, percentages, rescale]
  refine SortedMap.ext (List.map_map.trans (List.map_congr_left fun e _ => ?_))
  simp only [Function.comp_apply, mul_assoc, mul_div_mul_left _ _ hc]

/-- Weights over `count` answers that can be scaled: none is negative, and some answer has one. -/
structure Proper (count : Nat) (d : Distribution ℚ) : Prop where
  nonneg : ∀ e ∈ d.entries, 0 ≤ e.2
  positive : 0 < total d
  known : ∀ index ∈ SortedMap.keys d, index < count

end Distribution

/-! ## Weighted means -/

/-- Weights of shares: none is negative, and they add up to something. -/
structure FairShares (weights : List ℚ) : Prop where
  nonneg : ∀ weight ∈ weights, 0 ≤ weight
  positive : 0 < weights.sum

/-- Numbers added up, each in proportion of its weight to a total. -/
def portions (total : ℚ) (parts : List (ℚ × ℚ)) : ℚ := (parts.map fun e => e.1 / total * e.2).sum

/-- The mean of numbers with weights. -/
def weightedMean (parts : List (ℚ × ℚ)) : ℚ := portions (parts.map (·.1)).sum parts

theorem FairShares.relabel {α β : Type} {shares : List (ℚ × α)} (hw : FairShares (shares.map (·.1))) (g : ℚ × α → β) :
    FairShares ((shares.map fun e => (e.1, g e)).map (·.1)) := by
  simpa [Function.comp_def] using hw

theorem portions_snoc (total : ℚ) (parts : List (ℚ × ℚ)) (part : ℚ × ℚ) :
    portions total (parts ++ [part]) = portions total parts + part.1 / total * part.2 := by
  simp [portions]

section

variable {parts : List (ℚ × ℚ)} {x lo hi : ℚ}

/-- The mean of the same number throughout. -/
theorem weightedMean_const (hw : FairShares (parts.map (·.1))) (h : ∀ e ∈ parts, e.2 = x) : weightedMean parts = x := by
  have hparts : parts.map (fun e => e.1 / (parts.map (·.1)).sum * e.2) =
      parts.map fun e => e.1 * (x / (parts.map (·.1)).sum) :=
    List.map_congr_left fun e he => by rw [h e he]; ring
  rw [weightedMean, portions, hparts, List.sum_map_mul_right, mul_div_cancel₀ _ hw.positive.ne']

/-- The mean of greater numbers is greater. -/
theorem weightedMean_mono {f g : ℚ × ℚ → ℚ} (hw : FairShares (parts.map (·.1))) (h : ∀ e ∈ parts, f e ≤ g e) :
    weightedMean (parts.map fun e => (e.1, f e)) ≤ weightedMean (parts.map fun e => (e.1, g e)) := by
  simp only [weightedMean, portions, List.map_map, Function.comp_def]
  refine List.sum_le_sum fun e he => mul_le_mul_of_nonneg_left (h e he) (div_nonneg ?_ hw.positive.le)
  exact hw.nonneg e.1 (List.mem_map_of_mem he)

theorem le_weightedMean (hw : FairShares (parts.map (·.1))) (h : ∀ e ∈ parts, lo ≤ e.2) : lo ≤ weightedMean parts := by
  calc lo = weightedMean (parts.map fun e => (e.1, lo)) :=
        (weightedMean_const (hw.relabel _) (List.forall_mem_map.2 fun _ _ => rfl)).symm
    _ ≤ weightedMean (parts.map fun e => (e.1, e.2)) := weightedMean_mono hw h
    _ = weightedMean parts := by simp

theorem weightedMean_le (hw : FairShares (parts.map (·.1))) (h : ∀ e ∈ parts, e.2 ≤ hi) : weightedMean parts ≤ hi := by
  calc weightedMean parts = weightedMean (parts.map fun e => (e.1, e.2)) := by simp
    _ ≤ weightedMean (parts.map fun e => (e.1, hi)) := weightedMean_mono hw h
    _ = hi := weightedMean_const (hw.relabel _) (List.forall_mem_map.2 fun _ _ => rfl)

/-- A weighted mean lies between the numbers. -/
theorem weightedMean_mem_Icc (hw : FairShares (parts.map (·.1))) (h : ∀ e ∈ parts, e.2 ∈ Set.Icc lo hi) :
    weightedMean parts ∈ Set.Icc lo hi :=
  ⟨le_weightedMean hw fun e he => (h e he).1, weightedMean_le hw fun e he => (h e he).2⟩

end

/-! ## Unions -/

/-- The percentages of distributions mixed one by one, each in proportion of its weight to a total. -/
def unite (total : ℚ) (shares : List (ℚ × Distribution ℚ)) : Distribution ℚ :=
  shares.foldl (fun mixed e => Blend.mix mixed (e.1 / total) e.2.percentages) SortedMap.empty

section

variable {total : ℚ} {shares : List (ℚ × Distribution ℚ)}

theorem unite_snoc (share : ℚ × Distribution ℚ) :
    unite total (shares ++ [share]) = Blend.mix (unite total shares) (share.1 / total) share.2.percentages := by
  simp [unite]

/-- A union counts as its parts do. -/
theorem tally_unite {f : Nat → ℚ} : Distribution.tally f (unite total shares) =
    portions total (shares.map fun e => (e.1, Distribution.tally f e.2.percentages)) := by
  induction shares using List.reverseRecOn with
  | nil => rfl
  | append_singleton before share ih =>
    rw [unite_snoc, Distribution.tally_mix, ih, List.map_append, List.map_singleton, portions_snoc]

/-- A union has the answers of all shares. -/
theorem mem_keys_unite {index : Nat} :
    index ∈ SortedMap.keys (unite total shares) ↔ ∃ e ∈ shares, index ∈ SortedMap.keys e.2 := by
  induction shares using List.reverseRecOn with
  | nil => simp [unite, SortedMap.keys]
  | append_singleton before share ih =>
    rw [unite_snoc, Blend.mem_keys_mix, ih, Distribution.percentages, SortedMap.keys_mapValues]
    simp [or_and_right, exists_or]

/-- Shares of the same weights, each distribution on another scale. -/
def Rescaled (shares shares' : List (ℚ × Distribution ℚ)) : Prop :=
  List.Forall₂ (fun e e' => e'.1 = e.1 ∧ ∃ c > 0, e'.2 = e.2.rescale c) shares shares'

theorem Rescaled.weights {shares' : List (ℚ × Distribution ℚ)} (h : Rescaled shares shares') :
    shares'.map (·.1) = shares.map (·.1) := by
  induction h with
  | nil => rfl
  | cons hhead _ ih => rw [List.map_cons, List.map_cons, hhead.1, ih]

/-- A union does not depend on the scales of its parts. -/
theorem Rescaled.unite_eq {shares' : List (ℚ × Distribution ℚ)} (h : Rescaled shares shares') :
    unite total shares' = unite total shares := by
  unfold unite
  generalize (SortedMap.empty : Distribution ℚ) = mixed
  induction h generalizing mixed with
  | nil => rfl
  | @cons e e' _ _ hhead _ ih =>
    obtain ⟨hweight, c, hc, hscale⟩ := hhead
    rw [List.foldl_cons, List.foldl_cons, ih, hweight, hscale, Distribution.percentages_rescale hc.ne']

end

section

variable {count : Nat} {shares : List (ℚ × Distribution ℚ)}

theorem weight_unite (index : Nat) : (unite (shares.map (·.1)).sum shares).weight index =
    weightedMean (shares.map fun e => (e.1, e.2.weight index * 100 / e.2.total)) := by
  rw [Distribution.weight_eq_tally, tally_unite, weightedMean, List.map_map]
  simp only [← Distribution.weight_eq_tally, Distribution.weight_percentages, Function.comp_def]

theorem total_unite (hw : FairShares (shares.map (·.1))) (h : ∀ e ∈ shares, e.2.Proper count) :
    (unite (shares.map (·.1)).sum shares).total = 100 := by
  have hparts : ∀ e ∈ shares, Distribution.tally (fun _ => 1) e.2.percentages = 100 := fun e he => by
    rw [← Distribution.total_eq_tally, Distribution.total_percentages (h e he).positive.ne']
  rw [Distribution.total_eq_tally, tally_unite]
  have hmean := weightedMean_const (hw.relabel _) (List.forall_mem_map.2 hparts)
  rwa [weightedMean, List.map_map] at hmean

/-- A union of proper distributions is one. -/
theorem proper_unite (hw : FairShares (shares.map (·.1))) (h : ∀ e ∈ shares, e.2.Proper count) :
    (unite (shares.map (·.1)).sum shares).Proper count where
  nonneg := by
    refine Distribution.weight_nonneg_iff.1 fun index => ?_
    rw [weight_unite]
    refine le_weightedMean (hw.relabel _) (List.forall_mem_map.2 fun e he => ?_)
    have hweight : 0 ≤ e.2.weight index := Distribution.weight_nonneg_iff.2 (h e he).nonneg index
    exact div_nonneg (mul_nonneg hweight (by norm_num)) (h e he).positive.le
  positive := by
    rw [total_unite hw h]
    norm_num
  known index hindex := by
    obtain ⟨e, he, hindex⟩ := mem_keys_unite.1 hindex
    exact (h e he).known index hindex

end

end Arbiter
