import Arbiter.Proofs.Double.Shares
import Arbiter.Proofs.Outcome.Weights

/-!
# Finite values

The last check moves numbers into the bounds of the market and scales weights to a hundred. Both keep finite what they
get, unless a number is infinite on a side without a bound or the scaling overflows.

* `clamp_isFinite_iff`: when a number is finite between the bounds.
* `Sound`: a value that can be proposed as it is. `Outcome.Fits`: a value that is fitted to the market without an overflow.
* `Conforms.sound_iff`: what passes the last check is sound exactly if it came from a value that fits.
-/

namespace Arbiter

open Float.Model.UnpackedFloat (Sign)

variable {m : Snapshot} {raw v : Outcome}

/-! ## Bounds -/

theorem infinity_positive : IsInfinity .positive (1.0 / 0.0) := rfl

theorem infinity_negative : IsInfinity .negative (-1.0 / 0.0) := rfl

section

variable {x bound : Float}

theorem floatMax_finite (hx : x.isFinite = true) (hb : bound.isFinite = true ∨ IsInfinity .negative bound) :
    (floatMax x bound).isFinite = true := by
  unfold floatMax
  rw [if_neg (not_isNaN_of_isFinite hx)]
  split
  · rename_i hlt
    exact hb.resolve_right fun hinf => not_lt_negative hinf hlt
  · exact hx

theorem floatMin_finite (hx : x.isFinite = true) (hb : bound.isFinite = true ∨ IsInfinity .positive bound) :
    (floatMin x bound).isFinite = true := by
  unfold floatMin
  rw [if_neg (not_isNaN_of_isFinite hx)]
  split
  · rename_i hlt
    exact hb.resolve_right fun hinf => not_positive_lt hinf hlt
  · exact hx

/-- An infinity is only moved by a bound on its side. -/
theorem floatMax_positive (hx : IsInfinity .positive x) (bound : Float) : floatMax x bound = x := by
  unfold floatMax
  rw [if_neg hx.not_isNaN, if_neg (not_positive_lt hx)]

theorem floatMin_negative (hx : IsInfinity .negative x) (bound : Float) : floatMin x bound = x := by
  unfold floatMin
  rw [if_neg hx.not_isNaN, if_neg (not_lt_negative hx)]

theorem floatMin_positive (hx : IsInfinity .positive x) (hb : bound.isFinite = true) : floatMin x bound = bound := by
  unfold floatMin
  rw [if_neg hx.not_isNaN, if_pos (lt_positive hx hb)]

theorem floatMax_negative (hx : IsInfinity .negative x) (hb : bound.isFinite = true) : floatMax x bound = bound := by
  unfold floatMax
  rw [if_neg hx.not_isNaN, if_pos (negative_lt hx hb)]

end

/-- The bounds that the market has are finite. -/
def Snapshot.FinitelyBounded (m : Snapshot) : Prop :=
  (∀ least ∈ m.minValue, least.isFinite = true) ∧ ∀ greatest ∈ m.maxValue, greatest.isFinite = true

/-- A number moved into the market's bounds is finite, unless it is infinite on a side without a bound. What is no number
counts as below all numbers. -/
theorem clamp_isFinite_iff (hm : m.FinitelyBounded) (x : Float) :
    (floatMin (floatMax x (m.minValue.getD (-1.0 / 0.0))) (m.maxValue.getD (1.0 / 0.0))).isFinite = true ↔
      x.isFinite = true ∨ (if 0 < x then m.maxValue.isSome else m.minValue.isSome) = true := by
  have hgreatest : (m.maxValue.getD (1.0 / 0.0)).isFinite = true ∨ IsInfinity .positive (m.maxValue.getD (1.0 / 0.0)) := by
    cases h : m.maxValue with
    | none => exact .inr infinity_positive
    | some greatest => exact .inl (hm.2 greatest h)
  -- below all numbers the lower bound decides
  have hbelow : ¬0 < x → (∀ least, least.isFinite = true → floatMax x least = least) →
      IsInfinity .negative (floatMax x (-1.0 / 0.0)) → ¬x.isFinite = true →
      ((floatMin (floatMax x (m.minValue.getD (-1.0 / 0.0))) (m.maxValue.getD (1.0 / 0.0))).isFinite = true ↔
        x.isFinite = true ∨ (if 0 < x then m.maxValue.isSome else m.minValue.isSome) = true) := by
    intro hx hmax hinf hf
    rw [if_neg hx, or_iff_right hf]
    cases h : m.minValue with
    | none =>
      rw [Option.getD_none, floatMin_negative hinf]
      exact ⟨fun hfin => absurd hfin hinf.not_isFinite, nofun⟩
    | some least =>
      rw [Option.getD_some, hmax least (hm.1 least h)]
      exact ⟨fun _ => rfl, fun _ => floatMin_finite (hm.1 least h) hgreatest⟩
  rcases kinds x with hx | hx | hx | hx
  · refine ⟨fun _ => .inl hx, fun _ => floatMin_finite (floatMax_finite hx ?_) hgreatest⟩
    cases h : m.minValue with
    | none => exact .inr infinity_negative
    | some least => exact .inl (hm.1 least h)
  · rw [floatMax_positive hx, if_pos (lt_positive hx rfl), or_iff_right hx.not_isFinite]
    cases h : m.maxValue with
    | none =>
      have hsame : floatMin x (1.0 / 0.0) = x := by
        unfold floatMin
        rw [if_neg hx.not_isNaN, if_neg (not_positive_lt infinity_positive)]
      rw [Option.getD_none, hsame]
      exact ⟨fun hfin => absurd hfin hx.not_isFinite, nofun⟩
    | some greatest =>
      rw [Option.getD_some, floatMin_positive hx (hm.2 greatest h)]
      exact ⟨fun _ => rfl, fun _ => hm.2 greatest h⟩
  · refine hbelow (not_lt_negative hx) (fun least hf => floatMax_negative hx hf) ?_ hx.not_isFinite
    unfold floatMax
    rw [if_neg hx.not_isNaN, if_neg (not_lt_negative infinity_negative)]
    exact hx
  · refine hbelow (not_lt_of_isNaN hx) (fun least _ => if_pos hx) ?_ fun hf => not_isNaN_of_isFinite hf hx
    rw [show floatMax x (-1.0 / 0.0) = -1.0 / 0.0 from if_pos hx]
    exact infinity_negative

/-! ## Values and messages -/

mutual

/-- Whether there is a `null` anywhere in a value. -/
def Json.hasNull : Json → Bool
  | .null => true
  | .array items => hasNullItems items
  | .object members => hasNullMembers members
  | .bool _ | .int _ | .float _ | .string _ => false

/-- The same of several values. -/
def Json.hasNullItems : List Json → Bool
  | [] => false
  | v :: rest => v.hasNull || hasNullItems rest

/-- The same of the values of several members. -/
def Json.hasNullMembers : List (String × Json) → Bool
  | [] => false
  | (_, v) :: rest => v.hasNull || hasNullMembers rest

end

theorem Json.hasNullItems_eq_false : ∀ {items : List Json},
    Json.hasNullItems items = false ↔ ∀ v ∈ items, v.hasNull = false
  | [] => by simp [Json.hasNullItems]
  | v :: rest => by
    rw [Json.hasNullItems, Bool.or_eq_false_iff, List.forall_mem_cons, hasNullItems_eq_false]

/-- All numbers inside a value are finite. -/
def Outcome.IsFinite : Outcome → Prop
  | .probability x | .numeric x => x.isFinite = true
  | .distribution weights => ∀ e ∈ weights.entries, e.2.isFinite = true
  | .bool _ | .cancel => True

/-- A value that can be proposed as it is: it is finite, its message says so without a gap, and weights name an answer. -/
structure Sound (m : Snapshot) (v : Outcome) : Prop where
  finite : v.IsFinite
  told : ∃ message, resolutionMessage m v = .ok message ∧ message.hasNull = false ∧
    ∀ weights, v = .distribution weights → namedAnswers message ≠ []

/-- A value that no step overflows on that fits it to the market: a number is finite or has a bound on its side, and
weights have a finite total and are finite in percent. -/
def Outcome.Fits (m : Snapshot) : Outcome → Prop
  | .numeric x => x.isFinite = true ∨ (if 0 < x then m.maxValue.isSome else m.minValue.isSome) = true
  | .distribution weights =>
    (Distribution.total weights).isFinite = true ∧ ∀ e ∈ weights.entries, (e.2 * 100).isFinite = true
  | .bool _ | .probability _ | .cancel => True

theorem hasNull_finiteJson {x : Float} : (finiteJson x).hasNull = false ↔ x.isFinite = true := by
  unfold finiteJson
  rw [ofFloat?_isSome]
  split
  · rename_i h
    simp [Json.hasNull, h]
  · rename_i h
    simp [Json.hasNull, h]

theorem isFinite_of_percentage {p : Float} (h : 0.0 ≤ p ∧ p ≤ 100.0) : p.isFinite = true := by
  obtain ⟨hl, hu⟩ := h
  rw [le_iff] at hl hu
  rw [isFinite_iff]
  revert hl hu
  generalize p.toModel.unpack = u
  intro hl hu
  cases u with
  | zero | finite => rfl
  | notANumber => exact absurd hu Bool.false_ne_true
  | infinity s =>
    cases s with
    | positive => exact absurd hu Bool.false_ne_true
    | negative => exact absurd hl Bool.false_ne_true

/-- The message that resolves a market to some entries. -/
def entriesMessage (entries : List (Nat × Float)) : Json :=
  .object [("outcome", .string "MKT"),
    ("resolutions", .array (entries.map fun e => .object [("answer", .nat e.1), ("pct", finiteJson e.2)]))]

theorem namedAnswers_entriesMessage (entries : List (Nat × Float)) :
    namedAnswers (entriesMessage entries) = entries.map fun e => .nat e.1 := by
  unfold entriesMessage
  simp only [namedAnswers, Json.lookup, List.reverse_cons, List.reverse_nil, List.nil_append, List.cons_append,
    List.find?_cons, beq_self_eq_true, Option.map_some, List.filterMap_map, Function.comp_def, namedAnswer?]
  exact congrFun List.filterMap_eq_map' _

theorem hasNull_entriesMessage (entries : List (Nat × Float)) :
    (entriesMessage entries).hasNull = false ↔ ∀ e ∈ entries, e.2.isFinite = true := by
  unfold entriesMessage
  simp only [Json.hasNull, Json.hasNullMembers, Bool.false_or, Bool.or_false, Json.hasNullItems_eq_false, Json.nat,
    List.forall_mem_map, hasNull_finiteJson]

/-- Shares of weights are sound exactly if the total is finite and no weight is infinite in percent. -/
theorem distribution_sound_iff (hm : m.outcomeType.isCategorical = true) {weights : Distribution Float}
    (hn : Distribution.NeverNegative weights) (ht : ¬Distribution.total weights ≤ 0) :
    Sound m (.distribution (SortedMap.mapValues (fun w => w * 100 / Distribution.total weights) weights)) ↔
      (Distribution.total weights).isFinite = true ∧ ∀ e ∈ weights.entries, (e.2 * 100).isFinite = true := by
  have hmessage := resolutionMessage_distribution hm
    (SortedMap.mapValues (fun w => w * 100 / Distribution.total weights) weights)
  have hshares := SortedMap.forall_mapValues (m := weights) (f := fun w => w * 100 / Distribution.total weights)
    (p := fun x => x.isFinite = true)
  constructor
  · intro hs
    have hf : ∀ e ∈ weights.entries, (e.2 * 100 / Distribution.total weights).isFinite = true := hshares.1 hs.finite
    obtain ⟨message, hok, -, hnamed⟩ := hs.told
    obtain rfl := Except.ok.inj (hmessage.symm.trans hok)
    have hnamed : List.filter (fun e : Nat × Float => decide (0 < e.2)) _ ≠ [] := fun hnil =>
      hnamed _ rfl ((namedAnswers_entriesMessage _).trans (by rw [hnil, List.map_nil]))
    obtain ⟨share, hmem⟩ := List.exists_mem_of_ne_nil _ hnamed
    obtain ⟨hshare, hpos⟩ := List.mem_filter.1 hmem
    obtain ⟨e, he, rfl⟩ := List.mem_map.1 hshare
    obtain ⟨htotal, hparts⟩ := @finite_of_shares (SortedMap.values weights) _
      ⟨e.2, List.mem_map_of_mem he, of_decide_eq_true hpos⟩ (List.forall_mem_map.2 hf)
    exact ⟨htotal, List.forall_mem_map.1 hparts⟩
  · rintro ⟨hf, hparts⟩
    obtain ⟨hfinite, w, hw, hpos⟩ := @shares_finite (SortedMap.values weights) (List.forall_mem_map.2 hn) hf ht
      (List.forall_mem_map.2 hparts)
    have hfinite : ∀ e ∈ weights.entries, (e.2 * 100 / Distribution.total weights).isFinite = true :=
      List.forall_mem_map.1 hfinite
    obtain ⟨e, he, rfl⟩ := List.mem_map.1 hw
    refine ⟨hshares.2 hfinite, _, hmessage, ?_, ?_⟩
    · exact (hasNull_entriesMessage _).2 fun share hshare => hshares.2 hfinite share (List.mem_filter.1 hshare).1
    · intro _ _
      refine ne_of_eq_of_ne (namedAnswers_entriesMessage _) ?_
      have hshare : (e.1, e.2 * 100 / Distribution.total weights) ∈ List.filter (fun e : Nat × Float => decide (0 < e.2))
          (SortedMap.mapValues (fun w => w * 100 / Distribution.total weights) weights).entries :=
        List.mem_filter.2 ⟨List.mem_map_of_mem he, decide_eq_true hpos⟩
      exact fun hnil => List.not_mem_nil ((List.map_eq_nil_iff.1 hnil) ▸ hshare)

theorem probability_sound (hm : m.outcomeType = .binary) {p : Float} (hp : 0.0 ≤ p ∧ p ≤ 100.0) :
    Sound m (.probability p) := by
  refine ⟨isFinite_of_percentage hp, ?_⟩
  unfold resolutionMessage
  rw [hm]
  dsimp only
  split
  · exact ⟨_, rfl, rfl, nofun⟩
  · split
    · exact ⟨_, rfl, rfl, nofun⟩
    · exact ⟨_, rfl, rfl, nofun⟩

/-- What passes the last check is sound exactly if it came from a value that fits the market. -/
theorem Conforms.sound_iff (h : Conforms m raw v) (hm : m.FinitelyBounded) (hn : raw.NeverNegative) :
    Sound m v ↔ raw.Fits m := by
  cases h with
  | cancel =>
    refine ⟨fun _ => trivial, fun _ => ⟨trivial, cancellationMessage, ?_, rfl, nofun⟩⟩
    unfold resolutionMessage
    rfl
  | certainty hb b => exact iff_of_true (probability_sound hb (by cases b <;> decide)) trivial
  | probability hb hp => exact iff_of_true (probability_sound hb hp) trivial
  | numeric hb x =>
    rw [Outcome.Fits, ← clamp_isFinite_iff hm]
    generalize floatMin (floatMax x (m.minValue.getD (-1.0 / 0.0))) (m.maxValue.getD (1.0 / 0.0)) = y
    refine ⟨fun hs => hs.finite, fun hf => ⟨hf, ?_⟩⟩
    unfold resolutionMessage
    rw [hb]
    refine ⟨_, rfl, ?_, nofun⟩
    simp only [Json.hasNull, Json.hasNullMembers, Bool.false_or, Bool.or_false, roundedJson]
    exact hasNull_finiteJson.2 hf
  | @distribution weights scaled hb hc hs =>
    obtain ⟨htotal, rfl⟩ := normalize_eq_ok_iff.1 hs
    exact distribution_sound_iff hb hn htotal

end Arbiter
