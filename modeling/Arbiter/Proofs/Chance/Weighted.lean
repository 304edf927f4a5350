import Arbiter.Chance.Weighted
import Arbiter.Proofs.Double.Order
import Arbiter.Proofs.Double.Shares

/-!
# Positions drawn by weight

A draw compares a number below the total with the running totals of the weights. Each of these sums is rounded, and so is
the product that scales the number to the total. It stays below the total all the same, and a running total that exceeds
it where the one before does not was reached by adding a weight that is positive.

* `fraction_hasValue`: the number that is drawn. `scaled_lt`: scaled to the total, it is below it.
* `positive_of_drawn`: between the running totals around it stands a positive weight.
* `pick_ends`: what a draw comes to. `pick_ok_iff`: when it gives a position. `pick_eq_overflow_iff`: when it gives up.
-/

namespace Arbiter

open Float.Model Float.Model.UnpackedFloat

/-! ## The number that is drawn -/

/-- Whole numbers of 53 bits are doubles. -/
theorem hasValue_toFloat {n : UInt64} (h : n.toNat ≤ 2 ^ 53) : HasValue n.toFloat n.toNat := by
  have hunpack : n.toFloat.toModel.unpack = repacked (.normalize .binary64 n.toNat 0 .positive) := rfl
  unfold UnpackedFloat.normalize at hunpack
  rcases Nat.eq_zero_or_pos n.toNat with hz | hp
  · rw [hz] at hunpack
    rw [hz, Nat.cast_zero]
    exact ⟨hunpack.trans (unpack_pack_zero .positive) ▸ .zero _, by positivity⟩
  · rw [Int.compare_eq_gt.2 (by omega)] at hunpack
    obtain ⟨y, hy, hn⟩ := round_nearest hp 0
    rw [zpow_zero, mul_one] at hn
    exact (rounds_of_repacked hy hn hunpack).natCast h

/-- Scaled by a power of two they stay exact. -/
theorem HasValue.toFloat_mul {n : UInt64} {step : Float} {e : ℤ} (hs : HasValue step (2 ^ e)) (hn : n.toNat < 2 ^ 53)
    (he : -1074 ≤ e) (he' : e ≤ 971) : HasValue (n.toFloat * step) (n.toNat * 2 ^ e) :=
  (rounds_mul (hasValue_toFloat hn.le) hs).exact ⟨n.toNat, e, hn.le, he, rfl⟩ (mul_two_zpow_lt hn he')

namespace Weighted

variable {total u : Float} {t q : ℚ}

/-- The distance between two numbers that can be drawn. -/
theorem step_hasValue : HasValue (Float.ofBits 0x3CB0000000000000) (2 ^ (-52 : ℤ)) := by
  have hu : (Float.ofBits 0x3CB0000000000000).toModel.unpack = .finite .positive (2 ^ 52) (-104) (by norm_num) := rfl
  have hv : ((2 ^ 52 : ℕ) : ℚ) * 2 ^ (-104 : ℤ) = 2 ^ (-52 : ℤ) := by norm_num
  exact hv ▸ hasValue_of_unpack hu

/-- The greatest number that can be drawn. -/
theorem greatest_hasValue : HasValue (Float.ofBits 0x3FEFFFFFFFFFFFFE) (1 - 2 ^ (-52 : ℤ)) := by
  have hu : (Float.ofBits 0x3FEFFFFFFFFFFFFE).toModel.unpack =
    .finite .positive (2 ^ 53 - 2) (-53) (by norm_num) := rfl
  have hv : ((2 ^ 53 - 2 : ℕ) : ℚ) * 2 ^ (-53 : ℤ) = 1 - 2 ^ (-52 : ℤ) := by norm_num
  exact hv ▸ hasValue_of_unpack hu

theorem fraction_hasValue (g : Generator) : ∃ q, HasValue (fraction g).1 q ∧ q ≤ 1 - 2 ^ (-52 : ℤ) := by
  obtain ⟨n, hn⟩ : ∃ n, n = g.next64.1 >>> 12 := ⟨_, rfl⟩
  have hlt : n.toNat < 2 ^ 52 := by
    rw [hn, UInt64.toNat_shiftRight, Nat.shiftRight_eq_div_pow]
    have := g.next64.1.toNat_lt
    change _ / 2 ^ 12 < _
    omega
  have hle : (n.toNat : ℚ) ≤ 2 ^ 52 - 1 := by
    have : ((n.toNat + 1 : ℕ) : ℚ) ≤ (2 ^ 52 : ℕ) := by exact_mod_cast hlt
    push_cast at this
    linarith
  have hq : (n.toNat * 2 ^ (-52 : ℤ) : ℚ) ≤ 1 - 2 ^ (-52 : ℤ) := by
    norm_num
    linarith
  have hvalue := step_hasValue.toFloat_mul (n := n) (by omega) (by norm_num) (by norm_num)
  rw [hn] at hvalue hq
  exact ⟨_, hvalue, hq⟩

theorem nextBelow_hasValue (h : HasValue total t) (ht : 0 < t) : ∃ y, HasValue (nextBelow total) y ∧ y < t := by
  obtain ⟨hpos, hlt, hbits⟩ := h.bits ht
  have hbelow : (total.toBits - 1).toNat = total.toBits.toNat - 1 :=
    UInt64.toNat_sub_of_le _ _ (UInt64.le_iff_toNat_le.2 hpos)
  obtain ⟨y, hy, hmag⟩ := ofBits_hasValue (b := total.toBits - 1) (by omega)
  exact ⟨y, hy, (encodes_toBitVec (by omega)).magnitude_lt hbits hmag h.1 (by omega)⟩

/-- Scaled to the total, a number that can be drawn is below it. -/
theorem scaled_lt (h : HasValue total t) (ht : 0 < t) (hu : HasValue u q) (hq : q ≤ 1 - 2 ^ (-52 : ℤ)) :
    ∃ x, HasValue (u * scale total) x ∧ x < t := by
  have hone : (1 - 2 ^ (-52 : ℤ) : ℚ) ≤ 1 := sub_le_self 1 (by positivity)
  obtain ⟨p, hnear, hp, -⟩ := (rounds_mul h greatest_hasValue).hasValue_of_le h.isDouble h.2
    (mul_le_of_le_one_right ht.le hone)
  unfold scale
  split
  case isTrue =>
    -- the greatest number would be rounded up to the total, so all are scaled by the double below it
    obtain ⟨b, hb, hbt⟩ := nextBelow_hasValue h ht
    obtain ⟨x, -, hx, hxb⟩ := (rounds_mul hu hb).hasValue_of_le hb.isDouble hb.2
      (mul_le_of_le_one_left hb.nonneg (hq.trans hone))
    exact ⟨x, hx, hxb.trans_lt hbt⟩
  case isFalse hbelow =>
    have hpt : p < t := not_le.1 (mt (h.le_iff hp).2 hbelow)
    rcases hq.lt_or_eq with hlt | heq
    · obtain ⟨x, hnear', hx, -⟩ := (rounds_mul hu h).hasValue_of_le h.isDouble h.2
        (mul_le_of_le_one_left ht.le (hq.trans hone))
      have hle : q * t < t * (1 - 2 ^ (-52 : ℤ)) := by
        rw [mul_comm q t]
        exact mul_lt_mul_of_pos_left hlt ht
      exact ⟨x, hx, (hnear'.mono hnear hx.isDouble hp.isDouble hle).trans_lt hpt⟩
    · -- the greatest number itself
      refine ⟨p, ⟨?_, hp.2⟩, hpt⟩
      have hsame := hu.unpack_eq greatest_hasValue (by rw [heq]; norm_num) heq
      rw [unpack_mul, hsame, unpackedMul_comm]
      exact hp.1

/-! ## The running totals -/

theorem totals_sum : ∀ (ws : List Float) (a : Float), (totals a ws).2 = sumFrom a ws
  | [], _ => rfl
  | w :: rest, a => totals_sum rest (a + w)

/-- Either the number is below the start, or it is from some running total on and below the next one, so that a positive
weight stands between both. -/
theorem positive_of_drawn {x : Float} {d : ℚ} (hx : HasValue x d) : ∀ {ws : List Float} {a : Float} {y : ℚ},
    HasValue a y → (∀ w ∈ ws, ¬w < 0) → HasValue (sumFrom a ws) t → d < t →
      match ((totals a ws).1.takeWhile fun c => c ≤ x).length with
      | 0 => d < y
      | k + 1 => ∃ w, ws[k]? = some w ∧ 0 < w
  | [], a, y, ha, _, hsum, hd => by
    rw [show t = y from hsum.unique ha] at hd
    exact hd
  | w :: rest, a, y, ha, hn, hsum, hd => by
    obtain ⟨hw, hrest⟩ := List.forall_mem_cons.1 hn
    have hfinite := (isFinite_of_sumFrom (a := a + w) hsum.isFinite).1
    obtain ⟨v, hv⟩ := exists_hasValue (isFinite_of_add hfinite).2 hw
    obtain ⟨z, hnear, hz⟩ := (rounds_add ha hv).hasValue hfinite
    have ih := positive_of_drawn hx hz hrest hsum hd
    rw [show (totals a (w :: rest)).1 = a :: (totals (a + w) rest).1 from rfl, List.takeWhile_cons]
    by_cases hax : a ≤ x
    · rw [if_pos (decide_eq_true hax), List.length_cons]
      generalize ((totals (a + w) rest).1.takeWhile fun c => c ≤ x).length = k at ih
      cases k with
      | zero =>
        refine ⟨w, rfl, hv.pos_iff.2 (lt_of_le_of_ne hv.nonneg fun hzero => ?_)⟩
        -- a weight of zero would not have moved the running total
        rw [← hzero, add_zero] at hnear
        rw [hnear.eq_of_isDouble ha.isDouble] at ih
        exact absurd ((ha.le_iff hx).1 hax) (not_le.2 ih)
      | succ k => exact ih
    · rw [if_neg (by simpa using hax)]
      exact not_le.1 (mt (ha.le_iff hx).2 hax)

/-! ## How a draw ends -/

/-- The weights added up from the first on. -/
def sum : List Float → Float
  | [] => 0
  | first :: rest => sumFrom first rest

variable {weights : List Float} {first : Float} {rest : List Float}

/-- How a draw from weights ends: with a position that has a positive weight, or the reason why there is none. -/
inductive Ends (weights : List Float) : Except WeightFault (Nat × Generator) → Prop
  | empty (h : weights = []) : Ends weights (.error .empty)
  | invalid (h : ∃ w ∈ weights, ¬0.0 ≤ w) : Ends weights (.error .invalid)
  | allZero (hne : weights ≠ []) (h : ∀ w ∈ weights, 0.0 ≤ w ∧ w ≤ 0) (hf : (sum weights).isFinite = true) :
      Ends weights (.error .allZero)
  | overflow (hn : ∀ w ∈ weights, 0.0 ≤ w) (hf : ¬(sum weights).isFinite = true) : Ends weights (.error .overflow)
  | position {i : ℕ} {g : Generator} {w : Float} (hn : ∀ w ∈ weights, 0.0 ≤ w) (hf : (sum weights).isFinite = true)
      (hw : weights[i]? = some w) (hp : 0 < w) : Ends weights (.ok (i, g))

theorem check_cons (first : Float) (rest : List Float) : check (first :: rest) =
    if (first :: rest).any fun w => !decide (0.0 ≤ w) then some .invalid
    else if sum (first :: rest) == 0.0 then some .allZero
    else if (sum (first :: rest)).isFinite then none
    else some .overflow := by
  unfold check sum
  dsimp only
  rw [totals_sum, ← ofFloat?_isSome]
  cases Dyadic.ofFloat? (sumFrom first rest) <;> rfl

/-- Weights that are not below zero have values that are not above a finite total. -/
theorem sum_hasValue (hn : ∀ w ∈ first :: rest, 0.0 ≤ w) (hf : (sum (first :: rest)).isFinite = true) :
    ∃ y t, HasValue first y ∧ HasValue (sumFrom first rest) t ∧ ∀ w ∈ first :: rest, ∃ v, HasValue w v ∧ v ≤ t := by
  obtain ⟨hfirst, hrest⟩ := List.forall_mem_cons.1 hn
  obtain ⟨hfinite, hfinites⟩ := isFinite_of_sumFrom hf
  obtain ⟨y, hy⟩ := exists_hasValue hfinite (not_neg_of_le hfirst)
  obtain ⟨t, ht, h⟩ := sumFrom_totals hy (fun w hw => not_neg_of_le (hrest w hw)) hf
  refine ⟨y, t, hy, ht, List.forall_mem_cons.2 ⟨⟨y, hy, h.start⟩, fun w hw => ?_⟩⟩
  obtain ⟨v, hv⟩ := exists_hasValue (hfinites w hw) (not_neg_of_le (hrest w hw))
  exact ⟨v, hv, h.parts w hw v hv⟩

/-- A position is drawn from weights that have a positive, finite total. -/
theorem positive_of_picked (hn : ∀ w ∈ first :: rest, 0.0 ≤ w) (hf : (sum (first :: rest)).isFinite = true)
    (hz : ¬(sum (first :: rest) == 0.0) = true) (g : Generator) :
    ∃ w, (first :: rest)[((totals first rest).1.takeWhile fun c =>
      c ≤ (fraction g).1 * scale (totals first rest).2).length]? = some w ∧ 0 < w := by
  obtain ⟨y, t, hy, ht, -⟩ := sum_hasValue hn hf
  have hpos : 0 < t := lt_of_le_of_ne ht.nonneg fun hzero => hz (beq_zero_iff.2 (hzero ▸ ht))
  obtain ⟨q, hu, hq⟩ := fraction_hasValue g
  rw [totals_sum]
  obtain ⟨d, hx, hd⟩ := scaled_lt ht hpos hu hq
  have hdrawn := positive_of_drawn hx hy (fun w hw => not_neg_of_le (hn w (List.mem_cons_of_mem _ hw))) ht hd
  generalize ((totals first rest).1.takeWhile fun c => c ≤ (fraction g).1 * scale (sumFrom first rest)).length = i at *
  cases i with
  | zero => exact ⟨first, rfl, hy.pos_iff.2 (hx.nonneg.trans_lt hdrawn)⟩
  | succ k => exact hdrawn

theorem pick_ends (weights : List Float) (g : Generator) : Ends weights (pick weights g) := by
  cases weights with
  | nil => exact .empty rfl
  | cons first rest =>
    unfold pick
    rw [check_cons]
    by_cases hinvalid : ((first :: rest).any fun w => !decide (0.0 ≤ w)) = true
    · rw [if_pos hinvalid]
      exact .invalid (by simpa using hinvalid)
    have hn : ∀ w ∈ first :: rest, 0.0 ≤ w := by simpa using hinvalid
    rw [if_neg hinvalid]
    by_cases hz : (sum (first :: rest) == 0.0) = true
    · rw [if_pos hz]
      have hzero := beq_zero_iff.1 hz
      refine .allZero (List.cons_ne_nil _ _) (fun w hw => ⟨hn w hw, ?_⟩) hzero.isFinite
      obtain ⟨y, t, -, ht, hparts⟩ := sum_hasValue hn hzero.isFinite
      obtain ⟨v, hv, hvt⟩ := hparts w hw
      rw [show t = 0 from ht.unique hzero] at hvt
      exact hv.le_zero_iff.2 hvt
    rw [if_neg hz]
    by_cases hf : (sum (first :: rest)).isFinite = true
    · rw [if_pos hf]
      obtain ⟨w, hw, hpos⟩ := positive_of_picked hn hf hz g
      exact .position hn hf hw hpos
    · rw [if_neg hf]
      exact .overflow hn hf

/-- A draw gives up exactly where no weight is below zero and their sum is not finite. -/
theorem pick_eq_overflow_iff {g : Generator} :
    pick weights g = .error .overflow ↔ (∀ w ∈ weights, 0.0 ≤ w) ∧ ¬(sum weights).isFinite = true := by
  have hends := pick_ends weights g
  generalize pick weights g = result at hends
  cases hends with
  | empty h =>
    subst h
    exact iff_of_false nofun fun h => h.2 zero_hasValue.isFinite
  | invalid h =>
    obtain ⟨w, hw, hneg⟩ := h
    exact iff_of_false nofun fun h => hneg (h.1 w hw)
  | allZero _ _ hf => exact iff_of_false nofun fun h => h.2 hf
  | overflow hn hf => exact iff_of_true rfl ⟨hn, hf⟩
  | position _ hf _ _ => exact iff_of_false nofun fun h => h.2 hf

/-- Weights that a position can be drawn from. -/
structure Drawable (weights : List Float) : Prop where
  notNegative : ∀ w ∈ weights, 0.0 ≤ w
  finite : (sum weights).isFinite = true
  positive : ∃ w ∈ weights, 0 < w

/-- A draw gives a position exactly where the weights allow for it, whatever the generator is. -/
theorem pick_ok_iff {g : Generator} : (∃ i g', pick weights g = .ok (i, g')) ↔ Drawable weights := by
  have hends := pick_ends weights g
  generalize pick weights g = result at hends
  cases hends with
  | empty h =>
    refine iff_of_false nofun fun h' => ?_
    obtain ⟨w, hw, -⟩ := h'.positive
    rw [h] at hw
    cases hw
  | invalid h =>
    obtain ⟨w, hw, hneg⟩ := h
    exact iff_of_false nofun fun h => hneg (h.notNegative w hw)
  | allZero _ h _ =>
    refine iff_of_false nofun fun h' => ?_
    obtain ⟨w, hw, hpos⟩ := h'.positive
    exact not_pos_of_le_zero (h w hw).2 hpos
  | overflow _ hf => exact iff_of_false nofun fun h => hf h.finite
  | position hn hf hw hp => exact iff_of_true ⟨_, _, rfl⟩ ⟨hn, hf, _, List.mem_of_getElem? hw, hp⟩

/-- However many ones are added, the total stops growing long before it is infinite. -/
theorem isFinite_add_ones {α : Type} : ∀ (l : List α) {a : Float} {x : ℚ}, HasValue a x → x ≤ 2 ^ 56 * 1 →
    (sumFrom a (l.map fun _ => 1)).isFinite = true
  | [], _, _, ha, _ => ha.isFinite
  | _ :: rest, a, x, ha, hx => by
    have hbound : x + 1 ≤ 2 ^ (57 : ℤ) := by
      norm_num at hx ⊢
      linarith
    obtain ⟨y, hn, hy, -⟩ :=
      (rounds_add ha one_hasValue).hasValue_of_le (isDouble_two_zpow (by norm_num)) (two_zpow_lt (by norm_num)) hbound
    exact isFinite_add_ones rest hy (hn.saturated hy.isDouble one_hasValue.isDouble hx le_rfl)

/-- Equal weights have a finite total, however many there are. -/
theorem isFinite_sum_ones {α : Type} : ∀ l : List α, (sum (l.map fun _ => 1)).isFinite = true
  | [] => zero_hasValue.isFinite
  | _ :: rest => isFinite_add_ones rest one_hasValue (by norm_num)

theorem drawable_ones {α : Type} {l : List α} (h : l ≠ []) : Drawable (l.map fun _ => 1) where
  notNegative := by
    rintro w hw
    obtain ⟨-, -, rfl⟩ := List.mem_map.1 hw
    decide
  finite := isFinite_sum_ones l
  positive := by
    obtain ⟨a, ha⟩ := List.exists_mem_of_ne_nil l h
    exact ⟨1, List.mem_map_of_mem ha, one_hasValue.pos_iff.2 one_pos⟩

end Weighted

end Arbiter
