import Arbiter.Proofs.Chance.Weighted

/-!
# Chances of one in many

Something happens with a chance of one in `a` if a number drawn from `[0, 1)` is below the quotient `1 / a`. The quotient
is rounded, and beyond 53 bits so is `a`. Among the numbers that can be drawn this makes no difference: they are multiples
of one power of two, and none of them is a nearest double of a quotient that is above it.

* `unit_hasValue`: the numbers that can be drawn.
* `rounds_floatOfInt`: a natural number is rounded to a nearest double.
* `multiple_lt_nearest`: a nearest double of a quotient leaves the multiples below it below.
* `drawn_lt_iff`: a drawn number is below the rounded quotient if and only if it is below the exact one.
-/

namespace Arbiter

open Float.Model Float.Model.UnpackedFloat

/-! ## Numbers that are drawn -/

/-- A number that is drawn is a multiple of the distance between two of them. -/
theorem unit_hasValue (g : Generator) : ∃ k : ℕ, k < 2 ^ 53 ∧ HasValue g.unit.1 (k * 2 ^ (-53 : ℤ)) := by
  have hstep : HasValue (Float.ofBits 0x3CA0000000000000) (2 ^ (-53 : ℤ)) := by
    have hu : (Float.ofBits 0x3CA0000000000000).toModel.unpack = .finite .positive (2 ^ 52) (-105) (by norm_num) := rfl
    have hv : ((2 ^ 52 : ℕ) : ℚ) * 2 ^ (-105 : ℤ) = 2 ^ (-53 : ℤ) := by norm_num
    exact hv ▸ hasValue_of_unpack hu
  obtain ⟨n, hn⟩ : ∃ n, n = g.next64.1 >>> 11 := ⟨_, rfl⟩
  have hlt : n.toNat < 2 ^ 53 := by
    rw [hn, UInt64.toNat_shiftRight, Nat.shiftRight_eq_div_pow]
    have := g.next64.1.toNat_lt
    change _ / 2 ^ 11 < _
    omega
  have hvalue := hstep.toFloat_mul hlt (by norm_num) (by norm_num)
  rw [hn] at hvalue hlt
  exact ⟨_, hlt, hvalue⟩

/-! ## Natural numbers -/

/-- With more than 53 bits a natural number is rounded as a multiple of a finer unit. -/
theorem unpack_ofScientific {n : ℕ} (hn : 2 ^ 53 ≤ n) : (Float.ofScientific n false 0).toModel.unpack =
    repacked (roundWithAccuracy .binary64 .positive (n <<< 53) (-53) .exact) := by
  have hcore : UnpackedFloat.ofScientific .binary64 n 0 =
      roundWithAccuracy .binary64 .positive (n <<< 53 * 10 ^ 0) (-53 + 0) .exact := by
    unfold UnpackedFloat.ofScientific
    rw [dif_neg (by omega), if_neg (by decide), if_neg (by change ¬0 < -(2 ^ 11 + (n.log2 : ℤ)); omega), if_pos le_rfl]
    rfl
  rw [pow_zero, mul_one, add_zero] at hcore
  rw [← hcore]
  unfold Float.ofScientific
  rw [dif_neg (by omega)]
  rfl

/-- A natural number is rounded to a nearest double. -/
theorem rounds_floatOfInt (n : ℕ) : Rounds n (floatOfInt n) := by
  unfold floatOfInt
  rw [if_neg (by omega), Int.natAbs_natCast]
  rcases lt_or_ge n (2 ^ 53) with hn | hn
  · have hone : HasValue Float.exactlyRepresentablePowersOfTen[0] 1 := one_hasValue
    have hword : n.toUInt64.toNat = n := UInt64.toNat_ofNat_of_lt' (hn.trans_le (by decide))
    have hvalue : HasValue n.toUInt64.toFloat n := by
      have h := hasValue_toFloat (n := n.toUInt64) (by omega)
      rwa [hword] at h
    have hprod := rounds_mul hvalue hone
    rw [mul_one] at hprod
    unfold Float.ofScientific
    rw [dif_pos ⟨hn, by decide⟩]
    exact hprod
  · have hbits : (-53 : ℤ) ≤ max (((n <<< 53).log2 : ℤ) + 1 + -53 - 53) (-1074) := by
      have hlog := log2_shiftLeft (by omega : n ≠ 0) 53
      have hlarge : 53 ≤ n.log2 := (Nat.le_log2 (by omega)).2 hn
      omega
    obtain ⟨z, hz, hnear⟩ := roundWithAccuracy_nearest (standsFor_exact (n <<< 53)) hbits
    have hv : ((n <<< 53 : ℕ) : ℚ) * 2 ^ (-53 : ℤ) = n := by
      rw [Nat.shiftLeft_eq]
      push_cast
      rw [mul_assoc]
      norm_num
    rw [hv] at hnear
    exact rounds_of_repacked hz hnear (unpack_ofScientific hn)

/-! ## Quotients -/

section

variable {a b : Float} {x y c : ℚ} {n k : ℕ}

/-- The double that follows a multiple of the unit. -/
theorem isDouble_next {m : ℕ} (hupper : k < 2 ^ (m + 1)) (hm : m ≤ 52) :
    IsDouble (k * 2 ^ (-53 : ℤ) + 2 ^ m * 2 ^ (-105 : ℤ)) := by
  have hpow : 2 ^ (52 - m) * 2 ^ (m + 1) = 2 ^ 53 := by
    rw [← pow_add]
    congr 1
    omega
  refine ⟨k * 2 ^ (52 - m) + 1, m - 105, ?_, by omega, ?_⟩
  · have hone := Nat.one_le_two_pow (n := 52 - m)
    nlinarith
  · have hshift : (2 : ℚ) ^ (52 - m) * 2 ^ m = 2 ^ 52 := by
      rw [← pow_add]
      congr 1
      omega
    have hunit : (2 : ℚ) ^ (-53 : ℤ) = 2 ^ 52 * 2 ^ (-105 : ℤ) := by norm_num
    rw [sub_eq_add_neg, zpow_add₀ two_ne_zero, zpow_natCast, hunit, ← hshift]
    push_cast
    ring

/-- A nearest double of a quotient is above all multiples below the quotient. -/
theorem multiple_lt_nearest (hc : Nearest c (1 / n)) (hk : 0 < k) (hn : 0 < n) (hkn : k * n < 2 ^ 53) :
    k * 2 ^ (-53 : ℤ) < c := by
  obtain ⟨m, hm⟩ : ∃ m, m = k.log2 := ⟨_, rfl⟩
  have hlower : 2 ^ m ≤ k := hm ▸ Nat.log2_self_le hk.ne'
  have hupper : k < 2 ^ (m + 1) := hm ▸ Nat.lt_log2_self
  have hm' : m ≤ 52 := by
    have hle : k ≤ k * n := Nat.le_mul_of_pos_right k hn
    have := (Nat.pow_lt_pow_iff_right (by norm_num : 1 < 2)).1 (hlower.trans_lt (hle.trans_lt hkn))
    omega
  have hnext := isDouble_next hupper hm'
  by_contra! hle
  have hpos : (0 : ℚ) < n := by exact_mod_cast hn
  have hpow_pos : (0 : ℚ) < 2 ^ m := by positivity
  have hprod : (k * n : ℚ) + 1 ≤ 2 ^ 53 := by exact_mod_cast hkn
  have hpow : (2 ^ m * n : ℚ) ≤ k * n := by
    have hlower' : (2 ^ m : ℚ) ≤ k := by exact_mod_cast hlower
    exact mul_le_mul_of_nonneg_right hlower' hpos.le
  generalize (2 : ℚ) ^ m = u at *
  have habove : 1 / n < k * 2 ^ (-53 : ℤ) + u * 2 ^ (-105 : ℤ) := by
    by_contra! hbelow
    have hge := hc.ge hnext hbelow
    norm_num at hge hle
    linarith
  -- the multiple is no farther from the quotient than the double that follows it
  have hnear := hc _ hnext
  rw [abs_of_pos (sub_pos.2 habove)] at hnear
  have hhalf : 2 * (1 / n) ≤ 2 * (k * 2 ^ (-53 : ℤ)) + u * 2 ^ (-105 : ℤ) := by
    have hbelow := neg_abs_le (c - 1 / n)
    generalize (k * 2 ^ (-53 : ℤ) : ℚ) = x at *
    generalize u * 2 ^ (-105 : ℤ) = y at *
    linarith
  have hscaled : 2 ≤ 2 * (k * n) * 2 ^ (-53 : ℤ) + u * n * 2 ^ (-105 : ℤ) :=
    calc (2 : ℚ) = 2 * (1 / n) * n := by rw [mul_assoc, one_div_mul_cancel hpos.ne', mul_one]
      _ ≤ (2 * (k * 2 ^ (-53 : ℤ)) + u * 2 ^ (-105 : ℤ)) * n := mul_le_mul_of_nonneg_right hhalf hpos.le
      _ = 2 * (k * n) * 2 ^ (-53 : ℤ) + u * n * 2 ^ (-105 : ℤ) := by ring
  norm_num at hscaled
  linarith

/-- Both the number of chances and one in so many are nearest doubles. -/
theorem reciprocal_hasValue (hn : 0 < n) (hword : n ≤ word64Max) :
    ∃ v c : ℚ, Nearest v n ∧ HasValue (floatOfInt n) v ∧ Nearest c (1 / v) ∧ HasValue (1 / floatOfInt n) c ∧ 1 ≤ v ∧
      v ≤ 2 ^ (64 : ℤ) := by
  have hmax : (n : ℚ) ≤ 2 ^ (64 : ℤ) := by
    have : n ≤ 2 ^ 64 := hword.trans (by decide)
    exact_mod_cast this
  obtain ⟨v, hnear, hv, hvmax⟩ := (rounds_floatOfInt n).hasValue_of_le (isDouble_two_zpow (by norm_num))
    (two_zpow_lt (by norm_num)) hmax
  have hone : 1 ≤ v := hnear.ge one_hasValue.isDouble (by exact_mod_cast hn)
  have hquot : 1 / v ≤ 1 := (div_le_one (by linarith)).2 hone
  obtain ⟨c, hcnear, hc, -⟩ := (rounds_div one_hasValue hv (by linarith)).hasValue_of_le one_hasValue.isDouble
    one_hasValue.2 hquot
  exact ⟨v, c, hnear, hv, hcnear, hc, hone, hvmax⟩

/-- One in many is not above the unit of what is drawn. -/
theorem one_div_le_unit {w : ℚ} (hw : 2 ^ (53 : ℤ) ≤ w) : 1 / w ≤ 2 ^ (-53 : ℤ) := by
  rw [zpow_neg, ← one_div]
  exact one_div_le_one_div_of_le (by positivity) hw

/-- A drawn number is below the rounded quotient if and only if it is below the exact one. -/
theorem drawn_lt_iff (hn : 0 < n) (hword : n ≤ word64Max) (hk : k < 2 ^ 53) (ha : HasValue a (k * 2 ^ (-53 : ℤ))) :
    a < 1 / floatOfInt n ↔ (k * 2 ^ (-53 : ℤ) : ℚ) < 1 / n := by
  have hpos : (0 : ℚ) < n := by exact_mod_cast hn
  obtain ⟨v, c, hnear, hv, hcnear, hc, hone, hvmax⟩ := reciprocal_hasValue hn hword
  rw [ha.lt_iff hc]
  rcases Nat.eq_zero_or_pos k with rfl | hk0
  · -- zero is below both
    have hleast : (2 : ℚ) ^ (-64 : ℤ) ≤ 1 / v := by
      rw [zpow_neg, ← one_div]
      exact one_div_le_one_div_of_le (by linarith) hvmax
    have hcpos : 0 < c := lt_of_lt_of_le (by positivity) (hcnear.ge (isDouble_two_zpow (by norm_num)) hleast)
    refine iff_of_true ?_ ?_
    · simpa using hcpos
    · simpa using hpos
  rcases le_or_gt n (2 ^ 53) with hsmall | hbig
  · -- the number itself is exact
    obtain rfl : v = n := hv.unique ((rounds_floatOfInt n).natCast hsmall)
    constructor
    · intro h
      by_contra! hle
      exact not_le.2 h (hcnear.le ha.isDouble hle)
    · intro h
      rw [lt_div_iff₀ hpos] at h
      have hkn : (k * n : ℚ) < 2 ^ 53 := by
        norm_num at h ⊢
        linarith
      exact multiple_lt_nearest hcnear hk0 hn (by exact_mod_cast hkn)
  · -- only zero is below so small a quotient
    have hunit : (2 : ℚ) ^ (-53 : ℤ) ≤ k * 2 ^ (-53 : ℤ) :=
      le_mul_of_one_le_left (by positivity) (by exact_mod_cast hk0)
    have hvbig : (2 : ℚ) ^ (53 : ℤ) ≤ v := hnear.ge (isDouble_two_zpow (by norm_num)) (by exact_mod_cast hbig.le)
    have hcmax : c ≤ 2 ^ (-53 : ℤ) := hcnear.le (isDouble_two_zpow (by norm_num)) (one_div_le_unit hvbig)
    have hnmax : (1 / n : ℚ) ≤ 2 ^ (-53 : ℤ) := one_div_le_unit (by exact_mod_cast hbig.le)
    exact iff_of_false (not_lt.2 (hcmax.trans hunit)) (not_lt.2 (hnmax.trans hunit))

end

end Arbiter
