import Arbiter.Proofs.Double.Order
import Arbiter.Proofs.Double.Shares

/-!
# Hundredths

A percentage is divided by a hundred before it is compared with zero and one. Above, nothing is lost: only what is a
hundred at least comes to one. Below, the least doubles come to zero, up to fifty times the least one of all.

* `quotient_le_zero`: a quotient of what is not positive is not positive.
* `hundredth_le_zero_iff`, `one_le_hundredth_iff`: the comparisons of a hundredth, for every double.
-/

namespace Arbiter

open Float.Model Float.Model.UnpackedFloat

variable {a b p : Float} {x y z : ℚ}

/-! ## Quotients of what is not positive -/

theorem le_zero_iff_onSide : a ≤ 0 ↔ OnSide .negative a.toModel.unpack ∧ a.isNaN = false := by
  rw [le_iff, unpack_zero]
  change _ ↔ _ ∧ a.toModel.unpack.isNaN = false
  generalize a.toModel.unpack = u
  rcases u with (_ | _) | _ | (_ | _) | ⟨_ | _⟩
  all_goals simp [OnSide, UnpackedFloat.le, UnpackedFloat.compare, UnpackedFloat.isNaN]

/-- A quotient of what is not positive is not positive. -/
theorem quotient_le_zero (ha : a ≤ 0) (hb : HasValue b y) (hy : 0 < y) : a / b ≤ 0 := by
  rw [le_zero_iff_onSide] at ha ⊢
  change _ ∧ a.toModel.unpack.isNaN = false at ha
  change _ ∧ (a / b).toModel.unpack.isNaN = false
  rw [unpack_div]
  suffices h : OnSide .negative (.div .binary64 a.toModel.unpack b.toModel.unpack) ∧
      (UnpackedFloat.div .binary64 a.toModel.unpack b.toModel.unpack).isNaN = false from
    ⟨h.1.repacked, isNaN_repacked h.2⟩
  obtain ⟨hb, -⟩ := hb
  generalize a.toModel.unpack = u at *
  generalize b.toModel.unpack = v at *
  obtain ⟨hside, hnan⟩ := ha
  cases hb with
  | zero => exact absurd hy (lt_irrefl 0)
  | finite =>
    cases u with
    | notANumber => cases hnan
    | infinity s =>
      obtain rfl : s = .negative := hside
      exact ⟨rfl, rfl⟩
    | zero s => exact ⟨trivial, rfl⟩
    | finite s m e hp =>
      obtain rfl : s = .negative := hside
      refine ⟨onSide_roundWithAccuracy .negative _ _ _, ?_⟩
      unfold UnpackedFloat.div roundWithAccuracy
      dsimp only
      split <;> rfl

/-! ## Comparisons -/

theorem HasValue.ge_of_le_zero (hb : HasValue b y) (ha : a ≤ 0) : a ≤ b :=
  le_trans_double ha ((zero_hasValue.le_iff hb).2 hb.nonneg)

theorem HasValue.not_le_of_le_zero (hb : HasValue b y) (hy : 0 < y) (ha : a ≤ 0) : ¬b ≤ a := fun h =>
  not_le.2 hy (hb.le_zero_iff.1 (le_trans_double h ha))

/-- Infinity is above every number. -/
theorem HasValue.le_infinity (hb : HasValue b y) (ha : IsInfinity .positive a) : b ≤ a ∧ ¬a ≤ b := by
  have hnan : a.isNaN = false := Bool.eq_false_of_not_eq_true ha.not_isNaN
  have hlt := (lt_iff_rank hb.not_isNaN hnan).1 (lt_positive ha hb.isFinite)
  exact ⟨(le_iff_rank hb.not_isNaN hnan).2 hlt.le, fun h => absurd ((le_iff_rank hnan hb.not_isNaN).1 h) (not_le.2 hlt)⟩

/-- A double is no number, not positive, a positive number or infinite. -/
theorem sides (p : Float) : p.isNaN = true ∨ p ≤ 0 ∨ (∃ x, HasValue p x ∧ 0 < x) ∨ IsInfinity .positive p := by
  have hvalue := @hasValue_of_unpack p
  rw [le_zero_iff_onSide]
  change p.toModel.unpack.isNaN = true ∨ (_ ∧ p.toModel.unpack.isNaN = false) ∨ _
  unfold IsInfinity
  revert hvalue
  generalize p.toModel.unpack = u
  intro hvalue
  rcases u with (_ | _) | _ | _ | ⟨_ | _⟩
  · exact .inr (.inl ⟨rfl, rfl⟩)
  · exact .inr (.inr (.inr rfl))
  · exact .inl rfl
  · exact .inr (.inl ⟨trivial, rfl⟩)
  · exact .inr (.inl ⟨rfl, rfl⟩)
  · rename_i m e hp
    exact .inr (.inr (.inl ⟨_, hvalue rfl, by positivity⟩))

/-! ## Hundredths -/

theorem hundredth_isNaN (h : p.isNaN = true) : (p / 100).isNaN = true := by
  change p.toModel.unpack.isNaN = true at h
  change (p / 100).toModel.unpack.isNaN = true
  rw [unpack_div]
  revert h
  generalize p.toModel.unpack = u
  intro h
  cases u with
  | notANumber => rfl
  | _ => cases h

theorem hundredth_isInfinity (h : IsInfinity .positive p) : IsInfinity .positive (p / 100) := by
  unfold IsInfinity at *
  rw [unpack_div, h]
  rfl

/-- The hundredth of a positive number is a nearest double. -/
theorem HasValue.hundredth (h : HasValue p x) : ∃ y, Nearest y (x / 100) ∧ HasValue (p / 100) y := by
  have hx := h.nonneg
  obtain ⟨y, hn, hy, -⟩ := (rounds_div h hundred_hasValue (by norm_num)).hasValue_of_le h.isDouble h.2 (by linarith)
  exact ⟨y, hn, hy⟩

/-- The greatest double whose hundredth is zero. -/
theorem fifty_hasValue : HasValue (Float.ofBits 50) (50 * 2 ^ (-1074 : ℤ)) := by
  have hu : (Float.ofBits 50).toModel.unpack = .finite .positive 50 (-1074) (by norm_num) := rfl
  exact hasValue_of_unpack hu

/-- Below the least positive double there is only zero. -/
theorem IsDouble.le_zero (h : IsDouble y) (hlt : y < 2 ^ (-1074 : ℤ)) : y ≤ 0 := by
  obtain ⟨k, e, -, he, rfl⟩ := h
  rcases Nat.eq_zero_or_pos k with rfl | hk
  · simp
  · have hone : (1 : ℚ) ≤ k := by exact_mod_cast hk
    have hpow : (2 : ℚ) ^ (-1074 : ℤ) ≤ 2 ^ e := zpow_le_zpow_right₀ (by norm_num) he
    have hprod : (2 : ℚ) ^ e ≤ k * 2 ^ e := le_mul_of_one_le_left (by positivity) hone
    exact absurd hlt (not_lt.2 (hpow.trans hprod))

/-- Below a hundred no double is closer than the distance between the doubles there. -/
theorem IsDouble.le_of_lt_hundred (h : IsDouble x) (hlt : x < 100) : x ≤ 100 - 2 ^ (-46 : ℤ) := by
  obtain ⟨k, e, hk, -, rfl⟩ := h
  have hk' : (k : ℚ) ≤ 2 ^ 53 := by exact_mod_cast hk
  rcases le_or_gt (-46) e with he | he
  · -- a whole multiple of that distance
    rw [← shiftLeft_value k he] at hlt ⊢
    generalize k <<< (e - -46).toNat = n at *
    have hpow : (2 : ℚ) ^ (-46 : ℤ) = 1 / 2 ^ 46 := by norm_num
    rw [hpow] at hlt ⊢
    have hn : (n : ℚ) < 100 * 2 ^ 46 := by linarith
    have hsucc : n + 1 ≤ 100 * 2 ^ 46 := by exact_mod_cast hn
    have hsucc' : (n + 1 : ℚ) ≤ 100 * 2 ^ 46 := by exact_mod_cast hsucc
    linarith
  · -- far below
    have hpow : (2 : ℚ) ^ e ≤ 2 ^ (-47 : ℤ) := zpow_le_zpow_right₀ (by norm_num) (by omega)
    have hprod : (k : ℚ) * 2 ^ e ≤ 2 ^ 53 * 2 ^ (-47 : ℤ) := mul_le_mul hk' hpow (by positivity) (by positivity)
    norm_num at hprod ⊢
    linarith

/-- A hundredth is not above zero if and only if the double is not above fifty times the least one. -/
theorem hundredth_le_zero_iff (p : Float) : p / 100 ≤ 0 ↔ p ≤ Float.ofBits 50 := by
  rcases sides p with hnan | hneg | ⟨x, hx, hpos⟩ | hinf
  · exact iff_of_false (not_le_of_isNaN (hundredth_isNaN hnan)).1 (not_le_of_isNaN hnan).1
  · exact iff_of_true (quotient_le_zero hneg hundred_hasValue (by norm_num)) (fifty_hasValue.ge_of_le_zero hneg)
  · obtain ⟨y, hn, hy⟩ := hx.hundredth
    have hleast : IsDouble (2 ^ (-1074 : ℤ)) := isDouble_two_zpow (by norm_num)
    have hleast_pos : (0 : ℚ) < 2 ^ (-1074 : ℤ) := by positivity
    generalize hunit : (2 : ℚ) ^ (-1074 : ℤ) = unit at hleast hleast_pos
    rw [hy.le_zero_iff, hx.le_iff fifty_hasValue, hunit]
    constructor
    · intro hle
      -- zero is no farther away than the least double
      have hnear := hn _ hleast
      rw [abs_of_nonpos (by linarith)] at hnear
      rcases le_abs'.1 hnear with h | h
      · linarith
      · linarith
    · intro hle
      rcases hle.lt_or_eq with hlt | heq
      · have hnear := hn 0 zero_hasValue.isDouble
        rw [abs_of_nonpos (by linarith : 0 - x / 100 ≤ 0)] at hnear
        have hbelow := le_abs_self (y - x / 100)
        exact hy.isDouble.le_zero (by rw [hunit]; linarith)
      · -- halfway, where the even one of both is taken
        have hsame := hx.unpack_eq fifty_hasValue hpos (by rw [hunit]; exact heq)
        have hzero : (p / 100).toModel.unpack = (Float.ofBits 50 / 100).toModel.unpack := by
          rw [unpack_div, unpack_div, hsame]
        refine hy.le_zero_iff.1 ((le_iff _ _).2 ?_)
        rw [hzero]
        rfl
  · exact iff_of_false (zero_hasValue.le_infinity (hundredth_isInfinity hinf)).2 (fifty_hasValue.le_infinity hinf).2

/-- A hundredth is one at least if and only if the double is a hundred at least. -/
theorem one_le_hundredth_iff (p : Float) : 1 ≤ p / 100 ↔ 100 ≤ p := by
  rcases sides p with hnan | hneg | ⟨x, hx, hpos⟩ | hinf
  · exact iff_of_false (not_le_of_isNaN (hundredth_isNaN hnan)).2 (not_le_of_isNaN hnan).2
  · have hquot := quotient_le_zero hneg hundred_hasValue (by norm_num)
    exact iff_of_false (one_hasValue.not_le_of_le_zero one_pos hquot)
      (hundred_hasValue.not_le_of_le_zero (by norm_num) hneg)
  · obtain ⟨y, hn, hy⟩ := hx.hundredth
    rw [one_hasValue.le_iff hy, hundred_hasValue.le_iff hx]
    constructor
    · intro hle
      by_contra! hlt
      -- the double below one is nearer
      have hbelow : IsDouble (1 - 2 ^ (-53 : ℤ)) := ⟨2 ^ 53 - 1, -53, by norm_num, by norm_num, by norm_num⟩
      have hx' := hx.isDouble.le_of_lt_hundred hlt
      have hy' := hn.le hbelow (by norm_num at hx' ⊢; linarith)
      norm_num at hy'
      linarith
    · intro hle
      exact hn.ge one_hasValue.isDouble (by linarith)
  · exact iff_of_true (one_hasValue.le_infinity (hundredth_isInfinity hinf)).1 (hundred_hasValue.le_infinity hinf).1

end Arbiter
