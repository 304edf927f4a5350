import Mathlib.Algebra.Order.Field.Power
import Mathlib.Data.Rat.Floor
import Mathlib.Tactic.FieldSimp
import Mathlib.Tactic.Linarith
import Mathlib.Tactic.NormNum
import Mathlib.Tactic.Positivity
import Mathlib.Tactic.Ring

/-!
# Rounding to doubles

Results of the arithmetic of doubles are found exactly, as a significand and an exponent with two bits for what was cut
off, and then rounded. So a rounded result is at least as near to the exact one as any double.

* `StandsFor`: the significand and the two bits stand for an exact number.
* `IsDouble`: the numbers that a significand of 53 bits can hold. `Nearest`: no such number is nearer.
* `Magnitude`: an unpacked number that is not negative, together with its value.
* `roundWithAccuracy_nearest`: rounding gives the nearest number.
-/

namespace Arbiter

open Float.Model Float.Model.UnpackedFloat

/-! ## What was cut off -/

/-- A significand with its two bits stands for a number: the number lies from the significand up to the next one, and
the bits compare what is above the significand with a half. -/
inductive StandsFor : ExtendedMantissa → ℚ → Prop
  | whole (m : ℕ) : StandsFor ⟨m, false, false⟩ m
  | below {m : ℕ} {t : ℚ} (hl : (m : ℚ) < t) (hu : t < m + 1 / 2) : StandsFor ⟨m, false, true⟩ t
  | half (m : ℕ) : StandsFor ⟨m, true, false⟩ (m + 1 / 2)
  | above {m : ℕ} {t : ℚ} (hl : (m : ℚ) + 1 / 2 < t) (hu : t < m + 1) : StandsFor ⟨m, true, true⟩ t

namespace StandsFor

variable {em : ExtendedMantissa} {t : ℚ}

theorem bounds (h : StandsFor em t) : (em.mantissa : ℚ) ≤ t ∧ t < em.mantissa + 1 := by
  cases h with
  | whole m => exact ⟨le_refl _, by linarith⟩
  | below hl hu => exact ⟨hl.le, by dsimp only; linarith⟩
  | half m => constructor <;> dsimp only <;> linarith
  | above hl hu => exact ⟨by dsimp only; linarith, hu⟩

/-- The significand is rounded to a nearest integer. -/
theorem rounded_near (h : StandsFor em t) : |(em.roundedMantissa : ℚ) - t| ≤ 1 / 2 := by
  rw [abs_le]
  cases h with
  | whole m => constructor <;> norm_num [ExtendedMantissa.roundedMantissa, ExtendedMantissa.accuracy,
      Accuracy.roundToNearestEven]
  | below hl hu =>
    simp only [ExtendedMantissa.roundedMantissa, ExtendedMantissa.accuracy, Accuracy.roundToNearestEven]
    constructor <;> linarith
  | half m =>
    simp only [ExtendedMantissa.roundedMantissa, ExtendedMantissa.accuracy, Accuracy.roundToNearestEven, Nat.cast_add]
    rcases Nat.mod_two_eq_zero_or_one m with hm | hm <;> rw [hm] <;> constructor <;> push_cast <;> linarith
  | above hl hu =>
    simp only [ExtendedMantissa.roundedMantissa, ExtendedMantissa.accuracy, Accuracy.roundToNearestEven, Nat.cast_add,
      Nat.cast_one]
    constructor <;> linarith

theorem shiftRightOne (h : StandsFor em t) : StandsFor em.shiftRightOne (t / 2) := by
  obtain ⟨m, r, s⟩ := em
  -- the bit that is shifted out becomes the upper one of the two bits
  rcases Nat.even_or_odd' m with ⟨k, rfl | rfl⟩
  · have hk : 2 * k / 2 = k := by omega
    simp only [ExtendedMantissa.shiftRightOne, hk, Nat.mul_mod_right, bne_self_eq_false]
    cases h with
    | whole =>
      have := StandsFor.whole k
      simpa using this
    | below hl hu => exact .below (by push_cast at hl; linarith) (by push_cast at hu; linarith)
    | half => exact .below (by push_cast; linarith) (by push_cast; linarith)
    | above hl hu => exact .below (by push_cast at hl; linarith) (by push_cast at hu; linarith)
  · have hk : (2 * k + 1) / 2 = k := by omega
    have hm : (2 * k + 1) % 2 = 1 := by omega
    simp only [ExtendedMantissa.shiftRightOne, hk, hm]
    cases h with
    | whole =>
      have hv : ((2 * k + 1 : ℕ) : ℚ) / 2 = k + 1 / 2 := by push_cast; ring
      rw [hv]
      exact .half k
    | below hl hu => exact .above (by push_cast at hl; linarith) (by push_cast at hu; linarith)
    | half => exact .above (by push_cast; linarith) (by push_cast; linarith)
    | above hl hu => exact .above (by push_cast at hl; linarith) (by push_cast at hu; linarith)

theorem shiftRight (h : StandsFor em t) (n : ℕ) : StandsFor (em >>> n) (t / 2 ^ n) := by
  change StandsFor (n.repeat ExtendedMantissa.shiftRightOne em) _
  induction n with
  | zero => simpa [Nat.repeat] using h
  | succ n ih =>
    rw [pow_succ, ← div_div]
    exact ih.shiftRightOne

end StandsFor

theorem standsFor_exact (m : ℕ) : StandsFor (.ofMantissaAndAccuracy m .exact) m := .whole m

/-- A quotient with its remainder. -/
theorem standsFor_quotient (n : ℕ) {k : ℕ} (hk : 0 < k) :
    StandsFor (.ofMantissaAndAccuracy (n / k) (accuracyOfFraction (n % k) k)) (n / k) := by
  have hk' : (0 : ℚ) < k := by exact_mod_cast hk
  have hn : (n : ℚ) / k = (n / k : ℕ) + (n % k : ℕ) / k := by
    rw [eq_comm, ← sub_eq_zero]
    field_simp
    have := Nat.div_add_mod n k
    have hc : ((k * (n / k) + n % k : ℕ) : ℚ) = n := by rw [this]
    push_cast at hc
    linarith
  have hr : (n % k : ℕ) < k := Nat.mod_lt n hk
  rw [hn]
  unfold accuracyOfFraction
  generalize hrem : n % k = r at *
  split
  · rename_i hz
    have := standsFor_exact (n / k)
    simpa [hz] using this
  · rename_i hz
    have hr' : (r : ℚ) < k := by exact_mod_cast hr
    have hz' : (0 : ℚ) < r := by exact_mod_cast Nat.pos_of_ne_zero hz
    cases hc : compare (2 * r) k with
    | lt =>
      have hlt : ((2 * r : ℕ) : ℚ) < k := by exact_mod_cast Nat.compare_eq_lt.1 hc
      push_cast at hlt
      refine .below ?_ ?_
      · linarith [div_pos hz' hk']
      · have : (r : ℚ) / k < 1 / 2 := by rw [div_lt_iff₀ hk']; linarith
        linarith
    | eq =>
      have heq : ((2 * r : ℕ) : ℚ) = k := by exact_mod_cast Nat.compare_eq_eq.1 hc
      push_cast at heq
      have hhalf : (r : ℚ) / k = 1 / 2 := by rw [div_eq_iff hk'.ne']; linarith
      rw [hhalf]
      exact .half _
    | gt =>
      have hgt : (k : ℚ) < ((2 * r : ℕ) : ℚ) := by exact_mod_cast Nat.compare_eq_gt.1 hc
      push_cast at hgt
      refine .above ?_ ?_
      · have : 1 / 2 < (r : ℚ) / k := by rw [lt_div_iff₀ hk']; linarith
        linarith
      · have : (r : ℚ) / k < 1 := by rw [div_lt_one hk']; exact hr'
        linarith

/-! ## The nearest double -/

/-- A number that a significand of 53 bits holds, with no bound on the greatest exponent. -/
def IsDouble (x : ℚ) : Prop := ∃ (k : ℕ) (e : ℤ), k ≤ 2 ^ 53 ∧ -1074 ≤ e ∧ x = k * 2 ^ e

/-- No double is nearer. -/
def Nearest (y x : ℚ) : Prop := ∀ g, IsDouble g → |y - x| ≤ |g - x|

/-- An unpacked number that is not negative, written with as few bits as it takes, and its value. -/
inductive Magnitude : UnpackedFloat → ℚ → Prop
  | zero (s : Sign) : Magnitude (.zero s) 0
  | finite {m : ℕ} {e : ℤ} (hp : 0 < m) (hm : m < 2 ^ 53) (he : -1074 ≤ e) (hn : 2 ^ 52 ≤ m ∨ e = -1074) :
      Magnitude (.finite .positive m e hp) (m * 2 ^ e)

theorem nearest_self (x : ℚ) : Nearest x x := fun g _ => by
  rw [sub_self, abs_zero]
  exact abs_nonneg _

theorem Magnitude.nonneg {u : UnpackedFloat} {x : ℚ} (h : Magnitude u x) : 0 ≤ x := by
  cases h with
  | zero => exact le_refl 0
  | finite => positivity

theorem Magnitude.isDouble {u : UnpackedFloat} {x : ℚ} (h : Magnitude u x) : IsDouble x := by
  cases h with
  | zero => exact ⟨0, 0, by norm_num, by norm_num, by norm_num⟩
  | finite _ hm he _ => exact ⟨_, _, hm.le, he, rfl⟩

/-- The exponent that a number of so many bits is written with. -/
theorem targetExponent_eq (m : ℕ) (e : ℤ) :
    Format.binary64.targetExponent (totalExponent m e) = max (m.log2 + 1 + e - 53) (-1074) := rfl

/-- An integer within a half is nearest. -/
theorem abs_sub_le_of_near {r j : ℕ} {q : ℚ} (h : |(r : ℚ) - q| ≤ 1 / 2) : |(r : ℚ) - q| ≤ |(j : ℚ) - q| := by
  by_cases hj : j = r
  · rw [hj]
  · have hone : (1 : ℚ) ≤ |(j : ℚ) - r| := by
      have : (1 : ℤ) ≤ |(j : ℤ) - r| := Int.one_le_abs (sub_ne_zero.2 (by exact_mod_cast hj))
      exact_mod_cast this
    have hsum : |(j : ℚ) - r| ≤ |(j : ℚ) - q| + |(r : ℚ) - q| := by
      have := abs_sub_le (j : ℚ) q r
      rwa [abs_sub_comm q] at this
    linarith

section

variable {m : ℕ} {acc : Accuracy} {t : ℚ} {e : ℤ}

/-- Cutting off all bits but 53. -/
theorem shiftToTargetExponent_standsFor (h : StandsFor (.ofMantissaAndAccuracy m acc) t) {target : ℤ}
    (ht : target = max (m.log2 + 1 + e - 53) (-1074)) (he : e ≤ target) :
    ∃ em, shiftToTargetExponent .binary64 m e acc = (em, target) ∧ StandsFor em (t * 2 ^ e / 2 ^ target) := by
  have hs : ((target - e).toNat : ℤ) = target - e := Int.toNat_of_nonneg (by omega)
  refine ⟨ExtendedMantissa.ofMantissaAndAccuracy m acc >>> (target - e).toNat, ?_, ?_⟩
  · unfold shiftToTargetExponent
    rw [targetExponent_eq, ← ht]
    unfold shiftToExponent
    dsimp only
    rw [hs, add_sub_cancel]
  · have hv : t * 2 ^ e / 2 ^ target = t / 2 ^ (target - e).toNat := by
      rw [← zpow_natCast (2 : ℚ) (target - e).toNat, hs, zpow_sub₀ two_ne_zero]
      field_simp
    rw [hv]
    exact h.shiftRight _

theorem log2_bounds (h : StandsFor (.ofMantissaAndAccuracy m acc) t) :
    t < 2 ^ (m.log2 + 1) ∧ (m ≠ 0 → 2 ^ m.log2 ≤ t) := by
  have hm : (ExtendedMantissa.ofMantissaAndAccuracy m acc).mantissa = m := by
    unfold ExtendedMantissa.ofMantissaAndAccuracy
    split <;> rfl
  obtain ⟨hl, hu⟩ := h.bounds
  rw [hm] at hl hu
  constructor
  · have hlt : m + 1 ≤ 2 ^ (m.log2 + 1) := Nat.lt_log2_self
    have hlt' : ((m + 1 : ℕ) : ℚ) ≤ ((2 ^ (m.log2 + 1) : ℕ) : ℚ) := by exact_mod_cast hlt
    push_cast at hlt'
    linarith
  · intro hz
    have hle : ((2 ^ m.log2 : ℕ) : ℚ) ≤ m := by exact_mod_cast Nat.log2_self_le hz
    push_cast at hle
    linarith

/-- A significand that was rounded is at most one bit too long, which is cut off without loss. -/
theorem roundWithAccuracy_eq {em : ExtendedMantissa} {target : ℤ} (s : Sign)
    (hs : shiftToTargetExponent .binary64 m e acc = (em, target)) (hl : -1074 ≤ target)
    (hr : em.roundedMantissa ≤ 2 ^ 53) (hn : 2 ^ 52 ≤ em.roundedMantissa ∨ target = -1074) :
    (em.roundedMantissa = 0 ∧ roundWithAccuracy .binary64 s m e acc = .zero s) ∨
      ∃ m' e' hp, roundWithAccuracy .binary64 s m e acc = .finite s m' e' hp ∧ m' < 2 ^ 53 ∧ -1074 ≤ e' ∧
        (2 ^ 52 ≤ m' ∨ e' = -1074) ∧ (m' * 2 ^ e' : ℚ) = em.roundedMantissa * 2 ^ target := by
  unfold roundWithAccuracy
  rw [hs]
  dsimp only
  generalize em.roundedMantissa = r at *
  rcases hr.lt_or_eq with hlt | rfl
  · -- the significand fits
    have hlog : (r.log2 : ℤ) ≤ 52 := by
      by_cases hz : r = 0
      · rw [hz]; norm_num
      · have := (Nat.log2_lt hz).2 hlt
        omega
    have htarget : max ((r.log2 : ℤ) + 1 + target - 53) (-1074) ≤ target := by omega
    have hshift : shiftToTargetExponent .binary64 r target .exact = (⟨r, false, false⟩, target) := by
      unfold shiftToTargetExponent
      rw [targetExponent_eq]
      unfold shiftToExponent
      have hz : (max ((r.log2 : ℤ) + 1 + target - 53) (-1074) - target).toNat = 0 := by omega
      dsimp only
      rw [hz]
      simp [ExtendedMantissa.ofMantissaAndAccuracy, HShiftRight.hShiftRight, Nat.repeat]
    rw [hshift]
    dsimp only
    by_cases hz : r = 0
    · exact .inl ⟨hz, dif_pos hz⟩
    · exact .inr ⟨r, target, Nat.pos_of_ne_zero hz, dif_neg hz, hlt, hl, hn, rfl⟩
  · -- rounding carried into one more bit
    have hshift : shiftToTargetExponent .binary64 (2 ^ 53) target .exact = (⟨2 ^ 52, false, false⟩, target + 1) := by
      unfold shiftToTargetExponent
      rw [targetExponent_eq, Nat.log2_two_pow]
      unfold shiftToExponent
      have hone : (max (((53 : ℕ) : ℤ) + 1 + target - 53) (-1074) - target).toNat = 1 := by push_cast; omega
      dsimp only
      rw [hone]
      rfl
    rw [hshift]
    refine .inr ⟨2 ^ 52, target + 1, by norm_num, dif_neg (by norm_num), by norm_num, by omega, .inl le_rfl, ?_⟩
    rw [zpow_add_one₀ two_ne_zero]
    push_cast
    ring

/-- Every double with a finer grid lies below the numbers with 53 bits on a coarser one. -/
theorem double_near {q : ℚ} {target : ℤ} {r : ℕ} (hr : |(r : ℚ) - q| ≤ 1 / 2) (hq : target = -1074 ∨ 2 ^ 52 ≤ q) :
    Nearest (r * 2 ^ target) (q * 2 ^ target) := by
  have hgrid : ∀ j : ℕ, |(r * 2 ^ target : ℚ) - q * 2 ^ target| ≤ |(j * 2 ^ target : ℚ) - q * 2 ^ target| := fun j => by
    rw [← sub_mul, ← sub_mul, abs_mul, abs_mul]
    exact mul_le_mul_of_nonneg_right (abs_sub_le_of_near hr) (abs_nonneg _)
  rintro g ⟨k, e, hk, he, rfl⟩
  rcases le_or_gt target e with hte | hte
  · -- a multiple of the grid
    have hg : (k * 2 ^ e : ℚ) = (k * 2 ^ (e - target).toNat : ℕ) * 2 ^ target := by
      have hz : ((e - target).toNat : ℤ) = e - target := Int.toNat_of_nonneg (by omega)
      push_cast
      rw [mul_assoc, ← zpow_natCast (2 : ℚ) (e - target).toNat, hz, ← zpow_add₀ two_ne_zero, sub_add_cancel]
    rw [hg]
    exact hgrid _
  · -- a smaller number, below the least one with 53 bits
    have hq : (2 : ℚ) ^ 52 ≤ q := hq.resolve_left (by omega)
    have hsmall : (k * 2 ^ e : ℚ) ≤ (2 ^ 52 : ℕ) * 2 ^ target := by
      have hk' : (k : ℚ) ≤ 2 ^ 53 := by exact_mod_cast hk
      have hpow : (2 : ℚ) ^ e ≤ 2 ^ (target - 1) := zpow_le_zpow_right₀ (by norm_num) (by omega)
      calc (k * 2 ^ e : ℚ) ≤ 2 ^ 53 * 2 ^ (target - 1) := mul_le_mul hk' hpow (by positivity) (by positivity)
        _ = (2 ^ 52 : ℕ) * 2 ^ target := by rw [zpow_sub_one₀ two_ne_zero]; push_cast; ring
    have hle : ((2 ^ 52 : ℕ) * 2 ^ target : ℚ) ≤ q * 2 ^ target :=
      mul_le_mul_of_nonneg_right (by exact_mod_cast hq) (by positivity)
    refine (hgrid (2 ^ 52)).trans ?_
    rw [abs_of_nonpos (sub_nonpos.2 hle), abs_of_nonpos (sub_nonpos.2 (hsmall.trans hle))]
    linarith

/-- Rounding gives a number that is written with as few bits as it takes, and a nearest one. -/
theorem roundWithAccuracy_nearest (h : StandsFor (.ofMantissaAndAccuracy m acc) t)
    (he : e ≤ max ((m.log2 : ℤ) + 1 + e - 53) (-1074)) :
    ∃ y, Magnitude (roundWithAccuracy .binary64 .positive m e acc) y ∧ Nearest y (t * 2 ^ e) := by
  generalize htarget : max ((m.log2 : ℤ) + 1 + e - 53) (-1074) = target at he
  obtain ⟨em, hs, hem⟩ := shiftToTargetExponent_standsFor h htarget.symm he
  obtain ⟨hu, hl⟩ := log2_bounds h
  have hpow : (0 : ℚ) < 2 ^ target := by positivity
  have hx : t * 2 ^ e / 2 ^ target * 2 ^ target = t * 2 ^ e := div_mul_cancel₀ _ hpow.ne'
  -- the exact number has 53 bits before the point, or the exponent is the least one
  have hupper : t * 2 ^ e / 2 ^ target < 2 ^ 53 := by
    rw [div_lt_iff₀ hpow]
    calc t * 2 ^ e < 2 ^ (m.log2 + 1) * 2 ^ e := mul_lt_mul_of_pos_right hu (by positivity)
      _ = 2 ^ ((m.log2 : ℤ) + 1 + e) := by rw [zpow_add₀ two_ne_zero]; norm_cast
      _ ≤ 2 ^ (53 + target) := zpow_le_zpow_right₀ (by norm_num) (by omega)
      _ = 2 ^ 53 * 2 ^ target := by rw [zpow_add₀ two_ne_zero]; norm_cast
  have hlower : target = -1074 ∨ 2 ^ 52 ≤ t * 2 ^ e / 2 ^ target := by
    by_cases hleast : target = -1074
    · exact .inl hleast
    · have hm : m ≠ 0 := by
        rintro rfl
        rw [Nat.log2_zero] at htarget
        omega
      refine .inr ?_
      rw [le_div_iff₀ hpow]
      calc (2 : ℚ) ^ 52 * 2 ^ target = 2 ^ (52 + target) := by rw [zpow_add₀ two_ne_zero]; norm_cast
        _ = 2 ^ ((m.log2 : ℤ) + e) := by congr 1; omega
        _ = 2 ^ m.log2 * 2 ^ e := by rw [zpow_add₀ two_ne_zero]; norm_cast
        _ ≤ t * 2 ^ e := mul_le_mul_of_nonneg_right (hl hm) (by positivity)
  have hnear := hem.rounded_near
  have hnearest : Nearest (em.roundedMantissa * 2 ^ target) (t * 2 ^ e) := by
    rw [← hx]
    exact double_near hnear hlower
  obtain ⟨hleft, hright⟩ := abs_le.1 hnear
  have hr : em.roundedMantissa ≤ 2 ^ 53 := by
    have : (em.roundedMantissa : ℚ) < (2 ^ 53 + 1 : ℕ) := by push_cast; linarith
    exact Nat.le_of_lt_succ (by exact_mod_cast this)
  have hn : 2 ^ 52 ≤ em.roundedMantissa ∨ target = -1074 := by
    rcases hlower with hleast | hlower
    · exact .inr hleast
    · have : ((2 ^ 52 : ℕ) : ℚ) < em.roundedMantissa + 1 := by push_cast; linarith
      exact .inl (Nat.le_of_lt_succ (by exact_mod_cast this))
  rcases roundWithAccuracy_eq .positive hs (by omega) hr hn with ⟨hz, hround⟩ | ⟨m', e', hp, hround, hm', he', hn', hv⟩
  · rw [hround]
    rw [hz] at hnearest
    exact ⟨0, .zero _, by simpa using hnearest⟩
  · rw [hround]
    rw [← hv] at hnearest
    exact ⟨m' * 2 ^ e', .finite hp hm' he' hn', hnearest⟩

end

end Arbiter
