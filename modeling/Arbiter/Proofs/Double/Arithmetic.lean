import Arbiter.Proofs.Double.Rounding
import Mathlib

/-!
# The arithmetic of doubles that are not negative

Each operation finds its result exactly, rounds it and stores it. What is too great to be stored becomes infinite.

* `repacked`: what is left of an unpacked number once it is stored. `repacked_of_lt`, `repacked_of_le`: the number itself
  if it is below the bound, and infinity otherwise.
* `HasValue`: the double is a number that is not negative.
* `Rounds`: the double is what an operation gives that comes to a number exactly. `rounds_add`, `rounds_mul`,
  `rounds_div`: sums, products and quotients.
-/

namespace Arbiter

open Float.Model Float.Model.UnpackedFloat

/-! ## The bits of a double -/

theorem finite_congr {s s' : Sign} {m m' : ℕ} {e e' : ℤ} {hp : 0 < m} {hp' : 0 < m'} (hs : s = s') (hm : m = m')
    (he : e = e') : UnpackedFloat.finite s m e hp = .finite s' m' e' hp' := by
  subst hs hm he
  rfl

/-- The hidden bit. -/
theorem toNat_hidden {m : ℕ} (hl : 2 ^ 52 ≤ m) (hu : m < 2 ^ 53) : (1#1 ++ BitVec.ofNat 52 m).toNat = m := by
  rw [BitVec.toNat_append, ← Nat.shiftLeft_add_eq_or_of_lt (BitVec.isLt _), BitVec.toNat_ofNat]
  simp only [BitVec.toNat_ofNat, Nat.shiftLeft_eq]
  omega

theorem biasedExponent_eq (e : ℤ) :
    e + (Format.binary64.exponentBias : ℤ) + (Format.binary64.mantissaBitsWithoutImplicit : ℤ) = e + 1075 := by
  change e + (1023 : ℕ) + (52 : ℕ) = _
  push_cast
  ring

theorem unpack_pack_normal {m : ℕ} {e : ℤ} (hp : 0 < m) (s : Sign) (hl : 2 ^ 52 ≤ m) (hu : m < 2 ^ 53) (he : -1074 ≤ e)
    (he' : e ≤ 971) : unpack .binary64 (pack .binary64 (.finite s m e hp)) = .finite s m e hp := by
  have hlog : m.log2 = 52 := (Nat.log2_eq_iff hp.ne').2 ⟨hl, hu⟩
  have hfield : (e + 1075).toNat < 2047 := by omega
  have hpack : pack .binary64 (.finite s m e hp) =
      packComponents .binary64 s (BitVec.ofNat 11 (e + 1075).toNat) (BitVec.ofNat 52 m) := by
    unfold UnpackedFloat.pack
    dsimp only
    rw [biasedExponent_eq, hlog, if_neg (by change ¬2048 ≤ _; omega)]
    exact if_pos rfl
  have hbits : (BitVec.ofNat 11 (e + 1075).toNat).toNat = (e + 1075).toNat := by
    rw [BitVec.toNat_ofNat]
    omega
  rw [hpack]
  unfold UnpackedFloat.unpack
  rw [if_neg, if_neg]
  · refine finite_congr ?_ ?_ ?_
    · rw [unpackSign_packComponents, Sign.ofBitVec_toBitVec]
    · rw [unpackMantissa_packComponents]
      exact toNat_hidden hl hu
    · rw [unpackExponent_packComponents, hbits]
      change ((e + 1075).toNat : ℤ) - ((1023 : ℕ) + (52 : ℕ)) = e
      omega
  · intro h
    have := congrArg BitVec.toNat h
    rw [unpackExponent_packComponents, hbits] at this
    simp at this
    omega
  · intro h
    have := congrArg BitVec.toNat h
    rw [unpackExponent_packComponents, hbits] at this
    simp at this
    omega

theorem unpack_pack_subnormal {m : ℕ} (hp : 0 < m) (s : Sign) (hu : m < 2 ^ 52) :
    unpack .binary64 (pack .binary64 (.finite s m (-1074) hp)) = .finite s m (-1074) hp := by
  have hlog : m.log2 < 52 := (Nat.log2_lt hp.ne').2 hu
  have hpack : pack .binary64 (.finite s m (-1074) hp) = packComponents .binary64 s 0#_ (BitVec.ofNat 52 m) := by
    unfold UnpackedFloat.pack
    dsimp only
    rw [if_neg (by decide), if_neg (by change ¬m.log2 + 1 = 53; omega)]
  have hbits : (BitVec.ofNat 52 m).toNat = m := by
    rw [BitVec.toNat_ofNat]
    omega
  rw [hpack]
  unfold UnpackedFloat.unpack
  rw [if_neg (by rw [unpackExponent_packComponents]; decide), if_pos (unpackExponent_packComponents ..), dif_neg]
  · refine finite_congr ?_ ?_ ?_
    · rw [unpackSign_packComponents, Sign.ofBitVec_toBitVec]
    · rw [unpackMantissa_packComponents]
      exact hbits
    · rw [unpackExponent_packComponents]
      rfl
  · intro h
    have := congrArg BitVec.toNat h
    rw [unpackMantissa_packComponents, hbits] at this
    simp at this
    omega

theorem unpack_pack_zero (s : Sign) : unpack .binary64 (pack .binary64 (.zero s)) = .zero s := unpack_packedZero

theorem unpack_pack_notANumber : unpack .binary64 (pack .binary64 .notANumber) = .notANumber := unpack_packedNaN

/-- What is left of an unpacked number once it is stored. -/
def repacked (u : UnpackedFloat) : UnpackedFloat := UnpackedFloat.unpack .binary64 (UnpackedFloat.pack .binary64 u)

theorem repacked_of_lt {u : UnpackedFloat} {x : ℚ} (h : Magnitude u x) (hx : x < 2 ^ 1024) : repacked u = u := by
  cases h with
  | zero s => exact unpack_pack_zero s
  | @finite m e hp hm he hn =>
    rcases hn with hn | rfl
    · refine unpack_pack_normal hp _ hn hm he ?_
      by_contra! hbig
      have hn' : (2 : ℚ) ^ 52 ≤ m := by exact_mod_cast hn
      have hpow : (2 : ℚ) ^ (972 : ℤ) ≤ 2 ^ e := zpow_le_zpow_right₀ (by norm_num) (by omega)
      have hprod : (2 : ℚ) ^ 52 * 2 ^ (972 : ℤ) ≤ m * 2 ^ e := mul_le_mul hn' hpow (by positivity) (by positivity)
      rw [zpow_ofNat, ← pow_add] at hprod
      exact absurd hx (not_lt.2 hprod)
    · by_cases hm' : m < 2 ^ 52
      · exact unpack_pack_subnormal hp _ hm'
      · exact unpack_pack_normal hp _ (by omega) hm (by omega) (by omega)

/-- With 53 bits and the greatest exponent that is stored a number is below the bound. -/
theorem mul_two_zpow_lt {m : ℕ} {e : ℤ} (hm : m < 2 ^ 53) (he : e ≤ 971) : (m * 2 ^ e : ℚ) < 2 ^ 1024 := by
  have hm' : (m : ℚ) < 2 ^ 53 := by exact_mod_cast hm
  have hpow : (2 : ℚ) ^ e ≤ 2 ^ (971 : ℤ) := zpow_le_zpow_right₀ (by norm_num) he
  have hprod : (m : ℚ) * 2 ^ e < 2 ^ 53 * 2 ^ (971 : ℤ) := mul_lt_mul hm' hpow (by positivity) (by positivity)
  rwa [zpow_ofNat, ← pow_add] at hprod

/-- A number that is too great is stored as infinite. -/
theorem repacked_of_le {u : UnpackedFloat} {x : ℚ} (h : Magnitude u x) (hx : 2 ^ 1024 ≤ x) :
    repacked u = .infinity .positive := by
  cases h with
  | zero s => exact absurd hx (not_le.2 (by positivity))
  | @finite m e hp hm he hn =>
    have hbig : 972 ≤ e := by
      by_contra! hsmall
      exact absurd hx (not_le.2 (mul_two_zpow_lt hm (by omega)))
    have hpack : UnpackedFloat.pack .binary64 (.finite .positive m e hp) = packedInfinity .binary64 .positive := by
      unfold UnpackedFloat.pack
      dsimp only
      rw [biasedExponent_eq]
      exact if_pos (by change 2048 ≤ _; omega)
    unfold repacked
    rw [hpack]
    rfl

/-! ## Operations -/

/-- The double is this number, which is not negative. -/
def HasValue (a : Float) (x : ℚ) : Prop := Magnitude a.toModel.unpack x ∧ x < 2 ^ 1024

theorem unpack_add (a b : Float) :
    (a + b).toModel.unpack = repacked (.add .binary64 a.toModel.unpack b.toModel.unpack) := rfl

theorem unpack_mul (a b : Float) :
    (a * b).toModel.unpack = repacked (.mul .binary64 a.toModel.unpack b.toModel.unpack) := rfl

theorem unpack_div (a b : Float) :
    (a / b).toModel.unpack = repacked (.div .binary64 a.toModel.unpack b.toModel.unpack) := rfl

/-- The double is what an operation gives that comes to this number exactly: a nearest double, or infinite if that is too
great. -/
inductive Rounds (x : ℚ) (a : Float) : Prop
  | finite {y : ℚ} (hn : Nearest y x) (hv : HasValue a y)
  | infinite {y : ℚ} (hn : Nearest y x) (hy : 2 ^ 1024 ≤ y) (h : a.toModel.unpack = .infinity .positive)

theorem rounds_of_repacked {u : UnpackedFloat} {x y : ℚ} {a : Float} (hu : Magnitude u y) (hn : Nearest y x)
    (ha : a.toModel.unpack = repacked u) : Rounds x a := by
  rcases lt_or_ge y (2 ^ 1024) with hy | hy
  · refine .finite hn ⟨?_, hy⟩
    rw [ha, repacked_of_lt hu hy]
    exact hu
  · refine .infinite hn hy ?_
    rw [ha, repacked_of_le hu hy]

theorem log2_shiftLeft {m : ℕ} (hm : m ≠ 0) (n : ℕ) : (m <<< n).log2 = m.log2 + n := by
  rw [Nat.shiftLeft_eq, Nat.log2_eq_iff (Nat.mul_ne_zero hm (Nat.two_pow_pos n).ne')]
  constructor
  · rw [pow_add]
    exact Nat.mul_le_mul_right _ (Nat.log2_self_le hm)
  · rw [add_right_comm, pow_add]
    exact Nat.mul_lt_mul_of_pos_right Nat.lt_log2_self (Nat.two_pow_pos n)

/-- An exact number with enough bits is rounded to a nearest one. -/
theorem round_nearest {m : ℕ} (hm : 0 < m) (e : ℤ) :
    ∃ y, Magnitude (UnpackedFloat.round .binary64 .positive m e) y ∧ Nearest y (m * 2 ^ e) := by
  unfold UnpackedFloat.round
  dsimp only
  rw [targetExponent_eq]
  unfold decreaseExponent
  dsimp only
  generalize hn : (e - max ((m.log2 : ℤ) + 1 + e - 53) (-1074)).toNat = n
  have hlog := log2_shiftLeft hm.ne' n
  have hv : ((m <<< n : ℕ) : ℚ) * 2 ^ (e - n) = m * 2 ^ e := by
    rw [Nat.shiftLeft_eq, zpow_sub₀ two_ne_zero, zpow_natCast]
    push_cast
    field_simp
  rw [← hv]
  refine roundWithAccuracy_nearest (standsFor_exact _) ?_
  rw [hlog]
  push_cast
  omega

section

variable {a b : Float} {x y : ℚ}

/-- To shift a significand to a finer grid changes no value. -/
theorem shiftLeft_value (m : ℕ) {e target : ℤ} (h : target ≤ e) :
    ((m <<< (e - target).toNat : ℕ) : ℚ) * 2 ^ target = m * 2 ^ e := by
  have hz : ((e - target).toNat : ℤ) = e - target := Int.toNat_of_nonneg (by omega)
  rw [Nat.shiftLeft_eq]
  push_cast
  rw [mul_assoc, ← zpow_natCast (2 : ℚ) (e - target).toNat, hz, ← zpow_add₀ two_ne_zero, sub_add_cancel]

/-- Two numbers are added on the finer of their grids. -/
theorem add_finite {m m' : ℕ} (hp : 0 < m) (hp' : 0 < m') (e e' : ℤ) :
    ∃ k : ℕ, 0 < k ∧ (k : ℚ) * 2 ^ min e e' = m * 2 ^ e + m' * 2 ^ e' ∧
      UnpackedFloat.add .binary64 (.finite .positive m e hp) (.finite .positive m' e' hp') =
        .round .binary64 .positive k (min e e') := by
  have hk : 0 < m <<< (e - min e e').toNat := by
    rw [Nat.shiftLeft_eq]
    positivity
  refine ⟨m <<< (e - min e e').toNat + m' <<< (e' - min e e').toNat, Nat.add_pos_left hk _, ?_, ?_⟩
  · rw [← shiftLeft_value m (min_le_left e e'), ← shiftLeft_value m' (min_le_right e e')]
    push_cast
    ring
  · unfold UnpackedFloat.add decreaseExponent
    dsimp only
    generalize m <<< (e - min e e').toNat = k at *
    generalize m' <<< (e' - min e e').toNat = k'
    have hpos : compare (Sign.positive.apply k + Sign.positive.apply k') 0 = .gt :=
      Int.compare_eq_gt.2 (by change 0 < (k : ℤ) + k'; omega)
    unfold UnpackedFloat.normalize
    rw [hpos]
    rfl

theorem rounds_add (ha : HasValue a x) (hb : HasValue b y) : Rounds (x + y) (a + b) := by
  have hs := unpack_add a b
  obtain ⟨ha, -⟩ := ha
  obtain ⟨hb, -⟩ := hb
  generalize a.toModel.unpack = u at *
  generalize b.toModel.unpack = v at *
  cases ha with
  | zero s =>
    rw [zero_add]
    cases hb with
    | zero s' => cases s <;> cases s' <;> exact rounds_of_repacked (.zero _) (nearest_self 0) hs
    | finite hp hm he hn => exact rounds_of_repacked (.finite hp hm he hn) (nearest_self _) hs
  | @finite m e hp hm he hn =>
    cases hb with
    | zero s' =>
      rw [add_zero]
      exact rounds_of_repacked (.finite hp hm he hn) (nearest_self _) hs
    | @finite m' e' hp' hm' he' hn' =>
      obtain ⟨k, hk, hv, hadd⟩ := add_finite hp hp' e e'
      obtain ⟨z, hz, hnear⟩ := round_nearest hk (min e e')
      rw [hv] at hnear
      rw [hadd] at hs
      exact rounds_of_repacked hz hnear hs

theorem unpackedMul_comm (u v : UnpackedFloat) : UnpackedFloat.mul .binary64 u v = .mul .binary64 v u := by
  have hsign : ∀ s s' : Sign, s * s' = s' * s := fun s s' => by cases s <;> cases s' <;> rfl
  cases u <;> cases v <;> simp [UnpackedFloat.mul, hsign, Nat.mul_comm, Int.add_comm]

theorem rounds_mul (ha : HasValue a x) (hb : HasValue b y) : Rounds (x * y) (a * b) := by
  have hs := unpack_mul a b
  obtain ⟨ha, -⟩ := ha
  obtain ⟨hb, -⟩ := hb
  generalize a.toModel.unpack = u at *
  generalize b.toModel.unpack = v at *
  cases ha with
  | zero s =>
    rw [zero_mul]
    cases hb with
    | zero s' => exact rounds_of_repacked (.zero _) (nearest_self 0) hs
    | finite hp hm he hn => exact rounds_of_repacked (.zero _) (nearest_self 0) hs
  | @finite m e hp hm he hn =>
    cases hb with
    | zero s' =>
      rw [mul_zero]
      exact rounds_of_repacked (.zero _) (nearest_self 0) hs
    | @finite m' e' hp' hm' he' hn' =>
      have hv : ((m * m' : ℕ) : ℚ) * 2 ^ (e + e') = m * 2 ^ e * (m' * 2 ^ e') := by
        rw [zpow_add₀ two_ne_zero]
        push_cast
        ring
      have hbits : e + e' ≤ max (((m * m').log2 : ℤ) + 1 + (e + e') - 53) (-1074) := by
        -- one factor with 53 bits is enough, and two short ones have the least exponent
        have hlong : 2 ^ 52 ≤ m * m' → 52 ≤ (m * m').log2 := fun h => (Nat.le_log2 (by positivity)).2 h
        rcases hn with hn | hn
        · have := hlong (le_trans hn (Nat.le_mul_of_pos_right m hp'))
          omega
        · rcases hn' with hn' | hn'
          · have := hlong (le_trans hn' (Nat.le_mul_of_pos_left m' hp))
            omega
          · omega
      obtain ⟨z, hz, hnear⟩ := roundWithAccuracy_nearest (standsFor_exact (m * m')) hbits
      rw [← hv]
      exact rounds_of_repacked hz hnear hs

/-- A quotient is found with 53 bits at least, or to the least exponent. -/
theorem div_finite {m m' : ℕ} (hp : 0 < m) (hp' : 0 < m') (e e' : ℤ) : ∃ (q : ℕ) (t : ℚ) (acc : Accuracy) (target : ℤ),
    UnpackedFloat.div .binary64 (.finite .positive m e hp) (.finite .positive m' e' hp') =
      roundWithAccuracy .binary64 .positive q target acc ∧
    StandsFor (.ofMantissaAndAccuracy q acc) t ∧ target ≤ max ((q.log2 : ℤ) + 1 + target - 53) (-1074) ∧
    t * 2 ^ target = m * 2 ^ e / (m' * 2 ^ e') := by
  obtain ⟨target, htarget⟩ : ∃ target, target =
    min (e - e') (Format.binary64.targetExponent (totalExponent m e - totalExponent m' e')) := ⟨_, rfl⟩
  refine ⟨m <<< (e - e' - target).toNat / m', _, _, target, ?_, standsFor_quotient _ hp', ?_, ?_⟩
  · rw [htarget]
    rfl
  · by_cases hleast : target ≤ -1074
    · omega
    · -- above the least exponent the dividend was shifted so far that the quotient has 53 bits
      change target = min _ (max ((m.log2 + 1 + e) - (m'.log2 + 1 + e') - 53) (-1074)) at htarget
      have hshift : 53 + m'.log2 ≤ m.log2 + (e - e' - target).toNat := by omega
      have hquot : 2 ^ 52 ≤ m <<< (e - e' - target).toNat / m' := by
        rw [Nat.le_div_iff_mul_le hp', Nat.shiftLeft_eq]
        calc 2 ^ 52 * m' ≤ 2 ^ 52 * 2 ^ (m'.log2 + 1) := Nat.mul_le_mul_left _ Nat.lt_log2_self.le
          _ = 2 ^ (53 + m'.log2) := by rw [← pow_add]; congr 1; omega
          _ ≤ 2 ^ (m.log2 + (e - e' - target).toNat) := Nat.pow_le_pow_right (by norm_num) hshift
          _ = 2 ^ m.log2 * 2 ^ (e - e' - target).toNat := pow_add _ _ _
          _ ≤ m * 2 ^ (e - e' - target).toNat := Nat.mul_le_mul_right _ (Nat.log2_self_le hp.ne')
      have hlog := (Nat.le_log2 (by omega)).2 hquot
      omega
  · rw [mul_comm, ← mul_div_assoc, mul_comm, shiftLeft_value m (by omega : target ≤ e - e'), zpow_sub₀ two_ne_zero]
    field_simp

theorem rounds_div (ha : HasValue a x) (hb : HasValue b y) (hy : 0 < y) : Rounds (x / y) (a / b) := by
  have hs := unpack_div a b
  obtain ⟨ha, -⟩ := ha
  obtain ⟨hb, -⟩ := hb
  generalize a.toModel.unpack = u at *
  generalize b.toModel.unpack = v at *
  cases hb with
  | zero => exact absurd hy (lt_irrefl 0)
  | @finite m' e' hp' hm' he' hn' =>
    cases ha with
    | zero s =>
      rw [zero_div]
      exact rounds_of_repacked (.zero _) (nearest_self 0) hs
    | @finite m e hp hm he hn =>
      obtain ⟨q, t, acc, target, hdiv, hstands, hbits, hv⟩ := div_finite hp hp' e e'
      obtain ⟨z, hz, hnear⟩ := roundWithAccuracy_nearest hstands hbits
      rw [hv] at hnear
      rw [hdiv] at hs
      exact rounds_of_repacked hz hnear hs

end

end Arbiter
