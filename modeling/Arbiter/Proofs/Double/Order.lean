import Arbiter.Proofs.Double.Kinds
import Arbiter.Store.Basic
import Mathlib.Data.Prod.Lex

/-!
# Doubles in order

Comparisons of doubles follow a linear order as long as no operand is no number. Both zeros have one place in it.

* `rank`: the place of a double. `lt_iff_rank`, `le_iff_rank`, `beq_iff_rank`: comparisons are those of the places.
* `not_isNaN_of_le`, `le_trans_double`: what compares is a number, and comparisons go on.
* `rank_unsignedZero`, `isNaN_unsignedZero`: a zero without its sign keeps the place of the zero.
* `HasValue.le_iff`, `HasValue.lt_iff`: numbers are compared by their values. `HasValue.unpack_eq`: a positive value is that
  of one double only.
* `Encodes.magnitude_lt`: the bits of numbers count upwards with them. `HasValue.bits`, `ofBits_hasValue`: from numbers to
  their bits and back.
* `totalKey_lt_of_lt`, `totalKey_injective`: the total order of bit patterns refines the order of numbers, and tells all
  doubles apart.
-/

namespace Arbiter

open Float.Model Float.Model.UnpackedFloat

/-- The place of an unpacked double: first its side and whether it is finite, then its exponent and its digits. -/
def unpackedRank : UnpackedFloat → ℤ ×ₗ ℤ ×ₗ ℤ
  | .infinity .negative => toLex (-2, toLex (0, 0))
  | .finite .negative m e _ => toLex (-1, toLex (-e, -m))
  | .zero _ | .notANumber => toLex (0, toLex (0, 0))
  | .finite .positive m e _ => toLex (1, toLex (e, m))
  | .infinity .positive => toLex (2, toLex (0, 0))

/-- The place of a double among all others. -/
def rank (x : Float) : ℤ ×ₗ ℤ ×ₗ ℤ := unpackedRank x.toModel.unpack

section

variable {u v : UnpackedFloat}

theorem compare_signs : compare Sign.negative Sign.positive = .lt ∧ compare Sign.positive Sign.negative = .gt ∧
    ∀ s : Sign, compare s s = .eq := by
  refine ⟨rfl, rfl, fun s => ?_⟩
  cases s <;> rfl

theorem unpacked_lt_iff (hu : u.isNaN = false) (hv : v.isNaN = false) :
    u.lt v = true ↔ unpackedRank u < unpackedRank v := by
  rcases u with (_ | _) | _ | (_ | _) | ⟨_ | _⟩
  all_goals rcases v with (_ | _) | _ | (_ | _) | ⟨_ | _⟩
  all_goals first
    | cases hu; done
    | cases hv; done
    | simp [UnpackedFloat.lt, UnpackedFloat.compare, unpackedRank, Prod.Lex.toLex_lt_toLex, Ordering.then_eq_lt,
        Ordering.then_eq_gt, compare_lt_iff_lt, compare_gt_iff_gt, compare_signs]

theorem unpacked_beq_iff (hu : u.isNaN = false) (hv : v.isNaN = false) :
    u.beq v = true ↔ unpackedRank u = unpackedRank v := by
  rcases u with (_ | _) | _ | (_ | _) | ⟨_ | _⟩
  all_goals rcases v with (_ | _) | _ | (_ | _) | ⟨_ | _⟩
  all_goals first
    | cases hu; done
    | cases hv; done
    | simp [UnpackedFloat.beq, UnpackedFloat.compare, unpackedRank, Ordering.then_eq_eq, compare_signs]

theorem unpacked_le_iff (hu : u.isNaN = false) (hv : v.isNaN = false) :
    u.le v = true ↔ unpackedRank u ≤ unpackedRank v := by
  rw [le_iff_lt_or_eq, ← unpacked_lt_iff hu hv, ← unpacked_beq_iff hu hv]
  unfold UnpackedFloat.le UnpackedFloat.lt UnpackedFloat.beq
  cases u.compare v with
  | none => simp
  | some o => cases o <;> simp [Ordering.isLE]

end

section

variable {x y : Float}

theorem lt_iff_rank (hx : x.isNaN = false) (hy : y.isNaN = false) : x < y ↔ rank x < rank y :=
  (lt_iff x y).trans (unpacked_lt_iff hx hy)

theorem beq_iff_rank (hx : x.isNaN = false) (hy : y.isNaN = false) : (x == y) = true ↔ rank x = rank y :=
  unpacked_beq_iff hx hy

theorem le_iff_rank (hx : x.isNaN = false) (hy : y.isNaN = false) : x ≤ y ↔ rank x ≤ rank y :=
  (le_iff x y).trans (unpacked_le_iff hx hy)

/-- What compares is a number. -/
theorem not_isNaN_of_le (h : x ≤ y) : x.isNaN = false ∧ y.isNaN = false := by
  rw [le_iff] at h
  change x.toModel.unpack.isNaN = false ∧ y.toModel.unpack.isNaN = false
  revert h
  generalize x.toModel.unpack = u
  generalize y.toModel.unpack = v
  intro h
  rcases u with (_ | _) | _ | _ | (_ | _)
  all_goals rcases v with (_ | _) | _ | _ | (_ | _)
  all_goals first | exact ⟨rfl, rfl⟩ | cases h

theorem not_le_of_isNaN (h : x.isNaN = true) : ¬x ≤ y ∧ ¬y ≤ x := by
  constructor
  · intro hle
    exact absurd h (Bool.eq_false_iff.1 (not_isNaN_of_le hle).1)
  · intro hle
    exact absurd h (Bool.eq_false_iff.1 (not_isNaN_of_le hle).2)

theorem le_trans_double {z : Float} (h : x ≤ y) (h' : y ≤ z) : x ≤ z := by
  obtain ⟨hx, hy⟩ := not_isNaN_of_le h
  obtain ⟨-, hz⟩ := not_isNaN_of_le h'
  rw [le_iff_rank hx hy] at h
  rw [le_iff_rank hy hz] at h'
  rw [le_iff_rank hx hz]
  exact h.trans h'

/-- The bits of a double are all of it. -/
theorem eq_of_toBits (h : x.toBits = y.toBits) : x = y := by
  obtain ⟨⟨_, _⟩⟩ := x
  obtain ⟨⟨_, _⟩⟩ := y
  cases h
  rfl

/-- A zero without its sign is a zero. -/
theorem rank_unsignedZero (x : Float) : rank (Store.unsignedZero x) = rank x := by
  unfold Store.unsignedZero
  split
  case isTrue h =>
    have hx : x = -0.0 := eq_of_toBits h
    rw [hx]
    rfl
  case isFalse => rfl

theorem isNaN_unsignedZero (x : Float) : (Store.unsignedZero x).isNaN = x.isNaN := by
  unfold Store.unsignedZero
  split
  case isTrue h =>
    have hx : x = -0.0 := eq_of_toBits h
    rw [hx]
    rfl
  case isFalse => rfl

end

/-! ## Numbers in order -/

section

variable {u v : UnpackedFloat} {x y : ℚ}

theorem Magnitude.not_isNaN (h : Magnitude u x) : u.isNaN = false := by
  cases h <;> rfl

/-- Where each significand has all its bits, the greater exponent makes the greater number. -/
theorem significand_lt {m m' : ℕ} {e e' : ℤ} (hm : m < 2 ^ 53) (hm' : 2 ^ 52 ≤ m') (h : e < e') :
    (m * 2 ^ e : ℚ) < m' * 2 ^ e' := by
  have hm : (m : ℚ) < 2 ^ 53 := by exact_mod_cast hm
  have hm' : (2 : ℚ) ^ 52 ≤ m' := by exact_mod_cast hm'
  have hpow : (2 : ℚ) ^ (e + 1) ≤ 2 ^ e' := zpow_le_zpow_right₀ (by norm_num) (by omega)
  calc (m * 2 ^ e : ℚ) < 2 ^ 53 * 2 ^ e := mul_lt_mul_of_pos_right hm (by positivity)
    _ = 2 ^ 52 * 2 ^ (e + 1) := by rw [zpow_add_one₀ two_ne_zero]; ring
    _ ≤ m' * 2 ^ e' := mul_le_mul hm' hpow (by positivity) (by positivity)

theorem Magnitude.lt_of_rank (hu : Magnitude u x) (hv : Magnitude v y) (h : unpackedRank u < unpackedRank v) :
    x < y := by
  cases hu with
  | zero s =>
    cases hv with
    | zero s' => exact absurd h (lt_irrefl _)
    | finite => positivity
  | @finite m e hp hm he hn =>
    cases hv with
    | zero s' => simp [unpackedRank, Prod.Lex.toLex_lt_toLex] at h
    | @finite m' e' hp' hm' he' hn' =>
      have hlex : e < e' ∨ e = e' ∧ m < m' := by simpa [unpackedRank, Prod.Lex.toLex_lt_toLex] using h
      rcases hlex with he | ⟨rfl, hmm⟩
      · exact significand_lt hm (hn'.resolve_right (by omega)) he
      · have hmm : (m : ℚ) < m' := by exact_mod_cast hmm
        exact mul_lt_mul_of_pos_right hmm (by positivity)

theorem Magnitude.eq_of_rank (hu : Magnitude u x) (hv : Magnitude v y) (h : unpackedRank u = unpackedRank v) :
    x = y := by
  cases hu with
  | zero s =>
    cases hv with
    | zero s' => rfl
    | finite => simp [unpackedRank] at h
  | finite =>
    cases hv with
    | zero s' => simp [unpackedRank] at h
    | finite =>
      simp only [unpackedRank, toLex_inj, Prod.mk.injEq, Nat.cast_inj, true_and] at h
      rw [h.1, h.2]

/-- Numbers have the order of their places. -/
theorem Magnitude.lt_iff (hu : Magnitude u x) (hv : Magnitude v y) : unpackedRank u < unpackedRank v ↔ x < y := by
  refine ⟨hu.lt_of_rank hv, fun h => ?_⟩
  by_contra! hle
  rcases hle.lt_or_eq with hlt | heq
  · exact lt_asymm h (hv.lt_of_rank hu hlt)
  · exact h.ne (hu.eq_of_rank hv heq.symm)

/-- A positive number is written in one way only. -/
theorem Magnitude.unique (hu : Magnitude u x) (hv : Magnitude v y) (hx : 0 < x) (h : x = y) : u = v := by
  have hrank : unpackedRank u = unpackedRank v := by
    refine le_antisymm (not_lt.1 fun hlt => ?_) (not_lt.1 fun hlt => ?_)
    · exact (hv.lt_of_rank hu hlt).ne h.symm
    · exact (hu.lt_of_rank hv hlt).ne h
  cases hu with
  | zero => exact absurd hx (lt_irrefl 0)
  | finite =>
    cases hv with
    | zero => simp [unpackedRank] at hrank
    | finite =>
      simp only [unpackedRank, toLex_inj, Prod.mk.injEq, Nat.cast_inj, true_and] at hrank
      exact finite_congr rfl hrank.2 hrank.1

variable {a b : Float}

theorem HasValue.not_isNaN (h : HasValue a x) : a.isNaN = false := h.1.not_isNaN

theorem HasValue.le_iff (ha : HasValue a x) (hb : HasValue b y) : a ≤ b ↔ x ≤ y := by
  rw [le_iff_rank ha.not_isNaN hb.not_isNaN, ← not_lt, ← not_lt]
  exact not_congr (hb.1.lt_iff ha.1)

theorem HasValue.lt_iff (ha : HasValue a x) (hb : HasValue b y) : a < b ↔ x < y :=
  (lt_iff_rank ha.not_isNaN hb.not_isNaN).trans (ha.1.lt_iff hb.1)

theorem HasValue.unpack_eq (ha : HasValue a x) (hb : HasValue b y) (hx : 0 < x) (h : x = y) :
    a.toModel.unpack = b.toModel.unpack := ha.1.unique hb.1 hx h

end

/-! ## The bits of numbers -/

section

variable {n n' : ℕ} {u v : UnpackedFloat} {a : Float} {x y : ℚ}

/-- Bits below those of infinity are those of a number. -/
theorem Encodes.exists_magnitude (h : Encodes .positive n u) (hn : n < 2047 * 2 ^ 52) :
    ∃ x, Magnitude u x ∧ x < 2 ^ 1024 := by
  cases h with
  | zero => exact ⟨0, .zero _, by positivity⟩
  | finite hp hm he he' hn _ => exact ⟨_, .finite hp hm he hn, mul_two_zpow_lt hm he'⟩
  | infinity h => omega
  | notANumber h => omega

/-- Greater bits are those of a greater number. -/
theorem Encodes.magnitude_lt (hu : Encodes .positive n u) (hv : Encodes .positive n' v) (hx : Magnitude u x)
    (hy : Magnitude v y) (h : n < n') : x < y := by
  refine hx.lt_of_rank hy ?_
  cases hx with
  | zero s =>
    cases hy with
    | zero =>
      cases hv with
      | zero hz => omega
    | finite => simp [unpackedRank, Prod.Lex.toLex_lt_toLex]
  | finite =>
    cases hu with
    | finite hp hm he he' hn hbits =>
      cases hy with
      | zero =>
        cases hv with
        | zero hz => omega
      | finite =>
        cases hv with
        | finite hp' hm' _ _ hn' hbits' =>
          simp only [unpackedRank, Prod.Lex.toLex_lt_toLex, lt_irrefl, true_and, false_or]
          omega

/-- A positive number has no sign bit, and some other ones. -/
theorem Encodes.of_magnitude {s : Sign} (h : Encodes s n u) (hx : Magnitude u x) (hpos : 0 < x) :
    s = .positive ∧ 0 < n ∧ n < 2047 * 2 ^ 52 := by
  cases hx with
  | zero => exact absurd hpos (lt_irrefl 0)
  | finite =>
    cases h with
    | finite => exact ⟨rfl, by omega, by omega⟩

/-- Without a sign the bits are all of the pattern. -/
theorem encodes_toBitVec {b : UInt64} (h : b.toNat < 2 ^ 63) :
    Encodes .positive b.toNat (UnpackedFloat.unpack .binary64 b.toBitVec) := by
  have hbits := encodes_unpack b.toBitVec
  rwa [signOfBits, UInt64.toNat_toBitVec, if_neg (by omega), Nat.mod_eq_of_lt h] at hbits

theorem HasValue.bits (h : HasValue a x) (hx : 0 < x) :
    0 < a.toBits.toNat ∧ a.toBits.toNat < 2047 * 2 ^ 52 ∧ Encodes .positive a.toBits.toNat a.toModel.unpack := by
  have hbits : Encodes (signOfBits a.toBits.toBitVec) (a.toBits.toNat % 2 ^ 63) a.toModel.unpack :=
    encodes_unpack a.toBits.toBitVec
  obtain ⟨hs, hpos, hlt⟩ := hbits.of_magnitude h.1 hx
  have hsmall : a.toBits.toNat < 2 ^ 63 := by
    by_contra! hbig
    rw [signOfBits, UInt64.toNat_toBitVec, if_pos hbig] at hs
    cases hs
  rw [Nat.mod_eq_of_lt hsmall] at hpos hlt
  exact ⟨hpos, hlt, encodes_toBitVec hsmall⟩

/-- A double that is given by its bits. -/
theorem ofBits_hasValue {b : UInt64} (h : b.toNat < 2047 * 2 ^ 52) :
    ∃ x, HasValue (Float.ofBits b) x ∧ Magnitude (UnpackedFloat.unpack .binary64 b.toBitVec) x := by
  obtain ⟨x, hx, hlt⟩ := (encodes_toBitVec (by omega)).exists_magnitude h
  have hunpack : (Float.ofBits b).toModel.unpack = repacked (UnpackedFloat.unpack .binary64 b.toBitVec) := rfl
  refine ⟨x, ⟨?_, hlt⟩, hx⟩
  rwa [hunpack, repacked_of_lt hx hlt]

end

/-! ## The total order -/

/-- The place of bits among all patterns: with a sign they count downwards. -/
def bitsKey : Sign → ℕ → ℤ
  | .negative, n => -(n : ℤ) - 1
  | .positive, n => n

theorem Encodes.bitsKey_lt {s s' : Sign} {n n' : ℕ} {u v : UnpackedFloat} (hu : Encodes s n u) (hv : Encodes s' n' v)
    (h : u.lt v = true) : bitsKey s n < bitsKey s' n' := by
  cases hu <;> cases hv <;> cases s <;> cases s'
  all_goals
    simp_all [UnpackedFloat.lt, UnpackedFloat.compare, bitsKey, Ordering.then_eq_lt, Ordering.then_eq_gt,
      compare_lt_iff_lt, compare_gt_iff_gt, compare_signs] <;> omega

theorem totalKey_eq (x : Float) :
    totalKey x = bitsKey (signOfBits x.toModel.toBits.toBitVec) (x.toModel.toBits.toBitVec.toNat % 2 ^ 63) := by
  unfold totalKey Dyadic.signBit signOfBits
  simp only [decide_eq_true_iff]
  change (if 2 ^ 63 ≤ x.toModel.toBits.toBitVec.toNat then _ else _) = _
  split <;> rfl

section

variable {x y : Float}

/-- A lesser double has a lesser key. -/
theorem totalKey_lt_of_lt (h : x < y) : totalKey x < totalKey y := by
  rw [totalKey_eq, totalKey_eq]
  exact (encodes_unpack _).bitsKey_lt (encodes_unpack _) ((lt_iff x y).1 h)

/-- One key is that of one double only. -/
theorem totalKey_injective (h : totalKey x = totalKey y) : x = y := by
  refine eq_of_toBits (UInt64.toNat_inj.1 ?_)
  unfold totalKey Dyadic.signBit Dyadic.magnitudeBits Dyadic.signWeight at h
  have hx := x.toBits.toNat_lt
  have hy := y.toBits.toNat_lt
  simp only [decide_eq_true_iff] at h
  split at h <;> split at h <;> omega

end

end Arbiter
