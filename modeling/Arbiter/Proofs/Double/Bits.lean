import Arbiter.Decimal.Dyadic
import Mathlib

/-!
# Doubles by their bits

Below its sign a double is a number of 63 bits, and these numbers run through the doubles in their order: through the
significands of one exponent, then through those of the next one, up to infinity.

* `Encodes`: which unpacked number some bits stand for. `encodes_unpack`: bits are read as that number.
* `Encodes.isFinite_iff`: the numbers that are finite.
-/

namespace Arbiter

open Float.Model Float.Model.UnpackedFloat

/-- The sign of a pattern of bits. -/
def signOfBits (b : BitVec 64) : Sign := if 2 ^ 63 ≤ b.toNat then .negative else .positive

/-- What a sign and 63 further bits stand for. -/
inductive Encodes (s : Sign) (n : ℕ) : UnpackedFloat → Prop
  | zero (h : n = 0) : Encodes s n (.zero s)
  | finite {m : ℕ} {e : ℤ} (hp : 0 < m) (hm : m < 2 ^ 53) (he : -1074 ≤ e) (he' : e ≤ 971)
      (hn : 2 ^ 52 ≤ m ∨ e = -1074) (h : (n : ℤ) = (e + 1074) * 2 ^ 52 + m) : Encodes s n (.finite s m e hp)
  | infinity (h : n = 2047 * 2 ^ 52) : Encodes s n (.infinity s)
  | notANumber (h : 2047 * 2 ^ 52 < n) : Encodes s n .notANumber

theorem Encodes.isFinite_iff {s : Sign} {n : ℕ} {u : UnpackedFloat} (h : Encodes s n u) (hn : n < 2 ^ 63) :
    u.isFinite = true ↔ ¬n / 2 ^ 52 = 2047 := by
  cases h with
  | zero h => exact iff_of_true rfl (by omega)
  | finite => exact iff_of_true rfl (by omega)
  | infinity h => exact iff_of_false nofun (by omega)
  | notANumber h => exact iff_of_false nofun (by omega)

/-! ## The fields -/

theorem toNat_unpackExponent (b : BitVec 64) :
    (@unpackExponent .binary64 b).toNat = b.toNat / 2 ^ 52 % 2 ^ 11 := by
  change (b.toNat >>> 52) % 2 ^ 11 = _
  rw [Nat.shiftRight_eq_div_pow]

theorem toNat_unpackMantissa (b : BitVec 64) : (@unpackMantissa .binary64 b).toNat = b.toNat % 2 ^ 52 := rfl

theorem ofBitVec_unpackSign (b : BitVec 64) : Sign.ofBitVec (@unpackSign .binary64 b) = signOfBits b := by
  have hbit : (@unpackSign .binary64 b).toNat = b.toNat / 2 ^ 63 := by
    change (b.toNat >>> 63) % 2 ^ 1 = _
    rw [Nat.shiftRight_eq_div_pow]
    have := b.isLt
    omega
  unfold Sign.ofBitVec signOfBits
  by_cases h : 2 ^ 63 ≤ b.toNat
  · rw [if_pos h, if_neg]
    intro hz
    rw [hz] at hbit
    change 0 = _ at hbit
    omega
  · rw [if_neg h, if_pos]
    refine BitVec.eq_of_toNat_eq (hbit.trans ?_)
    change _ = 0
    omega

/-- The bits are read as what they stand for. -/
theorem encodes_unpack (b : BitVec 64) :
    Encodes (signOfBits b) (b.toNat % 2 ^ 63) (UnpackedFloat.unpack .binary64 b) := by
  have hfield := toNat_unpackExponent b
  have hfraction := toNat_unpackMantissa b
  have hlt := b.isLt
  unfold UnpackedFloat.unpack
  dsimp only
  rw [ofBitVec_unpackSign]
  split
  case isTrue hmax =>
    have hmax : (@unpackExponent .binary64 b).toNat = 2047 := congrArg BitVec.toNat hmax
    split
    case isTrue hz =>
      have hz : (@unpackMantissa .binary64 b).toNat = 0 := congrArg BitVec.toNat hz
      exact .infinity (by omega)
    case isFalse hz =>
      have hz : (@unpackMantissa .binary64 b).toNat ≠ 0 := fun h => hz (BitVec.eq_of_toNat_eq h)
      exact .notANumber (by omega)
  case isFalse hmax =>
    have hmax : (@unpackExponent .binary64 b).toNat ≠ 2047 := fun h => hmax (BitVec.eq_of_toNat_eq h)
    split
    case isTrue hleast =>
      have hleast : (@unpackExponent .binary64 b).toNat = 0 := congrArg BitVec.toNat hleast
      split
      case isTrue hz =>
        have hz : (@unpackMantissa .binary64 b).toNat = 0 := congrArg BitVec.toNat hz
        exact .zero (by omega)
      case isFalse hz =>
        have he : ((@unpackExponent .binary64 b).toNat : ℤ) - 1075 + 1 = -1074 := by omega
        change Encodes _ _ (.finite _ _ (((@unpackExponent .binary64 b).toNat : ℤ) - 1075 + 1) _)
        exact .finite _ (by omega) (by omega) (by omega) (.inr he) (by rw [he]; omega)
    case isFalse hleast =>
      have hleast : (@unpackExponent .binary64 b).toNat ≠ 0 := fun h => hleast (BitVec.eq_of_toNat_eq h)
      -- the significand gets its hidden bit
      have hm : (1#1 ++ @unpackMantissa .binary64 b).toNat = 2 ^ 52 + b.toNat % 2 ^ 52 := by
        rw [BitVec.toNat_append, ← Nat.shiftLeft_add_eq_or_of_lt (BitVec.isLt _), Nat.shiftLeft_eq]
        change 1 * 2 ^ 52 + _ = _
        omega
      change Encodes _ _ (.finite _ _ (((@unpackExponent .binary64 b).toNat : ℤ) - 1075) _)
      exact .finite _ (by omega) (by omega) (by omega) (.inl (by omega)) (by omega)

end Arbiter
