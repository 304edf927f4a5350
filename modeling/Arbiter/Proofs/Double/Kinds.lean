import Arbiter.Proofs.Double.Arithmetic
import Arbiter.Proofs.Double.Bits

/-!
# Kinds of doubles

A double is finite, infinite on one of both sides, or no number. What is not finite stays so, and what is not less than
zero does not become so.

* `unpack_finite`, `hasValue_of_unpack`: how a finite double is unpacked. `exists_hasValue`: one that is not less than zero has a value.
* `ofFloat?_isSome`: exactly the finite doubles have an exact value.
* `IsInfinity`, `kinds`: the other kinds, and how they compare.
* `isFinite_of_add`, `isFinite_of_div`, `isFinite_of_div_pos`: a finite result comes of finite operands.
* `not_neg_add`, `not_neg_mul`, `not_neg_div`: results that are not less than zero.
-/

namespace Arbiter

open Float.Model Float.Model.UnpackedFloat

/-! ## Finite doubles -/

/-- A double is unpacked with as few bits as it takes. -/
theorem unpack_finite {a : Float} {s : Sign} {m : ℕ} {e : ℤ} {hp : 0 < m} (h : a.toModel.unpack = .finite s m e hp) :
    m < 2 ^ 53 ∧ -1074 ≤ e ∧ e ≤ 971 ∧ (2 ^ 52 ≤ m ∨ e = -1074) := by
  have hbits := encodes_unpack a.toModel.toBits.toBitVec
  change Encodes _ _ a.toModel.unpack at hbits
  rw [h] at hbits
  cases hbits with
  | finite _ hm he he' hn _ => exact ⟨hm, he, he', hn⟩

theorem hasValue_of_unpack {a : Float} {m : ℕ} {e : ℤ} {hp : 0 < m} (h : a.toModel.unpack = .finite .positive m e hp) :
    HasValue a (m * 2 ^ e) := by
  obtain ⟨hm, he, he', hn⟩ := unpack_finite h
  exact ⟨h ▸ .finite hp hm he hn, mul_two_zpow_lt hm he'⟩

theorem lt_iff (a b : Float) : a < b ↔ a.toModel.unpack.lt b.toModel.unpack = true := by
  change decide _ = true ↔ _
  rw [decide_eq_true_iff]
  exact Iff.rfl

theorem le_iff (a b : Float) : a ≤ b ↔ a.toModel.unpack.le b.toModel.unpack = true := by
  change decide _ = true ↔ _
  rw [decide_eq_true_iff]
  exact Iff.rfl

theorem unpack_zero : (0 : Float).toModel.unpack = .zero .positive := rfl

variable {a : Float} {x : ℚ}

theorem HasValue.isFinite (h : HasValue a x) : a.isFinite = true := by
  change a.toModel.unpack.isFinite = true
  obtain ⟨h, -⟩ := h
  revert h
  generalize a.toModel.unpack = u
  intro h
  cases h <;> rfl

theorem HasValue.pos_iff (h : HasValue a x) : 0 < a ↔ 0 < x := by
  rw [lt_iff, unpack_zero]
  obtain ⟨h, -⟩ := h
  revert h
  generalize a.toModel.unpack = u
  intro h
  cases h with
  | zero s => exact ⟨nofun, fun hx => absurd hx (lt_irrefl 0)⟩
  | finite => exact ⟨fun _ => by positivity, fun _ => rfl⟩

theorem HasValue.le_zero_iff (h : HasValue a x) : a ≤ 0 ↔ x ≤ 0 := by
  rw [le_iff, unpack_zero]
  obtain ⟨h, -⟩ := h
  revert h
  generalize a.toModel.unpack = u
  intro h
  cases h with
  | zero s => exact ⟨fun _ => le_refl 0, fun _ => rfl⟩
  | finite hp =>
    have hpos : ∀ (m : ℕ) (e : ℤ), 0 < m → ¬(m * 2 ^ e : ℚ) ≤ 0 := fun m e hp => not_le.2 (by positivity)
    exact ⟨nofun, fun hx => absurd hx (hpos _ _ hp)⟩

theorem beq_zero_iff : (a == 0.0) = true ↔ HasValue a 0 := by
  change a.toModel.unpack.beq (.zero .positive) = true ↔ Magnitude a.toModel.unpack 0 ∧ _
  generalize a.toModel.unpack = u
  have hbound : (0 : ℚ) < 2 ^ 1024 := by positivity
  cases u with
  | zero s => exact iff_of_true rfl ⟨.zero s, hbound⟩
  | notANumber => exact iff_of_false nofun nofun
  | infinity s => cases s <;> exact iff_of_false nofun nofun
  | finite s m e hp =>
    refine iff_of_false (by cases s <;> nofun) fun ⟨h, _⟩ => ?_
    generalize hx : (0 : ℚ) = x at h
    cases h with
    | finite => exact (by positivity : (m * 2 ^ e : ℚ) ≠ 0) hx.symm

/-- A double that is not less than zero is not a number, infinite, or has a value. -/
theorem kinds_of_not_neg (h : ¬a < 0) :
    a.toModel.unpack = .notANumber ∨ a.toModel.unpack = .infinity .positive ∨ ∃ x, HasValue a x := by
  rw [lt_iff, unpack_zero] at h
  unfold HasValue
  have hshape := @unpack_finite a
  revert h hshape
  generalize a.toModel.unpack = u
  intro h hshape
  cases u with
  | notANumber => exact .inl rfl
  | infinity s =>
    cases s with
    | positive => exact .inr (.inl rfl)
    | negative => exact absurd rfl h
  | zero s => exact .inr (.inr ⟨0, .zero s, by positivity⟩)
  | finite s m e hp =>
    cases s with
    | negative => exact absurd rfl h
    | positive =>
      obtain ⟨hm, he, he', hn⟩ := hshape rfl
      exact .inr (.inr ⟨m * 2 ^ e, .finite hp hm he hn, mul_two_zpow_lt hm he'⟩)

theorem exists_hasValue (hf : a.isFinite = true) (hn : ¬a < 0) : ∃ x, HasValue a x := by
  have hf : a.toModel.unpack.isFinite = true := hf
  rcases kinds_of_not_neg hn with h | h | h
  · rw [h] at hf
    cases hf
  · rw [h] at hf
    cases hf
  · exact h

theorem isFinite_iff (a : Float) : a.isFinite = true ↔ a.toModel.unpack.isFinite = true := Iff.rfl

/-- A double has an exact value exactly if it is finite. -/
theorem ofFloat?_isSome (x : Float) : (Dyadic.ofFloat? x).isSome = x.isFinite := by
  have hfield : x.isFinite = true ↔ ¬Dyadic.magnitudeBits x / Dyadic.hiddenBit = 2047 :=
    (encodes_unpack x.toModel.toBits.toBitVec).isFinite_iff (Nat.mod_lt _ (by norm_num))
  rw [Bool.eq_iff_iff, hfield]
  unfold Dyadic.ofFloat?
  dsimp only
  split
  · rename_i h
    simp [h]
  · rename_i h
    simp only [h, not_false_eq_true, iff_true]
    split <;> rfl

/-! ## Infinities -/

/-- The double is an infinity of this sign. -/
def IsInfinity (s : Sign) (a : Float) : Prop := a.toModel.unpack = .infinity s

/-- A double is finite, infinite on one of both sides, or no number. -/
theorem kinds (a : Float) :
    a.isFinite = true ∨ IsInfinity .positive a ∨ IsInfinity .negative a ∨ a.isNaN = true := by
  change a.toModel.unpack.isFinite = true ∨ _ ∨ _ ∨ a.toModel.unpack.isNaN = true
  unfold IsInfinity
  generalize a.toModel.unpack = u
  rcases u with (_ | _) | _ | _ | _
  · exact .inr (.inr (.inl rfl))
  · exact .inr (.inl rfl)
  · exact .inr (.inr (.inr rfl))
  · exact .inl rfl
  · exact .inl rfl

section

variable {b : Float}

theorem IsInfinity.not_isFinite {s : Sign} (h : IsInfinity s a) : ¬a.isFinite = true := by
  rw [isFinite_iff, h]
  nofun

theorem IsInfinity.not_isNaN {s : Sign} (h : IsInfinity s a) : ¬a.isNaN = true := by
  change ¬a.toModel.unpack.isNaN = true
  rw [h]
  nofun

theorem not_isNaN_of_isFinite (h : a.isFinite = true) : ¬a.isNaN = true := by
  rw [isFinite_iff] at h
  change ¬a.toModel.unpack.isNaN = true
  revert h
  generalize a.toModel.unpack = u
  intro h
  cases u with
  | notANumber => cases h
  | _ => exact Bool.false_ne_true

/-- Nothing compares with what is no number. -/
theorem not_lt_of_isNaN (h : b.isNaN = true) : ¬a < b := by
  change b.toModel.unpack.isNaN = true at h
  rw [lt_iff]
  revert h
  generalize b.toModel.unpack = v
  intro h
  cases v with
  | notANumber =>
    generalize a.toModel.unpack = u
    rcases u with (_ | _) | _ | _ | (_ | _) <;> nofun
  | _ => cases h

theorem not_lt_negative (h : IsInfinity .negative b) : ¬a < b := by
  rw [lt_iff, h]
  generalize a.toModel.unpack = u
  rcases u with (_ | _) | _ | _ | (_ | _) <;> nofun

theorem not_positive_lt (h : IsInfinity .positive a) : ¬a < b := by
  rw [lt_iff, h]
  generalize b.toModel.unpack = u
  rcases u with (_ | _) | _ | _ | (_ | _) <;> nofun

theorem negative_lt (h : IsInfinity .negative a) (hf : b.isFinite = true) : a < b := by
  rw [isFinite_iff] at hf
  rw [lt_iff, h]
  revert hf
  generalize b.toModel.unpack = u
  intro hf
  rcases u with (_ | _) | _ | _ | (_ | _) <;> first | rfl | cases hf

theorem lt_positive (h : IsInfinity .positive b) (hf : a.isFinite = true) : a < b := by
  rw [isFinite_iff] at hf
  rw [lt_iff, h]
  revert hf
  generalize a.toModel.unpack = u
  intro hf
  rcases u with (_ | _) | _ | _ | (_ | _) <;> first | rfl | cases hf

end

/-! ## What is not finite stays so -/

theorem not_isFinite_repacked {u : UnpackedFloat} (h : ¬u.isFinite = true) : ¬(repacked u).isFinite = true := by
  cases u with
  | notANumber => exact h
  | infinity s =>
    cases s <;> exact h
  | zero | finite => exact absurd rfl h

/-- What is stored is a number if it was one. -/
theorem isNaN_repacked {u : UnpackedFloat} (h : u.isNaN = false) : (repacked u).isNaN = false := by
  cases u with
  | notANumber => cases h
  | infinity s => cases s <;> rfl
  | zero s => rw [repacked, unpack_pack_zero]; rfl
  | finite s m e hp =>
    have hfield : ∀ (exponent : BitVec 11) (mantissa : BitVec 52), exponent.toNat < 2047 →
        (UnpackedFloat.unpack .binary64 (packComponents .binary64 s exponent mantissa)).isNaN = false := by
      intro exponent mantissa hlt
      unfold UnpackedFloat.unpack
      rw [if_neg]
      · dsimp only
        split
        · split <;> rfl
        · rfl
      · intro hmax
        rw [unpackExponent_packComponents] at hmax
        rw [hmax] at hlt
        exact absurd hlt (by decide)
    unfold repacked UnpackedFloat.pack
    dsimp only
    rw [biasedExponent_eq]
    split
    · cases s <;> rfl
    · rename_i hlt
      have hlt : ¬2048 ≤ (e + 1075).toNat + 1 := hlt
      split
      · refine hfield _ _ ?_
        rw [BitVec.toNat_ofNat]
        omega
      · exact hfield _ _ (by decide)

section

variable {a b : Float}

theorem isFinite_of_add (h : (a + b).isFinite = true) : a.isFinite = true ∧ b.isFinite = true := by
  rw [isFinite_iff, unpack_add] at h
  have h := not_imp_not.1 not_isFinite_repacked h
  rw [isFinite_iff, isFinite_iff]
  revert h
  generalize a.toModel.unpack = u
  generalize b.toModel.unpack = v
  intro h
  cases u with
  | infinity s =>
    cases v with
    | infinity s' => cases s <;> cases s' <;> cases h
    | _ => cases h
  | _ => cases v <;> first | exact ⟨rfl, rfl⟩ | cases h

theorem isFinite_of_div (h : (a / b).isFinite = true) : a.isFinite = true := by
  rw [isFinite_iff, unpack_div] at h
  have h := not_imp_not.1 not_isFinite_repacked h
  rw [isFinite_iff]
  revert h
  generalize a.toModel.unpack = u
  generalize b.toModel.unpack = v
  intro h
  cases u <;> cases v <;> first | rfl | cases h

/-- Nothing positive comes of a division by what is no number or too great. -/
theorem isFinite_of_div_pos (h : 0 < a / b) : b.isFinite = true := by
  rw [lt_iff, unpack_zero, unpack_div] at h
  rw [isFinite_iff]
  revert h
  generalize a.toModel.unpack = u
  generalize b.toModel.unpack = v
  intro h
  by_contra hv
  have hdiv : UnpackedFloat.div .binary64 u v = .notANumber ∨ ∃ s, UnpackedFloat.div .binary64 u v = .zero s := by
    cases v with
    | zero | finite => exact absurd rfl hv
    | notANumber => cases u <;> exact .inl rfl
    | infinity s =>
      cases u with
      | notANumber | infinity => exact .inl rfl
      | zero | finite => exact .inr ⟨_, rfl⟩
  rcases hdiv with hd | ⟨s, hd⟩
  · rw [hd, repacked, unpack_pack_notANumber] at h
    cases h
  · rw [hd, repacked, unpack_pack_zero] at h
    cases h

end

/-! ## Doubles that are not less than zero -/

/-- An unpacked number that is not less than zero, or no number. -/
def NotNegative : UnpackedFloat → Prop
  | .infinity s | .finite s .. => s = .positive
  | .notANumber | .zero _ => True

theorem not_neg_iff (a : Float) : ¬a < 0 ↔ NotNegative a.toModel.unpack := by
  rw [lt_iff, unpack_zero]
  generalize a.toModel.unpack = u
  rcases u with (_ | _) | _ | _ | (_ | _)
  · exact ⟨fun h => absurd rfl h, nofun⟩
  · exact ⟨fun _ => rfl, fun _ => nofun⟩
  · exact ⟨fun _ => trivial, fun _ => nofun⟩
  · exact ⟨fun _ => trivial, fun _ => nofun⟩
  · exact ⟨fun h => absurd rfl h, nofun⟩
  · exact ⟨fun _ => rfl, fun _ => nofun⟩

theorem not_pos_of_le_zero {a : Float} (h : a ≤ 0) : ¬0 < a := by
  rw [le_iff, unpack_zero] at h
  rw [lt_iff, unpack_zero]
  revert h
  generalize a.toModel.unpack = u
  rcases u with (_ | _) | _ | _ | (_ | _)
  · exact fun _ => Bool.false_ne_true
  · exact fun h => absurd h Bool.false_ne_true
  · exact fun h => absurd h Bool.false_ne_true
  · exact fun _ => Bool.false_ne_true
  · exact fun _ => Bool.false_ne_true
  · exact fun h => absurd h Bool.false_ne_true

theorem not_neg_of_le {a : Float} (h : 0.0 ≤ a) : ¬a < 0 := by
  rw [le_iff] at h
  rw [not_neg_iff]
  revert h
  generalize a.toModel.unpack = u
  rcases u with (_ | _) | _ | _ | (_ | _)
  · exact fun h => absurd h Bool.false_ne_true
  · exact fun _ => rfl
  · exact fun _ => trivial
  · exact fun _ => trivial
  · exact fun h => absurd h Bool.false_ne_true
  · exact fun _ => rfl

theorem zero_le_of_not_neg {a : Float} (hf : a.isFinite = true) (h : ¬a < 0) : 0.0 ≤ a := by
  rw [isFinite_iff] at hf
  rw [not_neg_iff] at h
  rw [le_iff]
  revert hf h
  generalize a.toModel.unpack = u
  rcases u with (_ | _) | _ | _ | (_ | _)
  · exact nofun
  · exact nofun
  · exact nofun
  · exact fun _ _ => rfl
  · exact fun _ => nofun
  · exact fun _ _ => rfl

/-- An unpacked number on one side of zero, or no number. A zero lies on both sides. -/
def OnSide (s : Sign) : UnpackedFloat → Prop
  | .infinity t | .finite t .. => t = s
  | .notANumber | .zero _ => True

/-- What is stored keeps its sign. -/
theorem OnSide.repacked {s : Sign} {u : UnpackedFloat} (h : OnSide s u) : OnSide s (repacked u) := by
  have hsign : ∀ bits : BitVec Format.binary64.numBits, Sign.ofBitVec (unpackSign bits) = s →
      OnSide s (UnpackedFloat.unpack .binary64 bits) := fun bits hs => by
    unfold UnpackedFloat.unpack
    dsimp only
    rw [hs]
    split
    · split
      · exact rfl
      · trivial
    · split
      · split
        · trivial
        · exact rfl
      · exact rfl
  have hcomponents : ∀ exponent mantissa,
      Sign.ofBitVec (unpackSign (packComponents .binary64 s exponent mantissa)) = s := fun exponent mantissa => by
    rw [unpackSign_packComponents, Sign.ofBitVec_toBitVec]
  cases u with
  | notANumber => rw [Arbiter.repacked, unpack_pack_notANumber]; trivial
  | zero s => rw [Arbiter.repacked, unpack_pack_zero]; trivial
  | infinity t =>
    obtain rfl : t = s := h
    cases t <;> exact rfl
  | finite t m e hp =>
    obtain rfl : t = s := h
    refine hsign _ ?_
    unfold UnpackedFloat.pack
    dsimp only
    split
    · exact hcomponents ..
    · split
      · exact hcomponents ..
      · exact hcomponents ..

theorem onSide_roundWithAccuracy (s : Sign) (m : ℕ) (e : ℤ) (acc : Accuracy) :
    OnSide s (roundWithAccuracy .binary64 s m e acc) := by
  unfold roundWithAccuracy
  dsimp only
  split
  · trivial
  · exact rfl

theorem notNegative_iff {u : UnpackedFloat} : NotNegative u ↔ OnSide .positive u := by
  cases u <;> exact Iff.rfl

theorem NotNegative.repacked {u : UnpackedFloat} (h : NotNegative u) : NotNegative (repacked u) :=
  notNegative_iff.2 (notNegative_iff.1 h).repacked

theorem notNegative_roundWithAccuracy (m : ℕ) (e : ℤ) (acc : Accuracy) :
    NotNegative (roundWithAccuracy .binary64 .positive m e acc) :=
  notNegative_iff.2 (onSide_roundWithAccuracy ..)

section

variable {u v : UnpackedFloat}

theorem NotNegative.add (hu : NotNegative u) (hv : NotNegative v) : NotNegative (.add .binary64 u v) := by
  cases u with
  | notANumber => trivial
  | infinity s =>
    obtain rfl : s = .positive := hu
    cases v with
    | infinity s' =>
      obtain rfl : s' = .positive := hv
      exact rfl
    | notANumber => trivial
    | zero | finite => exact rfl
  | zero s =>
    cases v with
    | zero s' => cases s <;> cases s' <;> trivial
    | notANumber => trivial
    | infinity | finite => exact hv
  | finite s m e hp =>
    obtain rfl : s = .positive := hu
    cases v with
    | notANumber => trivial
    | infinity => exact hv
    | zero => exact rfl
    | finite s' m' e' hp' =>
      obtain rfl : s' = .positive := hv
      obtain ⟨k, -, -, hadd⟩ := add_finite hp hp' e e'
      rw [hadd]
      exact notNegative_roundWithAccuracy ..

theorem NotNegative.mul (hu : NotNegative u) (hv : NotNegative v) : NotNegative (.mul .binary64 u v) := by
  cases u with
  | notANumber => trivial
  | infinity s =>
    obtain rfl : s = .positive := hu
    cases v with
    | notANumber | zero => trivial
    | infinity s' | finite s' =>
      obtain rfl : s' = .positive := hv
      exact rfl
  | zero s => cases v <;> trivial
  | finite s m e hp =>
    obtain rfl : s = .positive := hu
    cases v with
    | notANumber | zero => trivial
    | infinity s' =>
      obtain rfl : s' = .positive := hv
      exact rfl
    | finite s' m' e' hp' =>
      obtain rfl : s' = .positive := hv
      exact notNegative_roundWithAccuracy ..

/-- A zero as divisor could have either sign. -/
theorem NotNegative.div (hu : NotNegative u) (hv : NotNegative v) (hz : ∀ s, v ≠ .zero s) :
    NotNegative (.div .binary64 u v) := by
  cases v with
  | zero s => exact absurd rfl (hz s)
  | notANumber => cases u <;> trivial
  | infinity s' =>
    cases u <;> trivial
  | finite s' m' e' hp' =>
    obtain rfl : s' = .positive := hv
    cases u with
    | notANumber | zero => trivial
    | infinity s =>
      obtain rfl : s = .positive := hu
      exact rfl
    | finite s m e hp =>
      obtain rfl : s = .positive := hu
      exact notNegative_roundWithAccuracy ..

end

section

variable {b : Float}

theorem not_neg_add (ha : ¬a < 0) (hb : ¬b < 0) : ¬a + b < 0 := by
  rw [not_neg_iff] at *
  exact (ha.add hb).repacked

theorem not_neg_mul (ha : ¬a < 0) (hb : ¬b < 0) : ¬a * b < 0 := by
  rw [not_neg_iff] at *
  exact (ha.mul hb).repacked

theorem not_neg_div (ha : ¬a < 0) (hb : ¬b ≤ 0) : ¬a / b < 0 := by
  rw [not_neg_iff] at *
  rw [le_iff, unpack_zero] at hb
  have hv : NotNegative b.toModel.unpack ∧ ∀ s, b.toModel.unpack ≠ .zero s := by
    revert hb
    generalize b.toModel.unpack = v
    intro hb
    rcases v with (_ | _) | _ | _ | (_ | _)
    · exact absurd rfl hb
    · exact ⟨rfl, nofun⟩
    · exact ⟨trivial, nofun⟩
    · exact absurd rfl hb
    · exact absurd rfl hb
    · exact ⟨rfl, nofun⟩
  exact (ha.div hv.1 hv.2).repacked

end

end Arbiter
