import Arbiter.Proofs.Double.Kinds

/-!
# Shares of a total

Weights that are not less than zero are scaled by their total. As long as the total does not overflow, and no weight times
a hundred does, all shares are finite and one of them is positive: the total grows no further than far above the greatest
weight, so the share of that one cannot vanish.

* `Nearest.mono`, `Rounds.exact`: rounding keeps the order, and what is a double already.
* `sumFrom_totals`: how a total compares with its parts. `Nearest.saturated`: the bound on its growth.
* `shares_finite`: without an overflow all shares are finite. `finite_of_shares`: and only then.
-/

namespace Arbiter

open Float.Model Float.Model.UnpackedFloat

/-! ## Doubles around a nearest one -/

section

variable {x y z g : ℚ}

theorem Nearest.le (h : Nearest z x) (hg : IsDouble g) (hx : x ≤ g) : z ≤ g := by
  have := h g hg
  rw [abs_of_nonneg (sub_nonneg.2 hx)] at this
  linarith [le_abs_self (z - x)]

theorem Nearest.ge (h : Nearest z x) (hg : IsDouble g) (hx : g ≤ x) : g ≤ z := by
  have := h g hg
  rw [abs_of_nonpos (sub_nonpos.2 hx)] at this
  linarith [neg_abs_le (z - x)]

/-- What is a double is rounded to itself. -/
theorem Nearest.eq_of_isDouble (h : Nearest z x) (hx : IsDouble x) : z = x := by
  have hzero := h x hx
  rw [sub_self, abs_zero] at hzero
  exact sub_eq_zero.1 (abs_nonpos_iff.1 hzero)

/-- The greater of two numbers is not rounded to a lesser double. -/
theorem Nearest.mono (hy : Nearest y x) (hz : Nearest z g) (hy' : IsDouble y) (hz' : IsDouble z) (h : x < g) : y ≤ z := by
  by_contra! hlt
  -- otherwise `x` would lie in the upper half between the two doubles, and `g` in the lower one
  have hx := hy z hz'
  have hg := hz y hy'
  rw [← sq_le_sq] at hx hg
  nlinarith

theorem isDouble_natCast {n : ℕ} (h : n ≤ 2 ^ 53) : IsDouble n := ⟨n, 0, h, by norm_num, by norm_num⟩

/-- A double times a power of two. -/
theorem IsDouble.scale (h : IsDouble x) (n : ℕ) : IsDouble (2 ^ n * x) := by
  obtain ⟨k, e, hk, he, rfl⟩ := h
  refine ⟨k, e + n, hk, by omega, ?_⟩
  rw [zpow_add₀ two_ne_zero, zpow_natCast]
  ring

theorem isDouble_two_zpow {e : ℤ} (he : -1074 ≤ e) : IsDouble (2 ^ e) := ⟨1, e, by norm_num, he, by norm_num⟩

/-- Doubles are not close together. -/
theorem IsDouble.gap (hx : IsDouble x) (hy : IsDouble y) (h : x < y) : y ≤ 2 ^ 54 * (y - x) := by
  obtain ⟨k, e, hk, -, rfl⟩ := hx
  obtain ⟨k', e', hk', -, rfl⟩ := hy
  -- both are multiples of the finer power of two, and one of the two factors is small
  have hx := shiftLeft_value k (min_le_left e e')
  have hy := shiftLeft_value k' (min_le_right e e')
  have hsmall : k <<< (e - min e e').toNat ≤ 2 ^ 53 ∨ k' <<< (e' - min e e').toNat ≤ 2 ^ 53 := by
    rcases le_total e e' with hee | hee
    · left
      rw [min_eq_left hee, sub_self]
      exact hk
    · right
      rw [min_eq_right hee, sub_self]
      exact hk'
  rw [← hx, ← hy] at h ⊢
  generalize k <<< (e - min e e').toNat = a at *
  generalize k' <<< (e' - min e e').toNat = b at *
  have hpow : (0 : ℚ) < 2 ^ min e e' := by positivity
  have hab : a < b := by
    have := lt_of_mul_lt_mul_right h hpow.le
    exact_mod_cast this
  have hnat : b ≤ 2 ^ 54 * (b - a) := by omega
  have hnat' : (b : ℚ) ≤ 2 ^ 54 * (b - a) := by
    have : ((b : ℕ) : ℚ) ≤ ((2 ^ 54 * (b - a) : ℕ) : ℚ) := by exact_mod_cast hnat
    rw [Nat.cast_mul, Nat.cast_sub hab.le] at this
    push_cast at this
    exact this
  calc (b : ℚ) * 2 ^ min e e' ≤ 2 ^ 54 * (b - a) * 2 ^ min e e' := mul_le_mul_of_nonneg_right hnat' hpow.le
    _ = 2 ^ 54 * (b * 2 ^ min e e' - a * 2 ^ min e e') := by ring

/-- A sum that is much greater than what is added no longer grows. -/
theorem Nearest.saturated (hz : IsDouble z) (hy : IsDouble y) (h : Nearest z (x + g)) (hx : x ≤ 2 ^ 56 * y) (hg : g ≤ y) :
    z ≤ 2 ^ 56 * y := by
  have htop : IsDouble (2 ^ 56 * y) := hy.scale 56
  rcases le_or_gt (x + g) (2 ^ 56 * y) with hle | hgt
  · exact h.le htop hle
  · by_contra! hbig
    have hgap := htop.gap hz hbig
    have hnear := h _ htop
    rw [abs_of_neg (sub_neg.2 hgt)] at hnear
    have := le_abs_self (z - (x + g))
    linarith

end

/-! ## Totals -/

theorem HasValue.unique {a : Float} {x y : ℚ} (hx : HasValue a x) (hy : HasValue a y) : x = y := by
  obtain ⟨hx, -⟩ := hx
  obtain ⟨hy, -⟩ := hy
  revert hx hy
  generalize a.toModel.unpack = u
  intro hx hy
  cases hx with
  | zero => cases hy; rfl
  | finite => cases hy; rfl

theorem Rounds.hasValue {a : Float} {x : ℚ} (h : Rounds x a) (hf : a.isFinite = true) :
    ∃ y, Nearest y x ∧ HasValue a y := by
  cases h with
  | finite hn hv => exact ⟨_, hn, hv⟩
  | infinite _ _ h =>
    rw [isFinite_iff, h] at hf
    cases hf

/-- What is not above a double that can be stored does not overflow. -/
theorem Rounds.hasValue_of_le {a : Float} {x g : ℚ} (h : Rounds x a) (hg : IsDouble g) (hb : g < 2 ^ 1024) (hx : x ≤ g) :
    ∃ y, Nearest y x ∧ HasValue a y ∧ y ≤ g := by
  cases h with
  | finite hn hv => exact ⟨_, hn, hv, hn.le hg hx⟩
  | infinite hn hy _ => exact absurd (hn.le hg hx) (not_le.2 (hb.trans_le hy))

/-- A result that is a double is exact. -/
theorem Rounds.exact {a : Float} {x : ℚ} (h : Rounds x a) (hx : IsDouble x) (hb : x < 2 ^ 1024) : HasValue a x := by
  obtain ⟨y, hn, hv, -⟩ := h.hasValue_of_le hx hb le_rfl
  rwa [hn.eq_of_isDouble hx] at hv

theorem two_zpow_lt {e : ℤ} (h : e < 1024) : (2 : ℚ) ^ e < 2 ^ 1024 := by
  rw [← zpow_natCast]
  exact zpow_lt_zpow_right₀ (by norm_num) h

/-- Whole numbers of 53 bits are exact. -/
theorem Rounds.natCast {a : Float} {n : ℕ} (h : Rounds n a) (hn : n ≤ 2 ^ 53) : HasValue a n := by
  have hbits : (n : ℚ) ≤ 2 ^ 53 := by exact_mod_cast hn
  exact h.exact (isDouble_natCast hn) (hbits.trans_lt (two_zpow_lt (e := 53) (by norm_num)))

theorem HasValue.nonneg {a : Float} {x : ℚ} (h : HasValue a x) : 0 ≤ x := h.1.nonneg

theorem HasValue.isDouble {a : Float} {x : ℚ} (h : HasValue a x) : IsDouble x := h.1.isDouble

/-- The sum of some doubles after another one. -/
def sumFrom (a : Float) (ws : List Float) : Float := ws.foldl (· + ·) a

theorem isFinite_of_sumFrom : ∀ {ws : List Float} {a : Float}, (sumFrom a ws).isFinite = true →
    a.isFinite = true ∧ ∀ w ∈ ws, w.isFinite = true
  | [], _, h => ⟨h, nofun⟩
  | w :: rest, a, h => by
    obtain ⟨hsum, hrest⟩ := isFinite_of_sumFrom (a := a + w) h
    obtain ⟨ha, hw⟩ := isFinite_of_add hsum
    exact ⟨ha, List.forall_mem_cons.2 ⟨hw, hrest⟩⟩

/-- What is known of a finite total: it is at least as great as each part, and not much greater than the greatest. -/
structure Totals (x : ℚ) (ws : List Float) (total : ℚ) : Prop where
  start : x ≤ total
  parts : ∀ w ∈ ws, ∀ y, HasValue w y → y ≤ total
  saturated : ∀ top, IsDouble top → x ≤ 2 ^ 56 * top → (∀ w ∈ ws, ∀ y, HasValue w y → y ≤ top) → total ≤ 2 ^ 56 * top

theorem sumFrom_totals : ∀ {ws : List Float} {a : Float} {x : ℚ}, HasValue a x → (∀ w ∈ ws, ¬w < 0) →
    (sumFrom a ws).isFinite = true → ∃ total, HasValue (sumFrom a ws) total ∧ Totals x ws total
  | [], a, x, ha, _, _ => ⟨x, ha, le_refl x, nofun, fun _ _ h _ => h⟩
  | w :: rest, a, x, ha, hn, hf => by
    obtain ⟨hw, hrest⟩ := List.forall_mem_cons.1 hn
    obtain ⟨hsum, -⟩ := @isFinite_of_sumFrom rest (a + w) hf
    obtain ⟨y, hy⟩ := exists_hasValue (isFinite_of_add hsum).2 hw
    obtain ⟨z, hnear, hz⟩ := (rounds_add ha hy).hasValue hsum
    obtain ⟨total, ht, h⟩ := sumFrom_totals hz hrest hf
    have hx : x ≤ z := hnear.ge ha.isDouble (by linarith [hy.nonneg])
    have hyz : y ≤ z := hnear.ge hy.isDouble (by linarith [ha.nonneg])
    refine ⟨total, ht, hx.trans h.start, List.forall_mem_cons.2 ⟨fun y' hy' => ?_, h.parts⟩, fun top htop hxt hparts => ?_⟩
    · rw [hy'.unique hy]
      exact hyz.trans h.start
    · obtain ⟨hfirst, hparts⟩ := List.forall_mem_cons.1 hparts
      exact h.saturated top htop (hnear.saturated hz.isDouble htop hxt (hfirst y hy)) hparts

/-- Of some doubles with values there is a greatest one. -/
theorem exists_greatest : ∀ {ws : List Float}, ws ≠ [] → (∀ w ∈ ws, ∃ y, HasValue w y) →
    ∃ w ∈ ws, ∃ y, HasValue w y ∧ ∀ w' ∈ ws, ∀ y', HasValue w' y' → y' ≤ y
  | [w], _, h => by
    obtain ⟨y, hy⟩ := h w List.mem_cons_self
    refine ⟨w, List.mem_cons_self, y, hy, fun w' hw' y' hy' => ?_⟩
    obtain rfl := List.mem_singleton.1 hw'
    exact (hy'.unique hy).le
  | w :: w₂ :: rest, _, h => by
    obtain ⟨⟨y, hy⟩, hrest⟩ := List.forall_mem_cons.1 h
    obtain ⟨g, hg, top, htop, hgreat⟩ := exists_greatest (List.cons_ne_nil w₂ rest) hrest
    rcases le_total top y with hle | hle
    · refine ⟨w, List.mem_cons_self, y, hy, List.forall_mem_cons.2 ⟨fun y' hy' => (hy'.unique hy).le, ?_⟩⟩
      exact fun w' hw' y' hy' => (hgreat w' hw' y' hy').trans hle
    · refine ⟨g, List.mem_cons_of_mem _ hg, top, htop, List.forall_mem_cons.2 ⟨fun y' hy' => ?_, hgreat⟩⟩
      rw [hy'.unique hy]
      exact hle

/-! ## Shares -/

theorem hundred_hasValue : HasValue 100 100 := by
  have hu : (100 : Float).toModel.unpack = .finite .positive 7036874417766400 (-46) (by norm_num) := rfl
  have hv : ((7036874417766400 : ℕ) : ℚ) * 2 ^ (-46 : ℤ) = 100 := by norm_num
  exact hv ▸ hasValue_of_unpack hu

/-- The share of a part of the total in percent is finite, and positive for a part that is not too small. -/
theorem share_hasValue {w total : Float} {y t : ℚ} (hw : HasValue w y) (ht : HasValue total t) (hp : 0 < t) (hle : y ≤ t)
    (hf : (w * 100).isFinite = true) :
    ∃ q, HasValue (w * 100 / total) q ∧ (t ≤ 2 ^ 56 * y → 0 < q) := by
  obtain ⟨p, hnear, hv⟩ := (rounds_mul hw hundred_hasValue).hasValue hf
  have hy := hw.nonneg
  have hupper : p ≤ 2 ^ 7 * y := hnear.le (hw.isDouble.scale 7) (by linarith)
  have hlower : y ≤ p := hnear.ge hw.isDouble (by linarith)
  have hquot : p / t ≤ 2 ^ (7 : ℤ) := by
    rw [div_le_iff₀ hp]
    norm_num at hupper ⊢
    linarith
  obtain ⟨q, hn, hq, -⟩ :=
    (rounds_div hv ht hp).hasValue_of_le (isDouble_two_zpow (by norm_num)) (two_zpow_lt (by norm_num)) hquot
  refine ⟨q, hq, fun hbig => lt_of_lt_of_le (by positivity) (hn.ge (isDouble_two_zpow (e := -56) (by norm_num)) ?_)⟩
  rw [le_div_iff₀ hp, zpow_neg, inv_mul_le_iff₀ (by positivity)]
  norm_num at hbig ⊢
  linarith

theorem one_hasValue : HasValue 1 1 := by
  have hu : (1 : Float).toModel.unpack = .finite .positive (2 ^ 52) (-52) (by norm_num) := rfl
  have hv : ((2 ^ 52 : ℕ) : ℚ) * 2 ^ (-52 : ℤ) = 1 := by norm_num
  exact hv ▸ hasValue_of_unpack hu

theorem zero_hasValue : HasValue 0 0 := ⟨.zero _, by positivity⟩

/-- Shares of a finite total in percent are finite if no part overflows, and one of them is positive. -/
theorem shares_finite {ws : List Float} (hn : ∀ w ∈ ws, ¬w < 0) (ht : (sumFrom 0 ws).isFinite = true)
    (hp : ¬sumFrom 0 ws ≤ 0) (hf : ∀ w ∈ ws, (w * 100).isFinite = true) :
    (∀ w ∈ ws, (w * 100 / sumFrom 0 ws).isFinite = true) ∧ ∃ w ∈ ws, 0 < w * 100 / sumFrom 0 ws := by
  have hvalues : ∀ w ∈ ws, ∃ y, HasValue w y := fun w hw =>
    exists_hasValue ((isFinite_of_sumFrom ht).2 w hw) (hn w hw)
  obtain ⟨total, htotal, h⟩ := sumFrom_totals zero_hasValue hn ht
  rw [htotal.le_zero_iff, not_le] at hp
  have hne : ws ≠ [] := by
    rintro rfl
    exact absurd (htotal.unique zero_hasValue) hp.ne'
  obtain ⟨g, hg, top, htop, hgreat⟩ := exists_greatest hne hvalues
  refine ⟨fun w hw => ?_, g, hg, ?_⟩
  · obtain ⟨y, hy⟩ := hvalues w hw
    obtain ⟨q, hq, -⟩ := share_hasValue hy htotal hp (h.parts w hw y hy) (hf w hw)
    exact hq.isFinite
  · obtain ⟨q, hq, hpos⟩ := share_hasValue htop htotal hp (h.parts g hg top htop) (hf g hg)
    have hstart : (0 : ℚ) ≤ 2 ^ 56 * top := mul_nonneg (by positivity) htop.nonneg
    exact hq.pos_iff.2 (hpos (h.saturated top htop.isDouble hstart hgreat))

/-- If a share in percent is positive and they are all finite, then the total is finite and no part overflows. -/
theorem finite_of_shares {ws : List Float} {total : Float} (hpos : ∃ w ∈ ws, 0 < w * 100 / total)
    (hf : ∀ w ∈ ws, (w * 100 / total).isFinite = true) :
    total.isFinite = true ∧ ∀ w ∈ ws, (w * 100).isFinite = true := by
  obtain ⟨w, -, hw⟩ := hpos
  exact ⟨isFinite_of_div_pos hw, fun w hw => isFinite_of_div (hf w hw)⟩

end Arbiter
