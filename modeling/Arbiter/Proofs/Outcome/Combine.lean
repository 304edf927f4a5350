import Arbiter.Proofs.Outcome.Weights

/-!
# One more value in a combination

What one more value does to a combination, said of the values before it and not of what the combination holds.

* `Arithmetic`: the combinations of numbers. `Arithmetic.Folds`: what values come to. `Arithmetic.Upsets`: which value ends
  a combination with a fault. `joinScalar_step`: one step of the three.
* `Blend.Unites`, `Blend.Upsets`, `Blend.add_step`: the same for a weighted union.
-/

namespace Arbiter

/-! ## Arithmetic -/

/-- The number of a probability or of a numeric value. -/
def Outcome.scalar? : Outcome → Option Float
  | .probability x | .numeric x => some x
  | _ => none

/-- The combinations of numbers. -/
inductive Arithmetic where
  | sum
  | product
  | modulus
deriving DecidableEq

namespace Arithmetic

/-- The rule that combines its children in this way. -/
def rule : Arithmetic → List ValueRule → ValueRule
  | sum => .sum
  | product => .product
  | modulus => .modulus

/-- What two numbers come to. -/
def apply : Arithmetic → Float → Float → Float
  | sum, a, b => a + b
  | product, a, b => a * b
  | modulus, a, b => a - b * floorFloat (a / b)

/-- The same as far as it is defined: nothing is divided by zero. -/
def op : Arithmetic → Float → Float → Except RuleFault Float
  | sum => fun a b => .ok (a + b)
  | product => fun a b => .ok (a * b)
  | modulus => flooredRemainder

theorem op_eq (k : Arithmetic) (a b : Float) :
    k.op a b = if k = .modulus ∧ (b == 0.0) = true then .error (.value (.zeroModulus a)) else .ok (k.apply a b) := by
  cases k with
  | sum | product => rfl
  | modulus =>
    unfold op apply flooredRemainder
    by_cases hb : (b == 0.0) = true
    · simp [hb]
    · simp [hb]

/-- One or more values come to a value of the first one's kind, its number the left fold of theirs. -/
inductive Folds (k : Arithmetic) : List Outcome → Outcome → Prop where
  | intro {first v : Outcome} {rest : List Outcome} {x : Float} {xs : List Float}
      (hnumbers : (first :: rest).map Outcome.scalar? = (x :: xs).map some) (hvariant : v.variant = first.variant)
      (hnumber : Outcome.scalar? v = some (xs.foldl k.apply x)) : Folds k (first :: rest) v

/-- One more value ends a combination with a fault: it is no number, it is not of the kind of the first one, or what the
values before it come to is divided by zero. -/
inductive Upsets (k : Arithmetic) : List Outcome → Outcome → RuleFault → Prop where
  | unfit {v : Outcome} (hs : Outcome.scalar? v = none) :
      Upsets k [] v (.mismatch (.either .probability .numeric) (.variant v.variant))
  | differs {first v : Outcome} {rest : List Outcome} (hd : v.variant ≠ first.variant) :
      Upsets k (first :: rest) v (.mismatch (.variant first.variant) (.variant v.variant))
  | zeroModulus {seen : List Outcome} {sofar v : Outcome} {a b : Float} (hk : k = .modulus) (hs : Folds k seen sofar)
      (ha : Outcome.scalar? sofar = some a) (hv : v.variant = sofar.variant) (hb : Outcome.scalar? v = some b)
      (hz : (b == 0.0) = true) : Upsets k seen v (.value (.zeroModulus a))

/-- What a combination holds after some values. -/
def Holds (k : Arithmetic) (seen : List Outcome) : Option Outcome → Prop
  | none => seen = []
  | some v => k.Folds seen v

variable {k : Arithmetic} {seen : List Outcome} {first v : Outcome}

/-- Values of one kind and with one number are the same. -/
theorem Folds.unique {u : Outcome} (h : k.Folds seen v) (h' : k.Folds seen u) :
    u.variant = v.variant ∧ Outcome.scalar? u = Outcome.scalar? v := by
  cases h with
  | intro hnumbers hvariant hnumber =>
    cases h' with
    | intro hnumbers' hvariant' hnumber' =>
      cases (List.map_inj_right fun _ _ => Option.some.inj).1 (hnumbers'.symm.trans hnumbers)
      exact ⟨hvariant'.trans hvariant.symm, hnumber'.trans hnumber.symm⟩

theorem folds_single {x : Float} (h : Outcome.scalar? v = some x) : k.Folds [v] v :=
  .intro (x := x) (show [v].map Outcome.scalar? = [x].map some by simp [h]) rfl h

/-- One more number. -/
theorem Folds.snoc {u joined : Outcome} {a b : Float} (h : k.Folds seen v) (ha : Outcome.scalar? v = some a)
    (hb : Outcome.scalar? u = some b) (hvariant : joined.variant = v.variant)
    (hnumber : Outcome.scalar? joined = some (k.apply a b)) : k.Folds (seen ++ [u]) joined := by
  cases h with
  | @intro first _ rest x xs hnumbers hv hn =>
    obtain rfl : a = xs.foldl k.apply x := Option.some.inj (ha.symm.trans hn)
    have hall : ((first :: rest) ++ [u]).map Outcome.scalar? = (x :: (xs ++ [b])).map some := by
      rw [List.map_append, hnumbers]
      simp [hb]
    refine .intro hall (hvariant.trans hv) ?_
    rw [List.foldl_append, hnumber, List.foldl_cons, List.foldl_nil]

theorem Folds.scalar (h : k.Folds seen v) : (∃ x, v = .probability x) ∨ ∃ x, v = .numeric x := by
  cases h with
  | intro _ _ hnumber =>
    cases v with
    | probability x => exact .inl ⟨x, rfl⟩
    | numeric x => exact .inr ⟨x, rfl⟩
    | bool _ | distribution _ | cancel => cases hnumber

theorem Folds.variant_head {rest : List Outcome} (h : k.Folds (first :: rest) v) : v.variant = first.variant := by
  cases h with
  | intro _ hvariant _ => exact hvariant

theorem Folds.ne_nil (h : k.Folds seen v) : seen ≠ [] := by
  cases h
  exact List.cons_ne_nil _ _

/-- A value ends a combination with one fault only. -/
theorem Upsets.unique {f g : RuleFault} (h : k.Upsets seen v f) (h' : k.Upsets seen v g) : f = g := by
  cases h with
  | unfit =>
    cases h' with
    | unfit => rfl
    | zeroModulus _ hs => exact absurd rfl hs.ne_nil
  | differs hd =>
    cases h' with
    | differs => rfl
    | zeroModulus _ hs _ hv => exact absurd (hv.trans hs.variant_head) hd
  | zeroModulus _ hs ha hv =>
    cases h' with
    | unfit => exact absurd rfl hs.ne_nil
    | differs hd => exact absurd (hv.trans hs.variant_head) hd
    | zeroModulus _ hs' ha' =>
      rw [(hs.unique hs').2, ha] at ha'
      cases ha'
      rfl

end Arithmetic

open Arithmetic

section

variable {k : Arithmetic} {seen : List Outcome} {sofar : Option Outcome} {next : Outcome}

/-- Two numbers of one kind. -/
theorem joinScalar_alike (k : Arithmetic) {sofar : Outcome}
    (h : (∃ x, sofar = .probability x) ∨ ∃ x, sofar = .numeric x) (hsame : next.variant = sofar.variant) :
    ∃ a b, Outcome.scalar? sofar = some a ∧ Outcome.scalar? next = some b ∧ ∃ joined : Outcome,
      joined.variant = sofar.variant ∧ Outcome.scalar? joined = some (k.apply a b) ∧
        joinScalar k.op (some sofar) next =
          if k = .modulus ∧ (b == 0.0) = true then .error (.value (.zeroModulus a)) else .ok joined := by
  rcases h with ⟨a, rfl⟩ | ⟨a, rfl⟩
  · cases next with
    | probability b =>
      refine ⟨a, b, rfl, rfl, .probability (k.apply a b), rfl, rfl, ?_⟩
      rw [joinScalar, op_eq]
      split <;> rfl
    | _ => cases hsame
  · cases next with
    | numeric b =>
      refine ⟨a, b, rfl, rfl, .numeric (k.apply a b), rfl, rfl, ?_⟩
      rw [joinScalar, op_eq]
      split <;> rfl
    | _ => cases hsame

/-- Values of different kinds are not joined. -/
theorem joinScalar_differs {sofar : Outcome} (h : next.variant ≠ sofar.variant) :
    joinScalar k.op (some sofar) next = .error (.mismatch (.variant sofar.variant) (.variant next.variant)) := by
  unfold joinScalar
  split
  case h_4 | h_5 =>
    obtain rfl := Option.some.inj ‹some sofar = _›
    exact absurd rfl h
  case h_6 =>
    obtain rfl := Option.some.inj ‹some sofar = _›
    rfl
  all_goals cases ‹some sofar = none›

/-- Nothing was joined yet. -/
theorem joinScalar_none : joinScalar k.op none next =
    if (Outcome.scalar? next).isSome then .ok next
    else .error (.mismatch (.either .probability .numeric) (.variant next.variant)) := by
  cases next <;> rfl

/-- One more value leaves a combination of numbers with what the values come to, or upsets it. -/
theorem joinScalar_step (h : k.Holds seen sofar) :
    (∃ f, joinScalar k.op sofar next = .error f ∧ k.Upsets seen next f) ∨
      ∃ joined, joinScalar k.op sofar next = .ok joined ∧ k.Folds (seen ++ [next]) joined ∧
        ∀ f, ¬k.Upsets seen next f := by
  cases sofar with
  | none =>
    obtain rfl : seen = [] := h
    rw [joinScalar_none]
    cases hs : Outcome.scalar? next with
    | none => exact .inl ⟨_, rfl, .unfit hs⟩
    | some x =>
      refine .inr ⟨next, rfl, folds_single hs, fun f hf => ?_⟩
      cases hf with
      | unfit hn => rw [hs] at hn; cases hn
      | zeroModulus _ hseen => exact hseen.ne_nil rfl
  | some sofar =>
    have hfolds : k.Folds seen sofar := h
    by_cases hsame : next.variant = sofar.variant
    · obtain ⟨a, b, ha, hb, joined, hkind, hnumber, hjoin⟩ := joinScalar_alike k hfolds.scalar hsame
      rw [hjoin]
      by_cases hz : k = .modulus ∧ (b == 0.0) = true
      · rw [if_pos hz]
        exact .inl ⟨_, rfl, .zeroModulus hz.1 hfolds ha hsame hb hz.2⟩
      · rw [if_neg hz]
        refine .inr ⟨joined, rfl, hfolds.snoc ha hb hkind hnumber, fun f hf => ?_⟩
        cases hf with
        | unfit => exact hfolds.ne_nil rfl
        | differs hd => exact hd (hsame.trans hfolds.variant_head)
        | zeroModulus hk _ _ _ hb' hz' =>
          rw [hb] at hb'
          cases hb'
          exact hz ⟨hk, hz'⟩
    · rw [joinScalar_differs hsame]
      cases seen with
      | nil => exact absurd rfl hfolds.ne_nil
      | cons first rest =>
        rw [hfolds.variant_head] at hsame ⊢
        exact .inl ⟨_, rfl, .differs hsame⟩

end

/-! ## Weighted unions -/

namespace Blend

/-- What a share adds to a union of probabilities. -/
def portion? (total : Float) (share : Float × Outcome) : Option Float :=
  match asProbability share.2 with
  | .probability p => some (p * (share.1 / total))
  | _ => none

/-- The answers that a value gives weights to. -/
def answers : Outcome → List Nat
  | .distribution weights => SortedMap.keys weights
  | _ => []

/-- One or more shares make this union: of probabilities their weighted sum from the left, of distributions one over
exactly the answers of all of them. -/
inductive Unites (total : Float) (taken : List (Float × Outcome)) : Outcome → Prop where
  | probability {x : Float} {xs : List Float} (hportions : taken.map (portion? total) = (x :: xs).map some) :
      Unites total taken (.probability (xs.foldl (· + ·) x))
  | distribution {mixed : Distribution Float} (hne : taken ≠ [])
      (hshape : ∀ share ∈ taken, share.2.variant = .distribution)
      (hanswers : ∀ index, index ∈ SortedMap.keys mixed ↔ ∃ share ∈ taken, index ∈ answers share.2) :
      Unites total taken (.distribution mixed)

/-- One more value ends a union over `count` answers with a fault: it is a number, it is not of the shape of the first
one, or it is a distribution that names an unknown answer or has no weight. -/
inductive Upsets (count : Nat) : List (Float × Outcome) → Outcome → RuleFault → Prop where
  | unfit (x : Float) : Upsets count [] (.numeric x) (.mismatch (.either .probability .distribution) (.variant .numeric))
  | differs {first : Float × Outcome} {rest : List (Float × Outcome)} {v : Outcome}
      (hd : (asProbability v).variant ≠ (asProbability first.2).variant) :
      Upsets count (first :: rest) v
        (.mismatch (.variant (asProbability first.2).variant) (.variant (asProbability v).variant))
  | unknown {taken : List (Float × Outcome)} {weights : Distribution Float} {index : Nat}
      (hshape : ∀ share ∈ taken, share.2.variant = .distribution)
      (hindex : Distribution.unknownAnswer? weights count = some index) :
      Upsets count taken (.distribution weights) (.mismatch (.answersBelow count) (.answerIndex index))
  | weightless {taken : List (Float × Outcome)} {weights : Distribution Float}
      (hshape : ∀ share ∈ taken, share.2.variant = .distribution)
      (hknown : Distribution.unknownAnswer? weights count = none) (htotal : Distribution.total weights ≤ 0) :
      Upsets count taken (.distribution weights) (.value .noWeight)

/-- What a union holds after some shares. -/
def Holds (total : Float) (taken : List (Float × Outcome)) : Blend Float → Prop
  | .nothing => taken = []
  | .probability p => Unites total taken (.probability p)
  | .distribution mixed => Unites total taken (.distribution mixed)

variable {count : Nat} {total weight fraction : Float} {taken : List (Float × Outcome)} {share : Float × Outcome}
  {v next : Outcome} {f : RuleFault} {mixed weights : Distribution Float}

/-- A distribution is not read as anything else. -/
theorem asProbability_variant (h : v.variant = .distribution) : (asProbability v).variant = .distribution := by
  cases v with
  | distribution _ => rfl
  | _ => cases h

/-- A value ends a union with one fault only. -/
theorem Upsets.unique {g : RuleFault} (h : Upsets count taken v f) (h' : Upsets count taken v g) : f = g := by
  cases h with
  | unfit => cases h'; rfl
  | differs hd =>
    cases h' with
    | differs => rfl
    | unknown hshape | weightless hshape =>
      exact absurd (asProbability_variant (hshape _ List.mem_cons_self)).symm hd
  | unknown hshape hindex =>
    cases h' with
    | differs hd => exact absurd (asProbability_variant (hshape _ List.mem_cons_self)).symm hd
    | unknown _ hindex' =>
      rw [hindex] at hindex'
      cases hindex'
      rfl
    | weightless _ hknown =>
      rw [hindex] at hknown
      cases hknown
  | weightless hshape hknown =>
    cases h' with
    | differs hd => exact absurd (asProbability_variant (hshape _ List.mem_cons_self)).symm hd
    | unknown _ hindex =>
      rw [hindex] at hknown
      cases hknown
    | weightless => rfl

theorem Unites.ne_nil (h : Unites total taken v) : taken ≠ [] := by
  cases h with
  | probability hportions => rintro rfl; cases hportions
  | distribution hne _ _ => exact hne

/-- The shape of a union is that of its first share. -/
theorem Unites.variant_head (h : Unites total (share :: taken) v) : (asProbability share.2).variant = v.variant := by
  cases h with
  | probability hportions =>
    obtain ⟨hfirst, -⟩ := List.cons.inj hportions
    unfold portion? at hfirst
    split at hfirst
    · rename_i hp
      rw [hp]
      rfl
    · cases hfirst
  | distribution _ hshape _ =>
    exact asProbability_variant (hshape share List.mem_cons_self)

theorem unites_single {x : Float} (hx : portion? total share = some x) : Unites total [share] (.probability x) :=
  .probability (show [share].map (portion? total) = [x].map some by simp [hx])

/-- One more probability. -/
theorem Unites.snoc_probability {p x : Float} (h : Unites total taken (.probability p))
    (hx : portion? total share = some x) : Unites total (taken ++ [share]) (.probability (p + x)) := by
  cases h with
  | @probability y ys hportions =>
    have hall : (taken ++ [share]).map (portion? total) = (y :: (ys ++ [x])).map some := by
      rw [List.map_append, hportions]
      simp [hx]
    have h := Unites.probability hall
    rwa [List.foldl_append] at h

/-- One more distribution. -/
theorem unites_snoc_distribution {old : Distribution Float} (hshape : ∀ share ∈ taken, share.2.variant = .distribution)
    (hold : ∀ index, index ∈ SortedMap.keys old ↔ ∃ share ∈ taken, index ∈ answers share.2)
    (hmixed : ∀ index, index ∈ SortedMap.keys mixed ↔ index ∈ SortedMap.keys old ∨ index ∈ SortedMap.keys weights) :
    Unites total (taken ++ [(weight, .distribution weights)]) (.distribution mixed) := by
  refine .distribution (by simp) ?_ fun index => ?_
  · exact List.forall_mem_append.2 ⟨hshape, List.forall_mem_singleton.2 rfl⟩
  · simp only [hmixed, hold, List.mem_append, List.mem_singleton, or_and_right, exists_or, exists_eq_left, answers]

/-- A mixture has the answers of both. -/
theorem mem_keys_mix {ν : Type} [Add ν] [Mul ν] [OfNat ν 0] {mixed weights : Distribution ν} {fraction : ν} {index : Nat} :
    index ∈ SortedMap.keys (mix mixed fraction weights) ↔ index ∈ SortedMap.keys mixed ∨ index ∈ SortedMap.keys weights := by
  unfold mix SortedMap.keys
  generalize weights.entries = entries
  induction entries generalizing mixed with
  | nil => simp
  | cons e rest ih =>
    rw [List.foldl_cons, ih, List.map_cons, List.mem_cons]
    have halter := SortedMap.mem_keys_alter (m := mixed) (k := e.1) (j := index)
      (f := fun old => old.getD 0 + e.2 * fraction)
    unfold SortedMap.keys at halter
    rw [halter]
    tauto

/-- One more distribution upsets a union of distributions or is mixed in. -/
theorem mixScaled_step (hshape : ∀ share ∈ taken, share.2.variant = .distribution)
    (hmixed : ∀ index, index ∈ SortedMap.keys mixed ↔ ∃ share ∈ taken, index ∈ answers share.2) :
    (∃ f, mixScaled count mixed fraction weights = .error f ∧ Upsets count taken (.distribution weights) f) ∨
      ∃ blended, mixScaled count mixed fraction weights = .ok blended ∧
        Holds total (taken ++ [(weight, .distribution weights)]) blended ∧
          ∀ f, ¬Upsets count taken (.distribution weights) f := by
  rw [mixScaled_eq]
  cases hknown : Distribution.unknownAnswer? weights count with
  | some index => exact .inl ⟨_, rfl, .unknown hshape hknown⟩
  | none =>
    dsimp only
    by_cases htotal : Distribution.total weights ≤ 0
    · rw [if_pos htotal]
      exact .inl ⟨_, rfl, .weightless hshape hknown htotal⟩
    · rw [if_neg htotal]
      refine .inr ⟨_, rfl, unites_snoc_distribution hshape hmixed fun index => ?_, fun f hf => ?_⟩
      · rw [mem_keys_mix, SortedMap.keys_mapValues]
      · cases hf with
        | differs hd =>
          rw [asProbability_variant (hshape _ List.mem_cons_self)] at hd
          exact hd rfl
        | unknown _ hindex => rw [hknown] at hindex; cases hindex
        | weightless _ _ hzero => exact htotal hzero

/-- What is read as a probability does not upset a union of probabilities. -/
theorem not_upsets_probability (hnext : (asProbability next).variant = .probability)
    (h : ∀ first rest, taken = first :: rest → (asProbability first.2).variant = .probability) :
    ¬Upsets count taken next f := by
  intro hf
  cases hf with
  | differs hd => exact hd (hnext.trans (h _ _ rfl).symm)
  | unfit | unknown | weightless => cases hnext

/-- One more share leaves a union with what the shares make, or upsets it. -/
theorem add_step {sofar : Blend Float} (h : Holds total taken sofar) (hv : next ≠ .cancel) :
    (∃ f, sofar.add count (weight / total) next = .error f ∧ Upsets count taken next f) ∨
      ∃ blended, sofar.add count (weight / total) next = .ok blended ∧ Holds total (taken ++ [(weight, next)]) blended ∧
        ∀ f, ¬Upsets count taken next f := by
  have hdiffers {u : Outcome} (hu : Unites total taken u) (hd : ((asProbability next).variant == u.variant) = false) :
      Upsets count taken next (.mismatch (.variant u.variant) (.variant (asProbability next).variant)) := by
    rw [beq_eq_false_iff_ne] at hd
    cases taken with
    | nil => exact absurd rfl hu.ne_nil
    | cons first rest =>
      rw [← hu.variant_head] at hd ⊢
      exact .differs hd
  cases sofar with
  | nothing =>
    obtain rfl : taken = [] := h
    cases next with
    | cancel => exact absurd rfl hv
    | numeric x => exact .inl ⟨_, rfl, .unfit x⟩
    | distribution weights => exact mixScaled_step (List.forall_mem_nil _) (by simp [SortedMap.keys])
    | bool b => exact .inr ⟨_, rfl, unites_single rfl, fun f => not_upsets_probability rfl (by simp)⟩
    | probability p => exact .inr ⟨_, rfl, unites_single rfl, fun f => not_upsets_probability rfl (by simp)⟩
  | probability sum =>
    have hu : Unites total taken (.probability sum) := h
    have hhead : ∀ first rest, taken = first :: rest → (asProbability first.2).variant = .probability :=
      fun _ _ he => (he ▸ hu).variant_head
    cases next with
    | cancel => exact absurd rfl hv
    | numeric x => exact .inl ⟨_, rfl, hdiffers hu rfl⟩
    | distribution weights => exact .inl ⟨_, rfl, hdiffers hu rfl⟩
    | bool b => exact .inr ⟨_, rfl, hu.snoc_probability rfl, fun f => not_upsets_probability rfl hhead⟩
    | probability p => exact .inr ⟨_, rfl, hu.snoc_probability rfl, fun f => not_upsets_probability rfl hhead⟩
  | distribution mixed =>
    have hu : Unites total taken (.distribution mixed) := h
    cases next with
    | cancel => exact absurd rfl hv
    | bool b => exact .inl ⟨_, rfl, hdiffers hu rfl⟩
    | probability p => exact .inl ⟨_, rfl, hdiffers hu rfl⟩
    | numeric x => exact .inl ⟨_, rfl, hdiffers hu rfl⟩
    | distribution weights =>
      cases hu with
      | distribution _ hshape hanswers => exact mixScaled_step hshape hanswers

end Blend

end Arbiter
