import Arbiter.Proofs.Outcome.Combine
import Arbiter.Proofs.Pass.Moment

/-!
# Combinations from left to right

The first child that decides a combination ends it, at the moment at which that child itself ended; the children after it
are not evaluated. Sums, products, remainders and weighted unions are all this one loop over their children.

* `Combination`, `Combination.run`: the loop. `joinAll_eq_run`, `blendAll_eq_run`: the four combinations are this loop.
* `InTurn`: children evaluated one after another, none of which decides. `DecidedBy`: the child after them does.
* `Combination.Law.run_inTurn`, `Combination.Law.run_decided`: what the loop does along the one and at the other.
* `inTurn_or_decided`: one of the two holds of every list of children.
* `combinations_leftToRight`: how the four combinations end.
-/

namespace Arbiter

variable {γ σ : Type}

/-! ## One loop -/

/-- How the values of children are combined. -/
structure Combination (γ σ : Type) where
  /-- The rule of a child. -/
  rule : γ → ValueRule
  /-- One more value. -/
  step : γ → σ → Outcome → Except RuleFault σ
  /-- What all values come to. -/
  finish : σ → Except RuleFault Outcome

/-- The values of children from the one at `i` on combined one by one, up to the first that cancels. -/
def Combination.run (C : Combination γ σ) (p : Pass Course) (node : List Nat) (i : Nat) (sofar : σ) :
    List γ → PassM Course Outcome
  | [] => PassM.ofExcept (C.finish sofar)
  | child :: rest => do
    match ← (C.rule child).evaluate p (i :: node) with
    | .cancel => pure .cancel
    | next => C.run p node (i + 1) (← PassM.ofExcept (C.step child sofar next)) rest

/-- Numbers joined. -/
def Arithmetic.combination (k : Arithmetic) : Combination ValueRule (Option Outcome) where
  rule child := child
  step _ sofar next := some <$> joinScalar k.op sofar next
  finish
    | some value => .ok value
    | none => .error (.value .noOperands)

/-- Shares of a total united over `count` answers. -/
def Blend.combination (count : Nat) (total : Float) : Combination (Float × ValueRule) (Blend Float) where
  rule share := share.2
  step share sofar next := sofar.add count (share.1 / total) next
  finish := Blend.result

section

variable (p : Pass Course) (node : List Nat)

theorem joinAll_eq_run (k : Arithmetic) : ∀ (children : List ValueRule) (i : Nat) (sofar : Option Outcome),
    joinAll k.op sofar (ValueRule.evaluateEach p node i children) = k.combination.run p node i sofar children
  | [], _, some _ => rfl
  | [], _, none => rfl
  | child :: rest, i, sofar => by
    refine congrArg (child.evaluate p (i :: node) >>= ·) (funext fun next => ?_)
    have hnext : (PassM.ofExcept (joinScalar k.op sofar next) >>= fun joined =>
          joinAll k.op (some joined) (ValueRule.evaluateEach p node (i + 1) rest)) =
        PassM.ofExcept (k.combination.step child sofar next) >>= fun joined =>
          k.combination.run p node (i + 1) joined rest := by
      change _ = PassM.ofExcept (some <$> joinScalar k.op sofar next) >>= _
      cases joinScalar k.op sofar next with
      | error f => rfl
      | ok joined =>
        change pure joined >>= _ = pure (some joined) >>= _
        rw [pure_bind, pure_bind]
        exact joinAll_eq_run k rest (i + 1) (some joined)
    cases next with
    | cancel => rfl
    | _ => exact hnext

theorem blendAll_eq_run (count : Nat) (total : Float) : ∀ (shares : List (Float × ValueRule)) (i : Nat)
    (sofar : Blend Float), blendAll count total sofar (ValueRule.evaluateShares p node i shares) =
      (Blend.combination count total).run p node i sofar shares
  | [], _, _ => rfl
  | (weight, child) :: rest, i, sofar => by
    refine congrArg (child.evaluate p (i :: node) >>= ·) (funext fun next => ?_)
    have hnext : (PassM.ofExcept (sofar.add count (weight / total) next) >>= fun blended =>
          blendAll count total blended (ValueRule.evaluateShares p node (i + 1) rest)) =
        PassM.ofExcept (sofar.add count (weight / total) next) >>= fun blended =>
          (Blend.combination count total).run p node (i + 1) blended rest :=
      congrArg (_ >>= ·) (funext fun blended => blendAll_eq_run count total rest (i + 1) blended)
    cases next with
    | cancel => rfl
    | _ => exact hnext

end

/-! ## Children in turn -/

section

variable (rule : γ → ValueRule) (Upsets : List (γ × Outcome) → Outcome → RuleFault → Prop) (w : World) (p : Pass Course)
  (node : List Nat)

/-- How a child ends decides how the combination does: it fails, it cancels, or its value upsets what the children before
it came to. -/
inductive Decides (Upsets : Outcome → RuleFault → Prop) : (child combination : Except Halt Outcome) → Prop where
  | fails (halt : Halt) : Decides Upsets (.error halt) (.error halt)
  | cancels : Decides Upsets (.ok .cancel) (.ok .cancel)
  | upsets {v : Outcome} {f : RuleFault} (hv : v ≠ .cancel) (h : Upsets v f) : Decides Upsets (.ok v) (.error (.fault f))

/-- From one moment on, the first children of a node come to these values, one after another, and none of them decides. -/
inductive InTurn (s : Moment) : List (γ × Outcome) → Moment → Prop where
  | nil : InTurn s [] s
  | snoc {taken : List (γ × Outcome)} {t u : Moment} {child : γ} {v : Outcome} (before : InTurn s taken t)
      (hchild : PassM.Succeeds w ((rule child).evaluate p (taken.length :: node)) t v u)
      (hopen : ∀ verdict, ¬Decides (Upsets taken) (.ok v) verdict) : InTurn s (taken ++ [(child, v)]) u

/-- The child after some that do not decide does, and so the combination ends with `verdict` at `u`. -/
def DecidedBy (s : Moment) (taken : List (γ × Outcome)) (child : γ) (verdict : Except Halt Outcome) (u : Moment) : Prop :=
  ∃ t ending, InTurn rule Upsets w p node s taken t ∧
    ((rule child).evaluate p (taken.length :: node)).endsAt w t = (ending, u) ∧ Decides (Upsets taken) ending verdict

/-- The children that were evaluated. -/
def evaluated (taken : List (γ × Outcome)) : List γ := taken.map Prod.fst

variable {rule Upsets w p node}

theorem evaluated_snoc (taken : List (γ × Outcome)) (child : γ) (v : Outcome) (rest : List γ) :
    evaluated (taken ++ [(child, v)]) ++ rest = evaluated taken ++ child :: rest := by
  simp [evaluated]

/-- A child decides, or all are evaluated in turn. -/
theorem inTurn_or_decided (s : Moment) (children : List γ) :
    (∃ taken child later verdict u, children = evaluated taken ++ child :: later ∧
        DecidedBy rule Upsets w p node s taken child verdict u) ∨
      ∃ taken t, children = evaluated taken ∧ InTurn rule Upsets w p node s taken t := by
  induction children using List.reverseRecOn with
  | nil => exact .inr ⟨[], s, rfl, .nil⟩
  | append_singleton before child ih =>
    rcases ih with ⟨taken, c, later, verdict, u, rfl, hd⟩ | ⟨taken, t, rfl, hturn⟩
    · exact .inl ⟨taken, c, later ++ [child], verdict, u, by simp, hd⟩
    · rcases hends : ((rule child).evaluate p (taken.length :: node)).endsAt w t with ⟨ending, u⟩
      by_cases hd : ∃ verdict, Decides (Upsets taken) ending verdict
      · obtain ⟨verdict, hd⟩ := hd
        exact .inl ⟨taken, child, [], verdict, u, rfl, t, ending, hturn, hends, hd⟩
      · cases ending with
        | error halt => exact absurd ⟨_, .fails halt⟩ hd
        | ok v =>
          have hopen : ∀ verdict, ¬Decides (Upsets taken) (.ok v) verdict := fun verdict h => hd ⟨verdict, h⟩
          exact .inr ⟨taken ++ [(child, v)], u, by simp [evaluated], hturn.snoc hends hopen⟩

end

/-! ## The loop along them -/

namespace Combination

/-- What a combination holds after some children, and which value ends it. -/
structure Law (C : Combination γ σ) (Upsets : List (γ × Outcome) → Outcome → RuleFault → Prop)
    (Holds : List (γ × Outcome) → σ → Prop) : Prop where
  step : ∀ {taken : List (γ × Outcome)} {sofar : σ} {next : Outcome} (child : γ), Holds taken sofar → next ≠ .cancel →
    (∃ f, C.step child sofar next = .error f ∧ Upsets taken next f) ∨
      ∃ joined, C.step child sofar next = .ok joined ∧ Holds (taken ++ [(child, next)]) joined ∧
        ∀ f, ¬Upsets taken next f
  unique : ∀ {taken : List (γ × Outcome)} {next : Outcome} {f g : RuleFault}, Upsets taken next f → Upsets taken next g →
    f = g

variable {C : Combination γ σ} {Upsets : List (γ × Outcome) → Outcome → RuleFault → Prop}
  {Holds : List (γ × Outcome) → σ → Prop} {w : World} {p : Pass Course} {node : List Nat} {s t u : Moment}

/-- The loop goes on from a value that does not cancel. -/
theorem endsAt_run_next {i : Nat} {sofar : σ} {child : γ} {v : Outcome} (hv : v ≠ .cancel)
    (h : PassM.Succeeds w ((C.rule child).evaluate p (i :: node)) t v u) (rest : List γ) :
    (C.run p node i sofar (child :: rest)).endsAt w t =
      (PassM.ofExcept (C.step child sofar v) >>= fun joined => C.run p node (i + 1) joined rest).endsAt w u := by
  rw [run, PassM.endsAt_bind, h]
  cases v with
  | cancel => exact absurd rfl hv
  | _ => rfl

/-- A value that does not decide is no cancellation. -/
theorem ne_cancel_of_open {Upsets : Outcome → RuleFault → Prop} {v : Outcome}
    (h : ∀ verdict, ¬Decides Upsets (.ok v) verdict) : v ≠ .cancel := by
  rintro rfl
  exact h _ .cancels

/-- Children that do not decide only advance the loop, whatever follows them. -/
theorem Law.run_inTurn (law : C.Law Upsets Holds) {start : σ} (hstart : Holds [] start) {taken : List (γ × Outcome)}
    (h : InTurn C.rule Upsets w p node s taken t) : ∃ sofar, Holds taken sofar ∧ ∀ rest,
      (C.run p node 0 start (evaluated taken ++ rest)).endsAt w s = (C.run p node taken.length sofar rest).endsAt w t := by
  induction h with
  | nil => exact ⟨start, hstart, fun _ => rfl⟩
  | @snoc taken t u child v before hchild hopen ih =>
    obtain ⟨sofar, hsofar, hrun⟩ := ih
    have hv : v ≠ .cancel := ne_cancel_of_open hopen
    rcases law.step child hsofar hv with ⟨f, -, hf⟩ | ⟨joined, hjoined, hholds, -⟩
    · exact absurd (.upsets hv hf) (hopen _)
    · refine ⟨joined, hholds, fun rest => ?_⟩
      rw [evaluated_snoc, hrun, endsAt_run_next hv hchild, hjoined, PassM.endsAt_bind, PassM.endsAt_ofExcept,
        List.length_append]
      rfl

/-- A child that decides ends the loop where it ends itself, whatever follows it. -/
theorem Law.run_decided (law : C.Law Upsets Holds) {start : σ} (hstart : Holds [] start) {taken : List (γ × Outcome)}
    {child : γ} {verdict : Except Halt Outcome} (h : DecidedBy C.rule Upsets w p node s taken child verdict u)
    (rest : List γ) : (C.run p node 0 start (evaluated taken ++ child :: rest)).endsAt w s = (verdict, u) := by
  obtain ⟨t, ending, hturn, hchild, hdecides⟩ := h
  obtain ⟨sofar, hsofar, hrun⟩ := law.run_inTurn hstart hturn
  rw [hrun]
  cases hdecides with
  | fails halt => rw [run, PassM.endsAt_bind, hchild]
  | cancels =>
    rw [run, PassM.endsAt_bind, hchild]
    exact PassM.endsAt_pure _
  | @upsets v f hv hf =>
    rw [endsAt_run_next hv hchild]
    rcases law.step child hsofar hv with ⟨g, hg, hupset⟩ | ⟨_, -, -, hnot⟩
    · rw [hg, law.unique hupset hf, PassM.endsAt_bind, PassM.endsAt_ofExcept]
      rfl
    · exact absurd hf (hnot f)

/-- If no child decides, the loop ends with the last one. -/
theorem Law.run_all (law : C.Law Upsets Holds) {start : σ} (hstart : Holds [] start) {taken : List (γ × Outcome)}
    (h : InTurn C.rule Upsets w p node s taken t) : ∃ sofar, Holds taken sofar ∧
      (C.run p node 0 start (evaluated taken)).endsAt w s = ((C.finish sofar).mapError Halt.fault, t) := by
  obtain ⟨sofar, hsofar, hrun⟩ := law.run_inTurn hstart h
  refine ⟨sofar, hsofar, ?_⟩
  have hlast := hrun []
  rw [List.append_nil, run, PassM.endsAt_ofExcept] at hlast
  exact hlast

end Combination

/-! ## The four combinations -/

/-- What upsets numbers that are joined. -/
def Arithmetic.UpsetsAfter (k : Arithmetic) (taken : List (ValueRule × Outcome)) : Outcome → RuleFault → Prop :=
  k.Upsets (taken.map Prod.snd)

/-- The weights of shares with the values they came to. -/
def Blend.weighed (taken : List ((Float × ValueRule) × Outcome)) : List (Float × Outcome) :=
  taken.map fun e => (e.1.1, e.2)

/-- What upsets shares that are united. -/
def Blend.UpsetsAfter (count : Nat) (taken : List ((Float × ValueRule) × Outcome)) : Outcome → RuleFault → Prop :=
  Blend.Upsets count (Blend.weighed taken)

theorem Arithmetic.law (k : Arithmetic) :
    k.combination.Law k.UpsetsAfter fun taken sofar => k.Holds (taken.map Prod.snd) sofar where
  step child hsofar _ := by
    rcases joinScalar_step hsofar with ⟨f, hf, hupset⟩ | ⟨joined, hjoined, hfolds, hnot⟩
    · exact .inl ⟨f, congrArg (some <$> ·) hf, hupset⟩
    · refine .inr ⟨some joined, congrArg (some <$> ·) hjoined, ?_, hnot⟩
      rw [List.map_append]
      exact hfolds
  unique := Arithmetic.Upsets.unique

theorem Blend.law (count : Nat) (total : Float) : (Blend.combination count total).Law (Blend.UpsetsAfter count)
    fun taken sofar => Blend.Holds total (Blend.weighed taken) sofar where
  step share hsofar hv := by
    rcases Blend.add_step hsofar hv with h | ⟨blended, hblended, hholds, hnot⟩
    · exact .inl h
    · refine .inr ⟨blended, hblended, ?_, hnot⟩
      rw [Blend.weighed, List.map_append]
      exact hholds
  unique := Blend.Upsets.unique

section

variable (p : Pass Course) (node : List Nat)

theorem evaluate_arithmetic (k : Arithmetic) (children : List ValueRule) :
    (k.rule children).evaluate p node = k.combination.run p node 0 none children := by
  cases k with
  | sum => exact joinAll_eq_run p node .sum children 0 none
  | product => exact joinAll_eq_run p node .product children 0 none
  | modulus => exact joinAll_eq_run p node .modulus children 0 none

/-- What the weights of shares add up to. -/
def Blend.totalOf (shares : List (Float × ValueRule)) : Float := (shares.map Prod.fst).foldl (· + ·) 0

theorem weights_evaluateShares : ∀ (shares : List (Float × ValueRule)) (i : Nat),
    (ValueRule.evaluateShares p node i shares).map (·.1) = shares.map Prod.fst
  | [], _ => rfl
  | (weight, _) :: rest, i => congrArg (weight :: ·) (weights_evaluateShares rest (i + 1))

theorem evaluate_multipleValues (shares : List (Float × ValueRule)) :
    (ValueRule.multipleValues shares).evaluate p node =
      if Blend.totalOf shares ≤ 0 then PassM.fail (.value .zeroShares)
      else (Blend.combination p.market.answers.length (Blend.totalOf shares)).run p node 0 .nothing shares := by
  rw [ValueRule.evaluate, blend, weights_evaluateShares]
  change (PassM.ofExcept (if Blend.totalOf shares ≤ 0 then _ else .ok (Blend.totalOf shares)) >>= _) = _
  by_cases htotal : Blend.totalOf shares ≤ 0
  · rw [if_pos htotal, if_pos htotal]
    rfl
  · rw [if_neg htotal, if_neg htotal]
    exact (pure_bind _ _).trans (blendAll_eq_run p node _ _ shares 0 .nothing)

/-- **Combinations decide from left to right.** The first child that fails, cancels or has a value that does not fit ends a
combination at the moment at which that child ended, whatever children follow it; a combination without such a child has
evaluated all of them, and comes to the left fold of their numbers or to the union of their weights. -/
theorem combinations_leftToRight (w : World) (s : Moment) :
    (∀ (k : Arithmetic) (children : List ValueRule),
      (∃ taken child later verdict u, children = evaluated taken ++ child :: later ∧
        DecidedBy k.combination.rule k.UpsetsAfter w p node s taken child verdict u ∧
        ∀ rest, ((k.rule (evaluated taken ++ child :: rest)).evaluate p node).endsAt w s = (verdict, u)) ∨
      ∃ taken t result, children = evaluated taken ∧ InTurn k.combination.rule k.UpsetsAfter w p node s taken t ∧
        ((k.rule children).evaluate p node).endsAt w s = (result, t) ∧
        if children = [] then result = .error (.fault (.value .noOperands))
        else ∃ v, result = .ok v ∧ k.Folds (taken.map Prod.snd) v) ∧
    ∀ shares : List (Float × ValueRule),
      if Blend.totalOf shares ≤ 0 then
        ((ValueRule.multipleValues shares).evaluate p node).endsAt w s = (.error (.fault (.value .zeroShares)), s)
      else
        (∃ taken share later verdict u, shares = evaluated taken ++ share :: later ∧
          DecidedBy Prod.snd (Blend.UpsetsAfter p.market.answers.length) w p node s taken share verdict u ∧
          ∀ rest, ¬Blend.totalOf (evaluated taken ++ share :: rest) ≤ 0 →
            ((ValueRule.multipleValues (evaluated taken ++ share :: rest)).evaluate p node).endsAt w s = (verdict, u)) ∨
        ∃ taken t v, shares = evaluated taken ∧
          InTurn Prod.snd (Blend.UpsetsAfter p.market.answers.length) w p node s taken t ∧
          ((ValueRule.multipleValues shares).evaluate p node).endsAt w s = (.ok v, t) ∧
          Blend.Unites (Blend.totalOf shares) (Blend.weighed taken) v := by
  refine ⟨fun k children => ?_, fun shares => ?_⟩
  · have hstart : k.Holds (([] : List (ValueRule × Outcome)).map Prod.snd) none := rfl
    rcases inTurn_or_decided s children with ⟨taken, child, later, verdict, u, hchildren, hd⟩ | ⟨taken, t, rfl, hturn⟩
    · refine .inl ⟨taken, child, later, verdict, u, hchildren, hd, fun rest => ?_⟩
      rw [evaluate_arithmetic]
      exact k.law.run_decided hstart hd rest
    · obtain ⟨sofar, hsofar, hends⟩ := k.law.run_all hstart hturn
      refine .inr ⟨taken, t, _, rfl, hturn, (evaluate_arithmetic p node k _).symm ▸ hends, ?_⟩
      cases sofar with
      | none =>
        obtain rfl : taken = [] := List.map_eq_nil_iff.1 hsofar
        exact if_pos rfl ▸ rfl
      | some v =>
        rw [if_neg fun hnil => Arithmetic.Folds.ne_nil hsofar (by simpa [evaluated] using hnil)]
        exact ⟨v, rfl, hsofar⟩
  · by_cases htotal : Blend.totalOf shares ≤ 0
    · rw [if_pos htotal, evaluate_multipleValues, if_pos htotal]
      exact PassM.endsAt_ofExcept (.error (.value .zeroShares))
    rw [if_neg htotal]
    have hstart : ∀ total, Blend.Holds total (Blend.weighed []) .nothing := fun _ => rfl
    rcases inTurn_or_decided s shares with ⟨taken, share, later, verdict, u, hshares, hd⟩ | ⟨taken, t, rfl, hturn⟩
    · refine .inl ⟨taken, share, later, verdict, u, hshares, hd, fun rest hrest => ?_⟩
      rw [evaluate_multipleValues, if_neg hrest]
      exact (Blend.law _ _).run_decided (hstart _) hd rest
    · obtain ⟨sofar, hsofar, hends⟩ := (Blend.law _ _).run_all (hstart (Blend.totalOf (evaluated taken))) hturn
      rw [evaluate_multipleValues, if_neg htotal]
      cases sofar with
      | nothing =>
        obtain rfl : taken = [] := List.map_eq_nil_iff.1 hsofar
        exact absurd (by decide) htotal
      | probability sum => exact .inr ⟨taken, t, _, rfl, hturn, hends, hsofar⟩
      | distribution mixed => exact .inr ⟨taken, t, _, rfl, hturn, hends, hsofar⟩

end

end Arbiter
