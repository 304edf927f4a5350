import Arbiter.Pass.Value
import Arbiter.Proofs.Chance.Weighted
import Arbiter.Proofs.Outcome.Shape
import Arbiter.Proofs.Outcome.Weights
import Arbiter.Proofs.Pass.Moment

/-!
# Answers by chance

An answer by chance is drawn from a window of the market's answers. After the checks its work finds the weights of the
window (`Pass.windowWeights`) and draws a position from them (`Pass.drawAnswer`), as `Pass.randomAnswer_eq` tells.

* `RandomAnswer.mem_window`: the answers of a window, also where its end is beyond the greatest word.
* `randomAnswer_inWindow`: what is drawn is an answer of the window, with a positive weight where weights count.
* `draws_crash_iff`: the work crashes exactly where the weights of the window have no finite sum.
-/

namespace Arbiter

/-! ## The window -/

namespace RandomAnswer

variable {r : RandomAnswer} {count i : Nat}

/-- Where the greatest word bounds the number of answers, it cuts no window short. -/
theorem mem_window (h : count ≤ word64Max) :
    i ∈ r.candidates count ↔ r.start ≤ i ∧ i < count ∧ ∀ limit, r.limit = some limit → i - r.start < limit := by
  rw [mem_candidates]
  refine and_congr_right fun hs => and_congr_right fun hc => forall_congr' fun limit => imp_congr_right fun _ => ?_
  omega

/-- The answers of a window follow one another. -/
theorem mem_of_getElem?_map {α : Type} {f : ℕ → α} {a : α} (h : ((r.candidates count).map f)[i]? = some a) :
    r.start + i ∈ r.candidates count ∧ f (r.start + i) = a := by
  rw [List.getElem?_map] at h
  obtain ⟨index, hindex, rfl⟩ := Option.map_eq_some_iff.1 h
  obtain ⟨hi, rfl⟩ := List.getElem?_eq_some_iff.1 hindex
  have hplace : (r.candidates count)[i] = r.start + i := (List.getElem_range' hi).trans (by rw [Nat.one_mul])
  rw [← hplace]
  exact ⟨List.getElem_mem hi, rfl⟩

/-- The present weights of the answers of the window. -/
def weights (r : RandomAnswer) (count : Nat) (current : Distribution Float) : List Float :=
  (r.candidates count).map fun index => (current.lookup index).getD 0

end RandomAnswer

/-- All weight on one answer of a market with answers stays as it is. -/
theorem conform_answer {m : Snapshot} {index : Nat} (hm : m.outcomeType.isCategorical = true)
    (hi : index < m.answers.length) : Outcome.conform m (.answer index) = .ok (.answer index) := by
  have hkeys : Distribution.checkAnswers (SortedMap.single index (100 : Float)) m.answers.length = .ok () :=
    checkAnswers_eq_ok_iff.2 (by simpa [SortedMap.keys, SortedMap.single] using hi)
  have htotal : ¬Distribution.total (SortedMap.single index (100 : Float)) ≤ 0 := by
    change ¬(0 + 100 : Float) ≤ 0
    decide
  have hshare : (100 : Float) = 100 * 100 / (0 + 100) := by rfl
  exact conform_eq_ok_iff.2 (.distribution hm hkeys
    (normalize_eq_ok_iff.2 ⟨htotal, SortedMap.ext (congrArg (fun x => [(index, x)]) hshare)⟩))

/-! ## The draw -/

namespace Pass

variable {m : Type → Type} [Monad m]

/-- The last step of an answer by chance: a position is drawn from the weights of the window. -/
def drawAnswer (p : Pass m) (node : List Nat) (answer : RandomAnswer) (weights : List Float) : PassM m Outcome := do
  let g ← p.generator node answer.seed
  match Weighted.pick weights g with
  | .ok (offset, _) => pure (.answer (answer.start + offset))
  | .error .overflow => throw .crash
  | .error fault => PassM.fail (.value (.undrawable weights fault))

/-- The weights that the answers of a window are drawn by. -/
def windowWeights (p : Pass m) (answer : RandomAnswer) : PassM m (List Float) :=
  if answer.weighted then answer.weights p.market.answers.length <$> p.currentDistribution
  else pure ((answer.candidates p.market.answers.length).map fun _ => 1)

/-- After two checks the weights are found and drawn from. -/
theorem randomAnswer_eq [LawfulMonad m] (p : Pass m) (node : List Nat) (answer : RandomAnswer) :
    p.randomAnswer node answer =
      if p.market.outcomeType.isCategorical = false then
        PassM.fail (.mismatch .categoricalMarket (.outcomeType p.market.outcomeType))
      else if answer.candidates p.market.answers.length = [] then PassM.fail (.value (.noAnswers answer.start))
      else p.windowWeights answer >>= p.drawAnswer node answer := by
  unfold randomAnswer windowWeights
  simp only [Bool.not_eq_true', List.isEmpty_iff]
  refine ite_congr rfl (fun _ => rfl) fun _ => ite_congr rfl (fun _ => rfl) fun _ => ?_
  split
  · rw [map_eq_pure_bind, bind_assoc]
    simp only [pure_bind]
    rfl
  · simp only [pure_bind]
    rfl

end Pass

section

variable {market : Snapshot} {now : Instant} {node : List Nat} {answer : RandomAnswer} {weights : List Float} {w : World}
  {s t : Moment} {v : Outcome}

/-- How a draw ends is how a position is picked by some generator. -/
theorem endsAt_drawAnswer : ∃ g t, ((worldPass market now).drawAnswer node answer weights).endsAt w s =
    (match Weighted.pick weights g with
      | .ok (offset, _) => .ok (.answer (answer.start + offset))
      | .error .overflow => .error .crash
      | .error fault => .error (.fault (.value (.undrawable weights fault))), t) := by
  obtain ⟨g, t, hg⟩ := PassM.endsAt_generator market now node answer.seed w s
  refine ⟨g, t, ?_⟩
  unfold Pass.drawAnswer
  rw [PassM.endsAt_bind, hg]
  dsimp only
  match Weighted.pick weights g with
  | .ok (offset, _) => exact PassM.endsAt_pure _
  | .error .overflow => exact PassM.endsAt_throw _
  | .error .empty | .error .invalid | .error .allZero => exact PassM.endsAt_throw _

/-- What is drawn is the answer at a position with a positive weight. -/
theorem drawAnswer_succeeds
    (h : PassM.Succeeds w ((worldPass market now).drawAnswer node answer weights) s v t) :
    ∃ (offset : ℕ) (x : Float), v = .answer (answer.start + offset) ∧ weights[offset]? = some x ∧ 0 < x := by
  obtain ⟨g, u, hends⟩ := @endsAt_drawAnswer market now node answer weights w s
  obtain ⟨hv, -⟩ := Prod.mk.inj (hends.symm.trans h)
  have hpick := Weighted.pick_ends weights g
  generalize Weighted.pick weights g = result at *
  cases hpick with
  | position _ _ hw hp =>
    cases hv
    exact ⟨_, _, rfl, hw, hp⟩
  | _ => cases hv

/-- From weights that allow for it some answer is drawn. -/
theorem drawAnswer_of_drawable (h : Weighted.Drawable weights) :
    ∃ v t, PassM.Succeeds w ((worldPass market now).drawAnswer node answer weights) s v t := by
  obtain ⟨g, t, hends⟩ := @endsAt_drawAnswer market now node answer weights w s
  obtain ⟨offset, g', hpick⟩ := Weighted.pick_ok_iff.2 h
  rw [hpick] at hends
  exact ⟨_, t, hends⟩

theorem drawAnswer_crashes_iff : (((worldPass market now).drawAnswer node answer weights).endsAt w s).1 = .error .crash ↔
    (∀ x ∈ weights, 0.0 ≤ x) ∧ ¬(Weighted.sum weights).isFinite = true := by
  obtain ⟨g, u, hends⟩ := @endsAt_drawAnswer market now node answer weights w s
  rw [hends, ← @Weighted.pick_eq_overflow_iff weights g]
  match Weighted.pick weights g with
  | .ok _ => exact iff_of_false nofun nofun
  | .error .overflow => exact iff_of_true rfl rfl
  | .error .empty | .error .invalid | .error .allZero => exact iff_of_false nofun nofun

/-- To find the weights takes one read at most, and reads do not crash. -/
theorem windowWeights_not_crash : (((worldPass market now).windowWeights answer).endsAt w s).1 ≠ .error .crash := by
  have hpure : ∀ {α : Type} (a : α) (t : Moment), ((pure a : PassM Course α).endsAt w t).1 ≠ .error .crash := fun a t h => by
    rw [PassM.endsAt_pure] at h
    cases h
  unfold Pass.windowWeights
  split
  case isFalse => exact hpure _ s
  case isTrue =>
  rw [map_eq_pure_bind, Pass.currentDistribution, Ne, PassM.crashes_bind, PassM.crashes_bind]
  rintro ((h | ⟨value, u, -, h⟩) | ⟨current, u, -, h⟩)
  · obtain ⟨fault, hf⟩ := PassM.halt_of_remember h
    cases hf
  · cases value with
    | distribution weights => exact hpure weights u h
    | _ =>
      rw [PassM.endsAt_fail] at h
      cases h
  · exact hpure _ u h

theorem windowWeights_succeeds : PassM.Succeeds w ((worldPass market now).windowWeights answer) s weights t ↔
    if answer.weighted then ∃ current, PassM.Succeeds w (worldPass market now).currentDistribution s current t ∧
      weights = answer.weights market.answers.length current
    else s = t ∧ weights = (answer.candidates market.answers.length).map fun _ => 1 := by
  unfold Pass.windowWeights
  split
  · rw [PassM.succeeds_map]
    exact exists_congr fun current => and_comm.trans (and_congr_right fun _ => eq_comm)
  · rw [PassM.succeeds_pure]
    exact and_comm.trans (and_congr_right fun _ => eq_comm)

/-! ## The work of an answer by chance -/

/-- What is drawn is an answer of the window, with a positive weight where weights count. -/
theorem randomAnswer_succeeds (h : PassM.Succeeds w ((worldPass market now).randomAnswer node answer) s v t) :
    market.outcomeType.isCategorical = true ∧ ∃ i ∈ answer.candidates market.answers.length, v = .answer i ∧
      (answer.weighted = true → ∃ current u x,
        PassM.Succeeds w (worldPass market now).currentDistribution s current u ∧ current.lookup i = some x ∧ 0 < x) := by
  rw [Pass.randomAnswer_eq] at h
  split at h
  case isTrue => exact absurd h PassM.not_succeeds_fail
  case isFalse hm =>
  split at h
  case isTrue => exact absurd h PassM.not_succeeds_fail
  case isFalse =>
  obtain ⟨weights, u, hweights, hdraw⟩ := PassM.succeeds_bind.1 h
  obtain ⟨offset, x, rfl, hx, hpos⟩ := drawAnswer_succeeds hdraw
  rw [windowWeights_succeeds] at hweights
  split at hweights
  case isTrue =>
    obtain ⟨current, hcurrent, rfl⟩ := hweights
    obtain ⟨hmem, hvalue⟩ := RandomAnswer.mem_of_getElem?_map hx
    refine ⟨Bool.eq_true_of_not_eq_false hm, _, hmem, rfl, fun _ => ⟨current, u, x, hcurrent, ?_, hpos⟩⟩
    cases hlookup : current.lookup (answer.start + offset) with
    | some y => rw [← hvalue, hlookup]; rfl
    | none =>
      -- an answer without a present weight counts as zero
      rw [← hvalue, hlookup] at hpos
      exact absurd (zero_hasValue.pos_iff.1 hpos) (lt_irrefl 0)
  case isFalse hunweighted =>
    obtain ⟨-, rfl⟩ := hweights
    obtain ⟨hmem, -⟩ := RandomAnswer.mem_of_getElem?_map hx
    exact ⟨Bool.eq_true_of_not_eq_false hm, _, hmem, rfl, fun hweighted => absurd hweighted hunweighted⟩

/-- Some answer of the window is drawn, if the window is not empty and, where weights count, they allow for it. -/
theorem randomAnswer_of_drawable (hm : market.outcomeType.isCategorical = true)
    (hc : answer.candidates market.answers.length ≠ [])
    (hweights : answer.weighted = true → ∃ current u,
      PassM.Succeeds w (worldPass market now).currentDistribution s current u ∧
      Weighted.Drawable (answer.weights market.answers.length current)) :
    ∃ v t, PassM.Succeeds w ((worldPass market now).randomAnswer node answer) s v t := by
  obtain ⟨weights, u, hfound, hdrawable⟩ : ∃ weights u,
      PassM.Succeeds w ((worldPass market now).windowWeights answer) s weights u ∧ Weighted.Drawable weights := by
    by_cases hweighted : answer.weighted = true
    · obtain ⟨current, u, hcurrent, hdrawable⟩ := hweights hweighted
      refine ⟨_, u, windowWeights_succeeds.2 ?_, hdrawable⟩
      rw [if_pos hweighted]
      exact ⟨current, hcurrent, rfl⟩
    · refine ⟨_, s, windowWeights_succeeds.2 ?_, Weighted.drawable_ones hc⟩
      rw [if_neg hweighted]
      exact ⟨rfl, rfl⟩
  obtain ⟨v, t, hdraw⟩ := @drawAnswer_of_drawable market now node answer weights w u hdrawable
  rw [Pass.randomAnswer_eq]
  split
  case isTrue huncategorical => exact absurd (huncategorical.symm.trans hm) Bool.false_ne_true
  case isFalse =>
  split
  case isTrue hempty => exact absurd hempty hc
  case isFalse => exact ⟨v, t, PassM.succeeds_bind.2 ⟨weights, u, hfound, hdraw⟩⟩

/-- The work gives up exactly where present weights are found that are not below zero, but have no finite sum. -/
theorem randomAnswer_crash_iff : (((worldPass market now).randomAnswer node answer).endsAt w s).1 = .error .crash ↔
    market.outcomeType.isCategorical = true ∧ answer.weighted = true ∧ ∃ current t,
      PassM.Succeeds w (worldPass market now).currentDistribution s current t ∧
      (∀ x ∈ answer.weights market.answers.length current, 0.0 ≤ x) ∧
      ¬(Weighted.sum (answer.weights market.answers.length current)).isFinite = true := by
  have hfail : ∀ f : RuleFault, ((PassM.fail f : PassM Course Outcome).endsAt w s).1 ≠ .error .crash := fun f h => by
    rw [PassM.endsAt_fail] at h
    cases h
  rw [Pass.randomAnswer_eq]
  split
  case isTrue hm => exact iff_of_false (hfail _) fun h => Bool.false_ne_true (hm.symm.trans h.1)
  case isFalse hm =>
  split
  case isTrue hc =>
    refine iff_of_false (hfail _) ?_
    rintro ⟨-, -, current, t, -, -, hf⟩
    rw [RandomAnswer.weights, show answer.candidates market.answers.length = [] from hc] at hf
    exact hf zero_hasValue.isFinite
  case isFalse =>
  simp only [PassM.crashes_bind, or_iff_right windowWeights_not_crash, drawAnswer_crashes_iff, windowWeights_succeeds]
  refine (Iff.trans ?_ (and_iff_right (Bool.eq_true_of_not_eq_false hm)).symm)
  split
  case isTrue hweighted =>
    rw [and_iff_right hweighted]
    constructor
    · rintro ⟨_, t, ⟨current, hcurrent, rfl⟩, h⟩
      exact ⟨current, t, hcurrent, h⟩
    · rintro ⟨current, t, hcurrent, h⟩
      exact ⟨_, t, ⟨current, hcurrent, rfl⟩, h⟩
  case isFalse hunweighted =>
    refine iff_of_false ?_ fun h => hunweighted h.1
    rintro ⟨_, t, ⟨-, rfl⟩, -, hf⟩
    exact hf (Weighted.isFinite_sum_ones _)

end

/-- An answer by chance is one of the window: of the answers from the start on, only so many as the limit allows for, also
where their sum is beyond the greatest word. An empty window is refused before anything is read. From any other one an
answer is drawn, if the weights allow for it where they count. What is drawn passes the last check of the market, and where
weights count its weight is positive. -/
theorem randomAnswer_inWindow (answer : RandomAnswer) :
    (∀ count ≤ word64Max, ∀ i, i ∈ answer.candidates count ↔
      answer.start ≤ i ∧ i < count ∧ ∀ limit, answer.limit = some limit → i - answer.start < limit) ∧
    ∀ (market : Snapshot) (now : Instant) (node : List Nat) (w : World) (s : Moment),
      let work := (ValueRule.randomIndex answer).evaluate (worldPass market now) node
      (market.outcomeType.isCategorical = true → answer.candidates market.answers.length = [] →
        work.endsAt w s = (.error (.fault (.value (.noAnswers answer.start))), s)) ∧
      (market.outcomeType.isCategorical = true → answer.candidates market.answers.length ≠ [] →
        (answer.weighted = true → ∃ current u, PassM.Succeeds w (worldPass market now).currentDistribution s current u ∧
          Weighted.Drawable (answer.weights market.answers.length current)) →
        ∃ v t, PassM.Succeeds w work s v t) ∧
      ∀ v t, PassM.Succeeds w work s v t → ∃ i ∈ answer.candidates market.answers.length,
        v = .distribution (SortedMap.single i 100) ∧ Outcome.conform market v = .ok v ∧
        (answer.weighted = true → ∃ current u x,
          PassM.Succeeds w (worldPass market now).currentDistribution s current u ∧ current.lookup i = some x ∧ 0 < x) := by
  refine ⟨fun count hcount i => RandomAnswer.mem_window hcount, fun market now node w s => ?_⟩
  dsimp only
  rw [ValueRule.evaluate]
  refine ⟨fun hm hc => ?_, randomAnswer_of_drawable, fun v t h => ?_⟩
  · rw [Pass.randomAnswer_eq]
    split
    case isTrue huncategorical => exact absurd (huncategorical.symm.trans hm) Bool.false_ne_true
    case isFalse => exact (congrArg (PassM.endsAt w · s) (if_pos hc)).trans (PassM.endsAt_fail _)
  · obtain ⟨hm, i, hi, rfl, hweighted⟩ := randomAnswer_succeeds h
    exact ⟨i, hi, rfl, conform_answer hm (RandomAnswer.mem_candidates.1 hi).2.1, hweighted⟩

/-- A world that stands still, where the answers of every market have these weights. -/
def weighingWorld (weights : Distribution Float) : World where
  answer past
    | .currentValue _ => .ok (.distribution weights)
    | q => (World.still ⟨0, 0⟩).answer past q

theorem weighingWorld_current (market : Snapshot) (now : Instant) (weights : Distribution Float) :
    ∃ t, PassM.Succeeds (weighingWorld weights) (worldPass market now).currentDistribution ⟨[], .empty, .empty⟩ weights t :=
  ⟨_, rfl⟩

/-- A market with three answers. -/
def threeAnswers : Snapshot := ⟨"a", "", "A?", .multipleChoice, none, none, false, ["x", "y", "z"], none, false⟩

/-- A window that ends beyond the greatest word: its one answer is drawn, and weights before it do not count. -/
theorem lastAnswer_inWindow :
    let answer : RandomAnswer := ⟨2, some word64Max, true, some (.number 1)⟩
    let work := (ValueRule.randomIndex answer).evaluate (worldPass threeAnswers ⟨0, 0⟩) []
    let w := weighingWorld (SortedMap.ofList [(0, 7), (2, 3)])
    word64Max < answer.start + word64Max ∧ (∀ i, i ∈ answer.candidates 3 ↔ i = 2) ∧
    ∃ v t, PassM.Succeeds w work ⟨[], .empty, .empty⟩ v t ∧ v = .distribution (SortedMap.single 2 100) ∧
      Outcome.conform threeAnswers v = .ok v := by
  intro answer work w
  obtain ⟨hwindow, hwork⟩ := randomAnswer_inWindow answer
  have hone : ∀ i, i ∈ answer.candidates 3 ↔ i = 2 := fun i => by
    rw [hwindow 3 (by decide)]
    change 2 ≤ i ∧ i < 3 ∧ (∀ limit, some word64Max = some limit → i - 2 < limit) ↔ _
    simp only [Option.some.injEq, forall_eq', word64Max]
    omega
  obtain ⟨u, hread⟩ := weighingWorld_current threeAnswers ⟨0, 0⟩ (SortedMap.ofList [(0, 7), (2, 3)])
  have hweights : answer.weights 3 (SortedMap.ofList [(0, 7), (2, 3)]) = [3] := by decide +kernel
  have hdrawable : Weighted.Drawable [3] := ⟨by decide, by decide, 3, List.mem_cons_self, by decide⟩
  obtain ⟨-, hdrawn, hanswer⟩ := hwork threeAnswers ⟨0, 0⟩ [] w ⟨[], .empty, .empty⟩
  obtain ⟨v, t, hends⟩ := hdrawn rfl (List.ne_nil_of_mem ((hone 2).2 rfl)) fun _ => ⟨_, u, hread, hweights ▸ hdrawable⟩
  obtain ⟨i, hi, rfl, hconform, -⟩ := hanswer v t hends
  obtain rfl := (hone i).1 hi
  exact ⟨by decide, hone, _, t, hends, rfl, hconform⟩

/-- Draws from finite weights that are not below zero come to a position of the list or are refused, as long as the sum is
finite; without a finite sum they crash. So does the work of an answer by chance, exactly where the weights of its window
have no finite sum. -/
theorem draws_crash_iff {weights : List Float} (hweights : ∀ x ∈ weights, x.isFinite = true ∧ 0.0 ≤ x) (g : Generator)
    (market : Snapshot) (now : Instant) (node : List Nat) (answer : RandomAnswer) (w : World) (s : Moment) :
    (if (Weighted.sum weights).isFinite then
      (∃ i g', Weighted.pick weights g = .ok (i, g') ∧ i < weights.length) ∨
      (weights = [] ∧ Weighted.pick weights g = .error .empty) ∨
      (weights ≠ [] ∧ (∀ x ∈ weights, x ≤ 0) ∧ Weighted.pick weights g = .error .allZero)
    else Weighted.pick weights g = .error .overflow) ∧
    ((((ValueRule.randomIndex answer).evaluate (worldPass market now) node).endsAt w s).1 = .error .crash ↔
      market.outcomeType.isCategorical = true ∧ answer.weighted = true ∧ ∃ current t,
        PassM.Succeeds w (worldPass market now).currentDistribution s current t ∧
        (∀ x ∈ answer.weights market.answers.length current, 0.0 ≤ x) ∧
        ¬(Weighted.sum (answer.weights market.answers.length current)).isFinite = true) := by
  constructor
  · split
    case isFalse hf => exact Weighted.pick_eq_overflow_iff.2 ⟨fun x hx => (hweights x hx).2, hf⟩
    case isTrue hf =>
      have hends := Weighted.pick_ends weights g
      generalize Weighted.pick weights g = result at hends
      cases hends with
      | empty h => exact .inr (.inl ⟨h, rfl⟩)
      | invalid h =>
        obtain ⟨x, hx, hneg⟩ := h
        exact absurd (hweights x hx).2 hneg
      | allZero hne h _ => exact .inr (.inr ⟨hne, fun x hx => (h x hx).2, rfl⟩)
      | overflow _ hinfinite => exact absurd hf hinfinite
      | position _ _ hx _ => exact .inl ⟨_, _, rfl, (List.getElem?_eq_some_iff.1 hx).1⟩
  · rw [ValueRule.evaluate]
    exact randomAnswer_crash_iff

/-- Two weights that have a finite sum are drawn from, whatever the generator and the seed are. -/
theorem lightWeights_drawn :
    (∀ x ∈ [(1 : Float), 3], x.isFinite = true ∧ 0.0 ≤ x) ∧ ∀ (g : Generator) (seed : Option Seed),
      (∃ i g', Weighted.pick [1, 3] g = .ok (i, g') ∧ i < 2) ∧
      (((ValueRule.randomIndex ⟨0, some 2, true, seed⟩).evaluate (worldPass threeAnswers ⟨0, 0⟩) []).endsAt
        (weighingWorld (SortedMap.ofList [(0, 1), (1, 3)])) ⟨[], .empty, .empty⟩).1 ≠ .error .crash := by
  have hweights : ∀ x ∈ [(1 : Float), 3], x.isFinite = true ∧ 0.0 ≤ x := by decide
  have hsum : (Weighted.sum [1, 3]).isFinite = true := by decide
  refine ⟨hweights, fun g seed => ?_⟩
  obtain ⟨hdraw, hwork⟩ := draws_crash_iff hweights g threeAnswers ⟨0, 0⟩ [] ⟨0, some 2, true, seed⟩
    (weighingWorld (SortedMap.ofList [(0, 1), (1, 3)])) ⟨[], .empty, .empty⟩
  constructor
  · rw [if_pos hsum] at hdraw
    rcases hdraw with h | ⟨h, -⟩ | ⟨-, h, -⟩
    · exact h
    · cases h
    · exact absurd (h 1 List.mem_cons_self) (by decide)
  · rw [Ne, hwork]
    rintro ⟨-, -, current, t, hcurrent, -, hinfinite⟩
    obtain ⟨u, hread⟩ := weighingWorld_current threeAnswers ⟨0, 0⟩ (SortedMap.ofList [(0, 1), (1, 3)])
    obtain ⟨rfl, -⟩ := PassM.succeeds_unique hcurrent hread
    exact hinfinite hsum

/-- Two finite weights that have none: the draw crashes, and the work of an answer by chance with it. -/
theorem heavyWeights_crash :
    (∀ x ∈ [(1e308 : Float), 1e308], x.isFinite = true ∧ 0.0 ≤ x) ∧
    Weighted.pick [1e308, 1e308] (Seed.number 1).generator = .error .overflow ∧
    (((ValueRule.randomIndex ⟨0, some 2, true, some (.number 1)⟩).evaluate (worldPass threeAnswers ⟨0, 0⟩) []).endsAt
      (weighingWorld (SortedMap.ofList [(0, 1e308), (1, 1e308)])) ⟨[], .empty, .empty⟩).1 = .error .crash := by
  have hheavy : (∀ x ∈ [(1e308 : Float), 1e308], 0.0 ≤ x) ∧ ¬(Weighted.sum [1e308, 1e308]).isFinite = true := by
    decide +kernel
  have hweights : ∀ x : Float, RandomAnswer.weights ⟨0, some 2, true, some (.number 1)⟩ 3
      (SortedMap.ofList [(0, x), (1, x)]) = [x, x] := fun _ => rfl
  refine ⟨by decide +kernel, Weighted.pick_eq_overflow_iff.2 hheavy, ?_⟩
  obtain ⟨t, hcurrent⟩ := weighingWorld_current threeAnswers ⟨0, 0⟩ (SortedMap.ofList [(0, 1e308), (1, 1e308)])
  rw [ValueRule.evaluate]
  refine randomAnswer_crash_iff.2 ⟨rfl, rfl, _, t, hcurrent, ?_⟩
  rw [show threeAnswers.answers.length = 3 from rfl, hweights]
  exact hheavy

end Arbiter
