import Arbiter.Proofs.Explanation.Lines
import Arbiter.Proofs.Explanation.Trigger
import Arbiter.Proofs.Pass.Draws
import Arbiter.Proofs.Pass.Moment

/-!
# Values are explained as they are evaluated

The explanation of a value rule evaluates the whole tree and then walks through it again, each node with a whole evaluation
of its own. All that the walk needs was remembered by the first evaluation, so it asks nothing and meets the same values.

* `Visits`: children evaluated one by one up to the first that cancels. `visits_of_evaluate`: what a joint does.
* `Shown`: how the lines of an evaluated tree have to look, by the evaluations of its nodes.
* `Trigger.explained_later`, `ValueRule.explained_later`: after an evaluation the explanation comes to its lines at once.
* `ValueRule.snd_explainIn`: without its lines the explanation of a tree is the evaluation of the tree.
-/

namespace Arbiter

/-! ## Children of a joint -/

/-- A child of a node, where it stands in the explanation: below some lines, with its own node and depth. -/
structure Placed where
  above : List Line
  node : List Nat
  depth : Nat
  rule : ValueRule

namespace Placed

variable {m : Type → Type} [Monad m]

/-- The evaluation of the child. -/
def work (p : Pass m) (c : Placed) : PassM m Outcome := c.rule.evaluate p c.node

/-- The child with what stands above it, not explained yet. -/
def part (p : Pass m) (c : Placed) : List Line × Part m Outcome :=
  (c.above, ⟨c.rule.explainIn p c.node c.depth, c.rule.explainSkipped c.depth⟩)

/-- The lines of a child that was not reached. -/
def skipped (c : Placed) : List Line := c.above ++ c.rule.explainSkipped c.depth

end Placed

namespace ValueRule

/-- Several children from the one at `i` on. -/
def placedEach (node : List Nat) (depth i : Nat) : List ValueRule → List Placed
  | [] => []
  | r :: rest => ⟨[], i :: node, depth, r⟩ :: placedEach node depth (i + 1) rest

/-- The shares of a weighted union from the one at `i` on. -/
def placedShares (node : List Nat) (depth i : Nat) : List (Float × ValueRule) → List Placed
  | [] => []
  | (weight, r) :: rest =>
    ⟨[shareLine depth weight], i :: node, depth + 1, r⟩ :: placedShares node depth (i + 1) rest

/-- The children that are evaluated one after another, in an explanation with its root at `depth`. -/
def placed (node : List Nat) (depth : Nat) : ValueRule → List Placed
  | .negate child => [⟨[], 0 :: node, depth + 1, child⟩]
  | .sum children | .product children | .modulus children => placedEach node (depth + 1) 0 children
  | .multipleValues shares => placedShares node (depth + 1) 0 shares
  | _ => []

/-- Whether the root joins the values of such children. -/
def isJoint : ValueRule → Bool
  | .negate _ | .sum _ | .product _ | .modulus _ | .multipleValues _ => true
  | _ => false

section Parts

variable {m : Type → Type} [Monad m] (p : Pass m) (node : List Nat)

theorem evaluateEach_eq (depth : Nat) : ∀ (i : Nat) (rs : List ValueRule),
    evaluateEach p node i rs = (placedEach node depth i rs).map (Placed.work p)
  | _, [] => rfl
  | i, _ :: rest => by
    rw [evaluateEach, placedEach, evaluateEach_eq depth (i + 1) rest, List.map_cons]
    rfl

theorem evaluateShares_eq (depth : Nat) : ∀ (i : Nat) (shares : List (Float × ValueRule)),
    (evaluateShares p node i shares).map (·.2) = (placedShares node depth i shares).map (Placed.work p)
  | _, [] => rfl
  | i, _ :: rest => by
    rw [evaluateShares, placedShares, List.map_cons, evaluateShares_eq depth (i + 1) rest, List.map_cons]
    rfl

theorem parts_eq (depth : Nat) : ∀ (i : Nat) (rs : List ValueRule),
    parts p node depth i rs = (placedEach node depth i rs).map (Placed.part p)
  | _, [] => rfl
  | i, _ :: rest => by
    rw [parts, placedEach, parts_eq depth (i + 1) rest, List.map_cons]
    rfl

theorem shareParts_eq (depth : Nat) : ∀ (i : Nat) (shares : List (Float × ValueRule)),
    shareParts p node depth i shares = (placedShares node depth i shares).map (Placed.part p)
  | _, [] => rfl
  | i, _ :: rest => by
    rw [shareParts, placedShares, shareParts_eq depth (i + 1) rest, List.map_cons]
    rfl

end Parts

theorem mem_placedEach {node : List Nat} {depth : Nat} {c : Placed} {rs : List ValueRule} : ∀ {i : Nat},
    c ∈ placedEach node depth i rs → c.above = [] ∧ c.depth = depth ∧ c.rule ∈ rs := by
  induction rs with
  | nil => nofun
  | cons r rest ih =>
    intro i h
    rcases List.mem_cons.1 h with rfl | h
    · exact ⟨rfl, rfl, List.mem_cons_self⟩
    · obtain ⟨habove, hdepth, hrule⟩ := ih h
      exact ⟨habove, hdepth, List.mem_cons_of_mem r hrule⟩

theorem mem_placedShares {node : List Nat} {depth : Nat} {c : Placed} {shares : List (Float × ValueRule)} : ∀ {i : Nat},
    c ∈ placedShares node depth i shares →
      ∃ weight, c.above = [shareLine depth weight] ∧ c.depth = depth + 1 ∧ (weight, c.rule) ∈ shares := by
  induction shares with
  | nil => nofun
  | cons share rest ih =>
    intro i h
    rcases List.mem_cons.1 h with rfl | h
    · exact ⟨share.1, rfl, rfl, List.mem_cons_self⟩
    · obtain ⟨weight, habove, hdepth, hrule⟩ := ih h
      exact ⟨weight, habove, hdepth, List.mem_cons_of_mem share hrule⟩

/-- They are children of the node. -/
theorem rule_mem_children {node : List Nat} {depth : Nat} {r : ValueRule} {c : Placed} (h : c ∈ r.placed node depth) :
    c.rule ∈ r.children := by
  cases r with
  | negate child =>
    cases List.mem_singleton.1 h
    exact List.mem_singleton.2 rfl
  | sum children | product children | modulus children => exact (mem_placedEach h).2.2
  | multipleValues shares =>
    obtain ⟨weight, -, -, hrule⟩ := mem_placedShares h
    exact List.mem_map_of_mem hrule
  | _ => cases h

end ValueRule

/-! ## Visited children -/

open PassM

variable {w : World} {s t u : Moment} {v : Outcome}

/-- The works succeed one after another, from one moment to another one, up to the first that cancels; none of those after it
is begun. -/
inductive Visits (w : World) : List (PassM Course Outcome) → Moment → Moment → Prop
  | done {s : Moment} : Visits w [] s s
  | cancels {x : PassM Course Outcome} {rest : List (PassM Course Outcome)} {s t : Moment}
      (first : Succeeds w x s .cancel t) : Visits w (x :: rest) s t
  | next {x : PassM Course Outcome} {rest : List (PassM Course Outcome)} {s u t : Moment} {v : Outcome}
      (first : Succeeds w x s v u) (goes : v ≠ .cancel) (more : Visits w rest u t) : Visits w (x :: rest) s t

/-- A loop that ends at a child that cancels and goes on after any other one visits its children. -/
theorem visits_cons {x : PassM Course Outcome} {rest : List (PassM Course Outcome)} {f : Outcome → PassM Course Outcome}
    (h : Succeeds w (x >>= f) s v t) (hcancel : f .cancel = pure .cancel)
    (hgoes : ∀ value u, value ≠ .cancel → Succeeds w (f value) u v t → Visits w rest u t) :
    Visits w (x :: rest) s t := by
  obtain ⟨value, u, hx, h⟩ := succeeds_bind.1 h
  by_cases hv : value = .cancel
  · subst hv
    rw [hcancel] at h
    obtain ⟨-, rfl⟩ := succeeds_pure.1 h
    exact .cancels hx
  · exact .next hx hv (hgoes value u hv h)

theorem visits_of_joinAll {op : Float → Float → Except RuleFault Float} {works : List (PassM Course Outcome)} :
    ∀ {sofar : Option Outcome} {s : Moment}, Succeeds w (joinAll op sofar works) s v t → Visits w works s t := by
  induction works with
  | nil =>
    intro sofar s h
    cases sofar with
    | none => exact absurd h not_succeeds_fail
    | some value =>
      obtain ⟨-, rfl⟩ := succeeds_pure.1 h
      exact .done
  | cons x rest ih =>
    intro sofar s h
    refine visits_cons h rfl fun value u hv h => ?_
    cases value with
    | cancel => exact absurd rfl hv
    | _ =>
      obtain ⟨joined, _, hj, h⟩ := succeeds_bind.1 h
      obtain ⟨-, rfl⟩ := succeeds_ofExcept.1 hj
      exact ih h

theorem visits_of_blendAll {count : Nat} {total : Float} {shares : List (Float × PassM Course Outcome)} :
    ∀ {sofar : Blend Float} {s : Moment}, Succeeds w (blendAll count total sofar shares) s v t →
      Visits w (shares.map (·.2)) s t := by
  induction shares with
  | nil =>
    intro sofar s h
    obtain ⟨-, rfl⟩ := succeeds_ofExcept.1 h
    exact .done
  | cons share rest ih =>
    intro sofar s h
    refine visits_cons h rfl fun value u hv h => ?_
    cases value with
    | cancel => exact absurd rfl hv
    | _ =>
      obtain ⟨blended, _, hb, h⟩ := succeeds_bind.1 h
      obtain ⟨-, rfl⟩ := succeeds_ofExcept.1 hb
      exact ih h

theorem succeeds_opposite {value : Outcome} (h : Succeeds w (Pass.opposite value) s v t) : s = t := by
  cases value with
  | cancel | probability _ | bool _ => exact (succeeds_pure.1 h).2
  | numeric _ | distribution _ => exact absurd h not_succeeds_fail

/-- A joint that came to a value visited its children in their order, up to the first that cancelled, and did nothing
else. -/
theorem ValueRule.visits_of_evaluate {p : Pass Course} {node : List Nat} {r : ValueRule} (hr : r.isJoint = true)
    (depth : Nat) (h : Succeeds w (r.evaluate p node) s v t) : Visits w ((r.placed node depth).map (Placed.work p)) s t := by
  cases r with
  | negate child =>
    refine visits_cons h rfl fun value u _ h => ?_
    obtain rfl := succeeds_opposite h
    exact .done
  | sum children | product children | modulus children =>
    rw [evaluate, evaluateEach_eq p node (depth + 1)] at h
    exact visits_of_joinAll h
  | multipleValues shares =>
    obtain ⟨total, _, ht, h⟩ := succeeds_bind.1 h
    obtain ⟨-, rfl⟩ := succeeds_ofExcept.1 ht
    rw [placed, ← evaluateShares_eq p node (depth + 1)]
    exact visits_of_blendAll h
  | _ => cases hr

/-! ## The walk after the evaluation -/

namespace ValueRule

section Walk

variable {m : Type → Type} [Monad m]

/-- The question of the market that the root refers to. -/
def refers (p : Pass m) : ValueRule → PassM m (Option String)
  | .otherMarketValue url | .amplifiedOdds url _ _ => do return some (← p.otherMarket url).question
  | _ => pure none

/-- The explanation of what stands below the root. -/
def under (p : Pass m) (node : List Nat) (depth : Nat) : ValueRule → PassM m (List Line)
  | .conditional premise value =>
    explainConditional (premise.explainIn p (depth + 1))
      ⟨value.explainIn p (0 :: node) (depth + 1), value.explainSkipped (depth + 1)⟩
  | r => explainParts false ((r.placed node depth).map (Placed.part p))

variable [LawfulMonad m]

/-- An explanation reads the question of its root, evaluates the tree and then explains what stands below the root. -/
theorem explainIn_eq (p : Pass m) (node : List Nat) (depth : Nat) (r : ValueRule) :
    r.explainIn p node depth =
      r.refers p >>= fun question => explainNode p r node depth question (r.under p node depth) := by
  cases r with
  | otherMarketValue url | amplifiedOdds url a seed =>
    simp only [explainIn, refers, bind_assoc, pure_bind]
    rfl
  | sum children | product children | modulus children =>
    simp only [explainIn, refers, under, placed, pure_bind, parts_eq]
  | multipleValues shares => simp only [explainIn, refers, under, placed, pure_bind, shareParts_eq]
  | conditional premise value => simp only [explainIn, refers, under, pure_bind]
  | _ =>
    simp only [explainIn, refers, under, pure_bind]
    rfl

/-- The question is read with the market that the evaluation reads first. -/
theorem refers_evaluate (p : Pass m) (node : List Nat) (r : ValueRule) :
    (do let _ ← r.refers p; r.evaluate p node) = r.evaluate p node := by
  cases r with
  | otherMarketValue url | amplifiedOdds url a seed =>
    simp only [refers, evaluate, Pass.amplified, bind_assoc, pure_bind]
    exact p.otherMarket_again url _
  | _ => simp only [refers, pure_bind]

end Walk

end ValueRule

mutual

/-- The lines of a tree whose evaluation came to `v` between two moments: the root with this value, its steps, and what
stands below it. -/
inductive Shown (w : World) (p : Pass Course) :
    (node : List Nat) → (depth : Nat) → ValueRule → Moment → Outcome → Moment → List Line → Prop
  | node {node : List Nat} {depth : Nat} {r : ValueRule} {s u t : Moment} {v : Outcome} {question : Option String}
      {lines : List Line} (asked : Succeeds w (r.refers p) s question u) (value : Succeeds w (r.evaluate p node) s v t)
      (under : ShownUnder w p node depth r s t lines) :
      Shown w p node depth r s v t (⟨depth, r.phrase, question, some (.value v.text)⟩ :: (r.steps (depth + 1) ++ lines))

/-- The lines below the root of an evaluated tree. The children that are shown with values are evaluated between the same
moments as the root. -/
inductive ShownUnder (w : World) (p : Pass Course) :
    (node : List Nat) → (depth : Nat) → ValueRule → Moment → Moment → List Line → Prop
  | leaf {node : List Nat} {depth : Nat} {r : ValueRule} {s t : Moment} (children : r.children = []) :
      ShownUnder w p node depth r s t []
  | joint {node : List Nat} {depth : Nat} {r : ValueRule} {s t : Moment} {lines : List Line} (joins : r.isJoint = true)
      (children : ShownEach w p (r.placed node depth) s t lines) : ShownUnder w p node depth r s t lines
  | held {node : List Nat} {depth : Nat} {premise : Trigger} {value : ValueRule} {s u t : Moment} {v : Outcome}
      {lines more : List Line} (holds : Succeeds w (premise.explainIn p (depth + 1)) s (lines, true) u)
      (child : Shown w p (0 :: node) (depth + 1) value u v t more) :
      ShownUnder w p node depth (.conditional premise value) s t (lines ++ more)
  | failed {node : List Nat} {depth : Nat} {premise : Trigger} {value : ValueRule} {s t : Moment} {lines : List Line}
      (fails : Succeeds w (premise.explainIn p (depth + 1)) s (lines, false) t) :
      ShownUnder w p node depth (.conditional premise value) s t (lines ++ value.explainSkipped (depth + 1))

/-- The lines of children that were evaluated one after another up to the first that cancelled, with those after it
skipped. -/
inductive ShownEach (w : World) (p : Pass Course) : List Placed → Moment → Moment → List Line → Prop
  | done {s : Moment} : ShownEach w p [] s s []
  | cancels {c : Placed} {rest : List Placed} {s t : Moment} {lines : List Line}
      (first : Shown w p c.node c.depth c.rule s .cancel t lines) :
      ShownEach w p (c :: rest) s t (c.above ++ lines ++ rest.flatMap Placed.skipped)
  | next {c : Placed} {rest : List Placed} {s u t : Moment} {v : Outcome} {lines more : List Line}
      (first : Shown w p c.node c.depth c.rule s v u lines) (goes : v ≠ .cancel) (others : ShownEach w p rest u t more) :
      ShownEach w p (c :: rest) s t (c.above ++ lines ++ more)

end

section Later

variable {market : Snapshot} {now : Instant}

/-- Once the tree was evaluated, its explanation comes at any later time to lines that show this evaluation, and asks
nothing. -/
def ExplainedLater (w : World) (p : Pass Course) (node : List Nat) (depth : Nat) (r : ValueRule) : Prop :=
  ∀ {s t : Moment} {v : Outcome}, Succeeds w (r.evaluate p node) s v t → ∃ lines, Shown w p node depth r s v t lines ∧
    ∀ later, t.memory ≤ later → (r.explainIn p node depth).runFrom later = pure (.ok (lines, v), later)

theorem durable_refers (r : ValueRule) : PassM.Durable (r.refers (worldPass market now)) := by
  have law := durableReads market now
  cases r with
  | otherMarketValue url | amplifiedOdds url _ _ => exact law.bind (law.otherMarket url) fun _ => law.pure _
  | _ => exact law.pure none

theorem variant_beq_cancel {v : Outcome} : (v.variant == .cancel) = true ↔ v = .cancel := by
  cases v with
  | cancel => exact iff_of_true rfl rfl
  | _ => exact iff_of_false nofun nofun

/-- After a child that cancelled all lines are known. -/
theorem explainParts_cancelled (p : Pass Course) (cs : List Placed) :
    ValueRule.explainParts true (cs.map (Placed.part p)) = pure (cs.flatMap Placed.skipped) := by
  induction cs with
  | nil => rfl
  | cons c rest ih =>
    simp only [List.map_cons, ValueRule.explainParts, ih, if_true, pure_bind]
    rfl

/-- The walk goes on after a child by the value that the child was shown with. -/
theorem explainParts_next {p : Pass Course} {c : Placed} {rest : List Placed} {lines more : List Line} {later : Memory}
    (hc : (c.rule.explainIn p c.node c.depth).runFrom later = pure (.ok (lines, v), later))
    (hrest : (ValueRule.explainParts (v.variant == .cancel) (rest.map (Placed.part p))).runFrom later =
      pure (.ok more, later)) :
    (ValueRule.explainParts false ((c :: rest).map (Placed.part p))).runFrom later =
      pure (.ok (c.above ++ lines ++ more), later) := by
  rw [List.map_cons, Placed.part, ValueRule.explainParts, if_neg Bool.false_ne_true]
  rw [PassM.runFrom_bind_of hc, PassM.runFrom_bind_of hrest]
  rfl

/-- The walk through the children of a joint meets the evaluations of those that were visited. -/
theorem explainedLater_each {cs : List Placed}
    (hcs : ∀ c ∈ cs, ExplainedLater w (worldPass market now) c.node c.depth c.rule) :
    ∀ {s : Moment}, Visits w (cs.map (Placed.work (worldPass market now))) s t →
      ∃ lines, ShownEach w (worldPass market now) cs s t lines ∧ s.memory ≤ t.memory ∧ ∀ later, t.memory ≤ later →
        (ValueRule.explainParts false (cs.map (Placed.part (worldPass market now)))).runFrom later =
          pure (.ok lines, later) := by
  induction cs with
  | nil =>
    intro s h
    cases h with
    | done => exact ⟨[], .done, Memory.le_refl _, fun later _ => rfl⟩
  | cons c rest ih =>
    intro s h
    have hgrows : ∀ {v u}, Succeeds w (c.work (worldPass market now)) s v u → s.memory ≤ u.memory := fun hx =>
      (((durableReads market now).value c.node c.rule).settled hx).1
    cases h with
    | cancels first =>
      obtain ⟨lines, hshown, hlater⟩ := hcs c List.mem_cons_self first
      refine ⟨_, .cancels hshown, hgrows first, fun later h => explainParts_next (hlater later h) ?_⟩
      rw [variant_beq_cancel.2 rfl, explainParts_cancelled]
      rfl
    | next first goes more =>
      obtain ⟨lines, hshown, hlater⟩ := hcs c List.mem_cons_self first
      obtain ⟨others, hothers, hle, hrest⟩ := ih (fun d hd => hcs d (List.mem_cons_of_mem c hd)) more
      refine ⟨_, .next hshown goes hothers, Memory.le_trans (hgrows first) hle, fun later h => ?_⟩
      refine explainParts_next (hlater later (Memory.le_trans hle h)) ?_
      rw [Bool.eq_false_iff.2 (mt variant_beq_cancel.1 goes)]
      exact hrest later h

/-- A trigger that was evaluated is explained from the same moment with the same value, and from then on at once. -/
theorem Trigger.explained_later (r : Trigger) {holds : Bool} (depth : Nat)
    (h : Succeeds w (r.evaluate (worldPass market now)) s holds u) :
    ∃ lines, Succeeds w (r.explainIn (worldPass market now) depth) s (lines, holds) u ∧
      ∀ later, u.memory ≤ later →
        (r.explainIn (worldPass market now) depth).runFrom later = pure (.ok (lines, holds), later) := by
  rw [← r.snd_explainIn (worldPass market now) depth] at h
  obtain ⟨⟨lines, _⟩, rfl, hx⟩ := succeeds_map.1 h
  exact ⟨lines, hx, (((durableReads market now).explainedTrigger depth r).settled hx).2⟩

/-- What stands below the root of a tree that was evaluated. -/
theorem explainedLater_under {r : ValueRule} {node : List Nat} (depth : Nat)
    (ih : ∀ c ∈ r.children, ∀ node depth, ExplainedLater w (worldPass market now) node depth c)
    (h : Succeeds w (r.evaluate (worldPass market now) node) s v t) :
    ∃ lines, ShownUnder w (worldPass market now) node depth r s t lines ∧
      ∀ later, t.memory ≤ later → (r.under (worldPass market now) node depth).runFrom later = pure (.ok lines, later) := by
  cases hr : r.isJoint with
  | true =>
    have hcs : ∀ c ∈ r.placed node depth, ExplainedLater w (worldPass market now) c.node c.depth c.rule := fun c hc =>
      ih c.rule (ValueRule.rule_mem_children hc) c.node c.depth
    obtain ⟨lines, hshown, -, hlater⟩ := explainedLater_each hcs (ValueRule.visits_of_evaluate hr depth h)
    refine ⟨lines, .joint hr hshown, ?_⟩
    cases r with
    | conditional premise value => cases hr
    | _ => exact hlater
  | false =>
    cases r with
    | conditional premise value =>
      obtain ⟨holds, u, hp, h⟩ := succeeds_bind.1 h
      obtain ⟨lines, hx, hpremise⟩ := premise.explained_later (depth + 1) hp
      cases holds with
      | true =>
        obtain ⟨more, hshown, hvalue⟩ := ih value (List.mem_singleton.2 rfl) (0 :: node) (depth + 1) h
        have hgrows : u.memory ≤ t.memory := (((durableReads market now).value (0 :: node) value).settled h).1
        refine ⟨lines ++ more, .held hx hshown, fun later hlater => ?_⟩
        rw [ValueRule.under, ValueRule.explainConditional]
        rw [PassM.runFrom_bind_of (hpremise later (Memory.le_trans hgrows hlater))]
        exact PassM.runFrom_bind_of (hvalue later hlater)
      | false =>
        obtain ⟨-, rfl⟩ := succeeds_pure.1 h
        refine ⟨lines ++ value.explainSkipped (depth + 1), .failed hx, fun later hlater => ?_⟩
        rw [ValueRule.under, ValueRule.explainConditional, PassM.runFrom_bind_of (hpremise later hlater)]
        rfl
    | negate _ | sum _ | product _ | modulus _ | multipleValues _ => cases hr
    | _ => exact ⟨[], .leaf rfl, fun later _ => rfl⟩

/-- Once a tree was evaluated, its explanation shows this evaluation at any later time, and asks nothing. -/
theorem ValueRule.explained_later (r : ValueRule) :
    ∀ node depth, ExplainedLater w (worldPass market now) node depth r := by
  -- over the children: each of them was evaluated before the end of the evaluation of its parent
  induction r using children_induction with
  | step r ih =>
    intro node depth s t v h
    obtain ⟨lines, hunder, hlines⟩ := explainedLater_under depth ih h
    -- the question is asked for by the evaluation as well, before all else
    have hboth := h
    rw [← r.refers_evaluate] at hboth
    obtain ⟨question, u, hq, hv⟩ := succeeds_bind.1 hboth
    have hvalue := ((durableReads market now).value node r).settled hv
    refine ⟨_, .node hq h hunder, fun later hlater => ?_⟩
    have hasked : (r.refers (worldPass market now)).runFrom later = pure (.ok question, later) :=
      ((durable_refers r).settled hq).2 later (Memory.le_trans hvalue.1 hlater)
    rw [explainIn_eq, PassM.runFrom_bind_of hasked, explainNode]
    rw [PassM.runFrom_bind_of (hvalue.2 later hlater), PassM.runFrom_bind_of (hlines later hlater)]
    rfl

end Later

/-- Without its lines the explanation of a value rule is its evaluation. -/
theorem ValueRule.snd_explainIn (market : Snapshot) (now : Instant) (r : ValueRule) (node : List Nat) (depth : Nat) :
    (·.2) <$> r.explainIn (worldPass market now) node depth = r.evaluate (worldPass market now) node := by
  -- what stands below the root changes nothing once the root was evaluated
  have hnode : ∀ question,
      (·.2) <$> explainNode (worldPass market now) r node depth question (r.under (worldPass market now) node depth) =
        r.evaluate (worldPass market now) node := by
    intro question
    refine ext_endsAt fun w s => ?_
    rw [explainNode, map_bind, endsAt_bind]
    rcases hends : (r.evaluate (worldPass market now) node).endsAt w s with ⟨result, t⟩
    cases result with
    | error halt => rfl
    | ok v =>
      obtain ⟨lines, -, hlines⟩ := explainedLater_under depth
        (fun c _ node depth => c.explained_later node depth) hends
      have hunder := endsAt_of_settled (w := w) (hlines t.memory (Memory.le_refl _))
      exact succeeds_map.2 ⟨_, rfl, succeeds_bind.2 ⟨lines, t, hunder, succeeds_pure.2 ⟨rfl, rfl⟩⟩⟩
  rw [explainIn_eq, map_bind]
  simp only [hnode]
  exact r.refers_evaluate (worldPass market now) node

namespace ValueRule

/-- Lines that the explanation of a tree came to show its evaluation between the same moments. -/
theorem shown_of_explained {market : Snapshot} {now : Instant} {r : ValueRule} {node : List Nat} {depth : Nat}
    {lines : List Line} (h : Succeeds w (r.explainIn (worldPass market now) node depth) s (lines, v) t) :
    Shown w (worldPass market now) node depth r s v t lines := by
  have hv : Succeeds w (r.evaluate (worldPass market now) node) s v t := by
    rw [← r.snd_explainIn market now node depth]
    exact succeeds_map.2 ⟨(lines, v), rfl, h⟩
  obtain ⟨shown, hshown, hlater⟩ := r.explained_later node depth hv
  have hagain := (((durableReads market now).explainedValue node depth r).settled h).2 t.memory (Memory.le_refl _)
  have hends : (.ok (lines, v), t) = ((.ok (shown, v), t) : Except Halt (List Line × Outcome) × Moment) := by
    rw [← endsAt_of_settled (w := w) hagain, endsAt_of_settled (hlater t.memory (Memory.le_refl _))]
  cases hends
  exact hshown

end ValueRule

end Arbiter
