import Arbiter.Proofs.Explanation.Annotated
import Arbiter.Proofs.Explanation.Value
import Mathlib.Algebra.GroupWithZero.Nat

/-!
# What the explanation of a value rule leaves out

A value rule that an evaluation did not reach is shown by its root, its steps and its children. The premise of a
conditional is no child, and the weights of a union are none either: these lines are left out. All other lines of the
abstract explanation are there.

* `ValueRule.omitted`: how many lines a tree that was not reached lacks. `ValueRule.explainSkipped_eq_iff`: it is shown
  in full exactly if there are none.
* `Skips`: the trees that an evaluation does not reach, by the evaluations of the nodes around them.
* `Accounts`: lines that stand for an abstract explanation, up to what some trees lack.
* `Shown.accounts`: the lines of an evaluated tree do so for the trees that its evaluation skipped.
* `ValueRule.explained_whole_iff`: the abstract explanation is there in full exactly if none of these lacks a line.
-/

namespace Arbiter

open PassM

/-! ## Lines without marks -/

/-- All lines are without marks. -/
def Plain (lines : List Line) : Prop := lines.map Line.bare = lines

section Plain

variable {lines more : List Line}

theorem plain_nil : Plain [] := rfl

theorem plain_line (depth : Nat) (text : String) : Plain [⟨depth, text, none, none⟩] := rfl

theorem Plain.append (h : Plain lines) (h' : Plain more) : Plain (lines ++ more) := by
  rw [Plain, List.map_append, h, h']

theorem plain_flatMap {α : Type} {f : α → List Line} {l : List α} (h : ∀ a ∈ l, Plain (f a)) : Plain (l.flatMap f) := by
  rw [Plain, List.map_flatMap]
  exact List.flatMap_congr h

end Plain

theorem Trigger.plain_explain (r : Trigger) (depth : Nat) : Plain (r.explain depth) := by
  have hbare : r.explain depth = (r.nodes []).map (bareLine depth) := r.explain_eq depth []
  rw [Plain, hbare, List.map_map]
  rfl

theorem Trigger.length_explain (r : Trigger) (depth : Nat) : (r.explain depth).length = (r.nodes []).length := by
  have hbare : r.explain depth = (r.nodes []).map (bareLine depth) := r.explain_eq depth []
  rw [hbare, List.length_map]

namespace ValueRule

theorem plain_steps (r : ValueRule) (depth : Nat) : Plain (r.steps depth) := by
  cases r with
  | fibonacci exclude leastShare =>
    refine Plain.append ?_ rfl
    split <;> rfl
  | _ => rfl

theorem plain_explain (r : ValueRule) : ∀ depth, Plain (r.explain depth) := by
  induction r using children_induction with
  | step r ih =>
    intro depth
    have hbelow : Plain (r.explainBelow (depth + 1)) := by
      cases r with
      | negate child => exact ih child (List.mem_singleton.2 rfl) (depth + 1)
      | sum children | product children | modulus children =>
        rw [explainBelow, explainEach_eq]
        exact plain_flatMap fun c hc => ih c hc (depth + 1)
      | multipleValues shares =>
        rw [explainBelow, explainShares_eq]
        refine plain_flatMap fun share hs => (plain_line _ _).append ?_
        exact ih share.2 (List.mem_map_of_mem hs) (depth + 1 + 1)
      | conditional premise value =>
        exact (premise.plain_explain (depth + 1)).append (ih value (List.mem_singleton.2 rfl) (depth + 1))
      | _ => exact plain_nil
    exact ((plain_line depth r.phrase).append (r.plain_steps (depth + 1))).append hbelow

theorem length_steps (r : ValueRule) (depth other : Nat) : (r.steps depth).length = (r.steps other).length := by
  cases r with
  | fibonacci exclude leastShare =>
    simp only [steps, List.length_append]
    split <;> rfl
  | _ => rfl

/-- The number of lines does not depend on the depth. -/
theorem length_explain (r : ValueRule) : ∀ depth other, (r.explain depth).length = (r.explain other).length := by
  induction r using children_induction with
  | step r ih =>
    intro depth other
    have hbelow : (r.explainBelow (depth + 1)).length = (r.explainBelow (other + 1)).length := by
      cases r with
      | negate child => exact ih child (List.mem_singleton.2 rfl) (depth + 1) (other + 1)
      | sum children | product children | modulus children =>
        simp only [explainBelow, explainEach_eq, List.length_flatMap]
        exact congrArg List.sum (List.map_congr_left fun c hc => ih c hc (depth + 1) (other + 1))
      | multipleValues shares =>
        simp only [explainBelow, explainShares_eq, List.length_flatMap, List.length_cons]
        refine congrArg List.sum (List.map_congr_left fun share hs => ?_)
        exact congrArg Nat.succ (ih share.2 (List.mem_map_of_mem hs) (depth + 1 + 1) (other + 1 + 1))
      | conditional premise value =>
        change (premise.explain (depth + 1) ++ value.explain (depth + 1)).length =
          (premise.explain (other + 1) ++ value.explain (other + 1)).length
        rw [List.length_append, List.length_append, premise.length_explain, premise.length_explain,
          ih value (List.mem_singleton.2 rfl) (depth + 1) (other + 1)]
      | _ => rfl
    rw [explain, explain, List.length_append, List.length_append, hbelow, head, head, List.length_cons,
      List.length_cons, r.length_steps (depth + 1) (other + 1)]

/-! ## Trees that were not reached -/

/-- How many lines the tree lacks where it is shown as not reached: those of a premise, or of the weights of a union. -/
def omitted : ValueRule → Nat
  | .conditional premise _ => (premise.nodes []).length
  | .multipleValues shares => shares.length
  | _ => 0

/-- The lines of a tree that was not reached, without the mark. -/
def unreached (depth : Nat) (r : ValueRule) : List Line :=
  r.head depth ++ r.children.flatMap fun child => child.explain (depth + 1)

theorem bare_explainSkipped (r : ValueRule) (depth : Nat) :
    (r.explainSkipped depth).map Line.bare = r.unreached depth := by
  have hplain : Plain (r.steps (depth + 1) ++ r.children.flatMap fun child => child.explain (depth + 1)) :=
    (r.plain_steps (depth + 1)).append (plain_flatMap fun c _ => c.plain_explain (depth + 1))
  rw [explainSkipped, List.map_cons, hplain]
  rfl

theorem length_explainSkipped (r : ValueRule) (depth : Nat) :
    (r.explainSkipped depth).length + r.omitted = (r.explain depth).length := by
  have hbelow : (r.children.flatMap fun child => child.explain (depth + 1)).length + r.omitted =
      (r.explainBelow (depth + 1)).length := by
    cases r with
    | sum children | product children | modulus children =>
      rw [explainBelow, explainEach_eq]
      rfl
    | negate child =>
      simp only [children, List.flatMap_singleton]
      rfl
    | multipleValues shares =>
      simp only [explainBelow, explainShares_eq, children, omitted]
      induction shares with
      | nil => rfl
      | cons share rest ih =>
        simp only [List.map_cons, List.flatMap_cons, List.length_append, List.length_cons]
        rw [share.2.length_explain (depth + 1) (depth + 1 + 1)]
        omega
    | conditional premise value =>
      change (List.flatMap _ [value]).length + _ = (premise.explain (depth + 1) ++ value.explain (depth + 1)).length
      rw [List.length_append, premise.length_explain, List.flatMap_singleton, omitted, Nat.add_comm]
    | _ => rfl
  have hsteps : (r.explainSkipped depth).length = (r.head depth).length +
      (r.children.flatMap fun child => child.explain (depth + 1)).length := by
    simp only [explainSkipped, head, List.length_cons, List.length_append]
    omega
  rw [explain, List.length_append, ← hbelow, hsteps, Nat.add_assoc]

/-- A tree that lacks no line is shown in full. -/
theorem unreached_of_whole {r : ValueRule} (h : r.omitted = 0) (depth : Nat) : r.unreached depth = r.explain depth := by
  refine congrArg (r.head depth ++ ·) ?_
  cases r with
  | sum children | product children | modulus children =>
    rw [explainBelow, explainEach_eq]
    rfl
  | negate child => exact List.flatMap_singleton _ _
  | multipleValues shares =>
    obtain rfl := List.eq_nil_of_length_eq_zero h
    rfl
  | conditional premise value =>
    rw [omitted, premise.nodes_eq] at h
    cases h
  | _ => rfl

end ValueRule

/-- Lines whose first one says that the rule was not evaluated. -/
def notReached : List Line → List Line
  | [] => []
  | l :: rest => { l with mark := some .notEvaluated } :: rest

theorem length_notReached (lines : List Line) : (notReached lines).length = lines.length := by
  cases lines <;> rfl

/-- A tree that was not reached is shown in full exactly if it lacks no line. -/
theorem ValueRule.explainSkipped_eq_iff (r : ValueRule) (depth : Nat) :
    r.explainSkipped depth = notReached (r.explain depth) ↔ r.omitted = 0 := by
  constructor
  · intro h
    have hlength := r.length_explainSkipped depth
    rw [h, length_notReached] at hlength
    omega
  · intro h
    rw [← unreached_of_whole h]
    rfl

/-! ## What an evaluation skips -/

mutual

/-- The trees that the evaluation of a tree does not reach, in their order, none of them inside another one: those after
a child that cancels, and the value behind a premise that fails. -/
inductive Skips (w : World) (p : Pass Course) :
    (node : List Nat) → ValueRule → Moment → Outcome → Moment → List ValueRule → Prop
  | leaf {node : List Nat} {r : ValueRule} {s t : Moment} {v : Outcome} (children : r.children = [])
      (value : Succeeds w (r.evaluate p node) s v t) : Skips w p node r s v t []
  | joint {node : List Nat} {depth : Nat} {r : ValueRule} {s t : Moment} {v : Outcome} {skipped : List ValueRule}
      (joins : r.isJoint = true) (value : Succeeds w (r.evaluate p node) s v t)
      (children : SkipsEach w p (r.placed node depth) s t skipped) : Skips w p node r s v t skipped
  | held {node : List Nat} {premise : Trigger} {value : ValueRule} {s u t : Moment} {v : Outcome}
      {skipped : List ValueRule} (holds : Succeeds w (premise.evaluate p) s true u)
      (child : Skips w p (0 :: node) value u v t skipped) : Skips w p node (.conditional premise value) s v t skipped
  | failed {node : List Nat} {premise : Trigger} {value : ValueRule} {s t : Moment}
      (fails : Succeeds w (premise.evaluate p) s false t) :
      Skips w p node (.conditional premise value) s .cancel t [value]

/-- The same for children evaluated one after another up to the first that cancels. -/
inductive SkipsEach (w : World) (p : Pass Course) : List Placed → Moment → Moment → List ValueRule → Prop
  | done {s : Moment} : SkipsEach w p [] s s []
  | cancels {c : Placed} {rest : List Placed} {s t : Moment} {skipped : List ValueRule}
      (first : Skips w p c.node c.rule s .cancel t skipped) :
      SkipsEach w p (c :: rest) s t (skipped ++ rest.map Placed.rule)
  | next {c : Placed} {rest : List Placed} {s u t : Moment} {v : Outcome} {skipped more : List ValueRule}
      (first : Skips w p c.node c.rule s v u skipped) (goes : v ≠ .cancel) (others : SkipsEach w p rest u t more) :
      SkipsEach w p (c :: rest) s t (skipped ++ more)

end

/-- Lines that stand for an abstract explanation: they lack as many lines as some trees do, and if these lack none then
all are there. -/
structure Accounts (lines explained : List Line) (skipped : List ValueRule) : Prop where
  length : lines.length + (skipped.map ValueRule.omitted).sum = explained.length
  whole : (∀ c ∈ skipped, c.omitted = 0) → lines.map Line.bare = explained

namespace Accounts

variable {lines more explained rest : List Line} {skipped others : List ValueRule}

/-- Lines that are all there. -/
theorem of_bare (h : lines.map Line.bare = explained) : Accounts lines explained [] where
  length := by simp [← h]
  whole _ := h

theorem append (h : Accounts lines explained skipped) (h' : Accounts more rest others) :
    Accounts (lines ++ more) (explained ++ rest) (skipped ++ others) where
  length := by
    have hfirst := h.length
    have hsecond := h'.length
    rw [List.length_append, List.length_append, List.map_append, List.sum_append]
    omega
  whole hall := by
    obtain ⟨hfirst, hsecond⟩ := List.forall_mem_append.1 hall
    rw [List.map_append, h.whole hfirst, h'.whole hsecond]

/-- A root with its steps, however it is marked. -/
theorem root (r : ValueRule) (depth : Nat) (question : Option String) (mark : Option Mark) :
    Accounts (⟨depth, r.phrase, question, mark⟩ :: r.steps (depth + 1)) (r.head depth) [] :=
  .of_bare (by rw [List.map_cons, r.plain_steps (depth + 1)]; rfl)

/-- A tree that was not reached. -/
theorem of_skipped (r : ValueRule) (depth : Nat) : Accounts (r.explainSkipped depth) (r.explain depth) [r] where
  length := by simpa using r.length_explainSkipped depth
  whole hall := by
    rw [r.bare_explainSkipped, ValueRule.unreached_of_whole (hall r (List.mem_singleton.2 rfl))]

/-- The abstract explanation is there, line by line, exactly if no tree lacks a line. -/
theorem sublist_iff (h : Accounts lines explained skipped) :
    explained.Sublist (lines.map Line.bare) ↔ ∀ c ∈ skipped, c.omitted = 0 := by
  constructor
  · intro hsub
    have hle := hsub.length_le
    have hlength := h.length
    rw [List.length_map] at hle
    have hzero : (skipped.map ValueRule.omitted).sum = 0 := by omega
    exact fun c hc => List.sum_eq_zero_iff_forall_eq_nat.1 hzero c.omitted (List.mem_map_of_mem hc)
  · intro hall
    rw [h.whole hall]

end Accounts

/-- What stands in the explanation for a child of a joint. -/
def Placed.explain (c : Placed) : List Line := c.above ++ c.rule.explain c.depth

namespace ValueRule

theorem placedEach_explain (node : List Nat) (depth : Nat) (rs : List ValueRule) :
    ∀ i, (placedEach node depth i rs).flatMap Placed.explain = rs.flatMap (explain depth) := by
  induction rs with
  | nil => exact fun _ => rfl
  | cons r rest ih =>
    intro i
    rw [placedEach, List.flatMap_cons, List.flatMap_cons, ih (i + 1)]
    rfl

theorem placedShares_explain (node : List Nat) (depth : Nat) (shares : List (Float × ValueRule)) :
    ∀ i, (placedShares node depth i shares).flatMap Placed.explain = explainShares depth shares := by
  induction shares with
  | nil => exact fun _ => rfl
  | cons share rest ih =>
    intro i
    rw [placedShares, List.flatMap_cons, ih (i + 1), explainShares]
    rfl

/-- What stands below a joint is what stands for its children. -/
theorem explainBelow_joint {r : ValueRule} (hr : r.isJoint = true) (node : List Nat) (depth : Nat) :
    r.explainBelow (depth + 1) = (r.placed node depth).flatMap Placed.explain := by
  cases r with
  | negate child => exact (List.append_nil _).symm
  | sum children | product children | modulus children =>
    rw [explainBelow, explainEach_eq, placed, placedEach_explain]
  | multipleValues shares => rw [explainBelow, placed, placedShares_explain]
  | _ => cases hr

theorem explainBelow_leaf {r : ValueRule} (hr : r.children = []) (depth : Nat) : r.explainBelow depth = [] := by
  cases r with
  | sum children | product children | modulus children =>
    obtain rfl : children = [] := hr
    rfl
  | multipleValues shares =>
    obtain rfl : shares = [] := List.map_eq_nil_iff.1 hr
    rfl
  | negate child | conditional premise value => cases hr
  | _ => rfl

theorem plain_above {node : List Nat} {depth : Nat} {r : ValueRule} : ∀ c ∈ r.placed node depth, Plain c.above := by
  intro c hc
  cases r with
  | negate child =>
    cases List.mem_singleton.1 hc
    exact plain_nil
  | sum children | product children | modulus children =>
    rw [(mem_placedEach hc).1]
    exact plain_nil
  | multipleValues shares =>
    obtain ⟨weight, habove, -⟩ := mem_placedShares hc
    rw [habove]
    exact plain_line _ _
  | _ => cases hc

end ValueRule

/-- Children that were not reached. -/
theorem accounts_skipped {cs : List Placed} (habove : ∀ c ∈ cs, Plain c.above) :
    Accounts (cs.flatMap Placed.skipped) (cs.flatMap Placed.explain) (cs.map Placed.rule) := by
  induction cs with
  | nil => exact .of_bare rfl
  | cons c rest ih =>
    obtain ⟨hc, hrest⟩ := List.forall_mem_cons.1 habove
    have hfirst := (Accounts.of_bare hc).append (.of_skipped c.rule c.depth)
    exact hfirst.append (ih hrest)

section Accounted

variable {w : World} {market : Snapshot} {now : Instant}

/-- A conditional comes to its value if its premise holds, and is cancelled otherwise. -/
theorem conditional_after {p : Pass Course} {node : List Nat} {premise : Trigger} {value : ValueRule} {s t u : Moment}
    {holds : Bool} {v : Outcome} (hp : Succeeds w (premise.evaluate p) s holds u)
    (h : Succeeds w ((ValueRule.conditional premise value).evaluate p node) s v t) :
    Succeeds w (if holds then value.evaluate p (0 :: node) else pure .cancel) u v t := by
  obtain ⟨holds', u', hp', h⟩ := succeeds_bind.1 h
  obtain ⟨rfl, rfl⟩ := succeeds_unique hp hp'
  exact h

theorem Shown.evaluates {p : Pass Course} {node : List Nat} {depth : Nat} {r : ValueRule} {s t : Moment} {v : Outcome}
    {lines : List Line} (h : Shown w p node depth r s v t lines) : Succeeds w (r.evaluate p node) s v t := by
  cases h with
  | node _ value _ => exact value

mutual

/-- The lines of an evaluated tree stand for its abstract explanation, up to what the trees that the evaluation skipped
lack. -/
theorem Shown.accounts {node : List Nat} {depth : Nat} {r : ValueRule} {s t : Moment} {v : Outcome}
    {lines : List Line} :
    Shown w (worldPass market now) node depth r s v t lines →
      ∃ skipped, Skips w (worldPass market now) node r s v t skipped ∧ Accounts lines (r.explain depth) skipped
  | .node _ value under => by
    obtain ⟨skipped, hskips, haccounts⟩ := under.accounts value
    exact ⟨skipped, hskips, (Accounts.root r depth _ _).append haccounts⟩

theorem ShownUnder.accounts {node : List Nat} {depth : Nat} {r : ValueRule} {s t : Moment} {v : Outcome}
    {lines : List Line} (value : Succeeds w (r.evaluate (worldPass market now) node) s v t) :
    ShownUnder w (worldPass market now) node depth r s t lines →
      ∃ skipped, Skips w (worldPass market now) node r s v t skipped ∧
        Accounts lines (r.explainBelow (depth + 1)) skipped
  | .leaf children => ⟨[], .leaf children value, .of_bare (ValueRule.explainBelow_leaf children _).symm⟩
  | .joint joins children => by
    obtain ⟨skipped, hskips, haccounts⟩ := children.accounts ValueRule.plain_above
    exact ⟨skipped, .joint joins value hskips, ValueRule.explainBelow_joint joins node depth ▸ haccounts⟩
  | .held holds child => by
    have hpremise := Trigger.evaluated_of_explained holds
    obtain ⟨skipped, hskips, haccounts⟩ := child.accounts
    obtain ⟨rfl, -⟩ := succeeds_unique child.evaluates (conditional_after hpremise value)
    exact ⟨skipped, .held hpremise hskips, (Accounts.of_bare (Trigger.bare_of_explained holds)).append haccounts⟩
  | .failed fails => by
    have hpremise := Trigger.evaluated_of_explained fails
    obtain ⟨rfl, -⟩ := succeeds_pure.1 (conditional_after hpremise value)
    exact ⟨_, .failed hpremise, (Accounts.of_bare (Trigger.bare_of_explained fails)).append (.of_skipped _ _)⟩

theorem ShownEach.accounts {cs : List Placed} {s t : Moment} {lines : List Line} (habove : ∀ c ∈ cs, Plain c.above) :
    ShownEach w (worldPass market now) cs s t lines →
      ∃ skipped, SkipsEach w (worldPass market now) cs s t skipped ∧
        Accounts lines (cs.flatMap Placed.explain) skipped
  | .done => ⟨[], .done, .of_bare rfl⟩
  | .cancels first => by
    obtain ⟨hc, hrest⟩ := List.forall_mem_cons.1 habove
    obtain ⟨skipped, hskips, haccounts⟩ := first.accounts
    exact ⟨_, .cancels hskips, ((Accounts.of_bare hc).append haccounts).append (accounts_skipped hrest)⟩
  | .next first goes others => by
    obtain ⟨hc, hrest⟩ := List.forall_mem_cons.1 habove
    obtain ⟨skipped, hskips, haccounts⟩ := first.accounts
    obtain ⟨more, hmore, hothers⟩ := others.accounts hrest
    exact ⟨_, .next hskips goes hmore, ((Accounts.of_bare hc).append haccounts).append hothers⟩

end

end Accounted

namespace ValueRule

/-- Value rules that an evaluation did not reach are shown up to some lines. Such a tree is shown as its abstract
explanation with its first line marked, exactly if it lacks none: neither a premise nor the weight of a share. Where the
explanation of a value rule in a pass succeeds, it has as many lines less than the abstract one as the trees lack that
the evaluation did not reach, and the lines of the abstract one are all there, in the same order and at the same depth,
exactly if these trees lack none. Then both have the same lines up to the annotations, which stand at the end. -/
theorem explained_whole_iff (market : Snapshot) (now : Instant) (r : ValueRule) (node : List Nat) (depth : Nat)
    (memory : Memory) (w : World) (past : List Call) (store : Store) :
    let p := worldPass market now
    let explained := ((r.explainIn p node depth).runFrom memory).upshot w past store
    (∀ (c : ValueRule) (depth : Nat), (c.explainSkipped depth).length + c.omitted = (c.explain depth).length ∧
      (c.explainSkipped depth = notReached (c.explain depth) ↔ c.omitted = 0)) ∧
    ∀ lines v, explained.result.1 = .ok (lines, v) → ∃ skipped,
      Skips w p node r ⟨past, memory, store⟩ v ⟨past ++ explained.calls, explained.result.2, explained.store⟩ skipped ∧
      lines.length + (skipped.map omitted).sum = (r.explain depth).length ∧
      ((r.explain depth).Sublist (lines.map Line.bare) ↔ ∀ c ∈ skipped, c.omitted = 0) ∧
      ((∀ c ∈ skipped, c.omitted = 0) → lines.map Line.bare = r.explain depth) ∧
      ∀ l ∈ lines, ∃ start, l.bare.render = start ++ "\n" ∧ l.render = start ++ l.suffix ++ "\n" := by
  intro p explained
  refine ⟨fun c depth => ⟨c.length_explainSkipped depth, c.explainSkipped_eq_iff depth⟩, fun lines v hv => ?_⟩
  have hexplained : Succeeds w (r.explainIn p node depth) ⟨past, memory, store⟩ (lines, v)
      ⟨past ++ explained.calls, explained.result.2, explained.store⟩ := Prod.ext hv rfl
  obtain ⟨skipped, hskips, haccounts⟩ := (shown_of_explained hexplained).accounts
  exact ⟨skipped, hskips, haccounts.length, haccounts.sublist_iff, haccounts.whole, fun l _ => l.render_annotated⟩

/-- Of a sum that is cancelled before a negation all is shown. -/
theorem skippedNegation_whole :
    let now : Instant := ⟨1709298000, 0⟩
    let p := worldPass ⟨"m", "u", "M?", .binary, none, none, false, [], none, false⟩ now
    let c := ValueRule.negate .currentValue
    let r := ValueRule.sum [.constant .cancel, c]
    let explained := ((r.explainIn p [0] 0).runFrom .empty).upshot (World.still now) [] .empty
    let lines : List Line :=
      [⟨0, r.phrase, none, some (.value "CANCEL")⟩, ⟨1, (constant .cancel).phrase, none, some (.value "CANCEL")⟩,
        ⟨1, c.phrase, none, some .notEvaluated⟩, ⟨2, phrase .currentValue, none, none⟩]
    explained.result.1 = .ok (lines, .cancel) ∧ c.explainSkipped 1 = notReached (c.explain 1) ∧
      lines.map Line.bare = r.explain 0 := by
  intro now p c r explained lines
  obtain ⟨hskipped, hexplained⟩ := explained_whole_iff p.market now r [0] 0 .empty (World.still now) [] .empty
  obtain ⟨skipped, -, hlength, -, hwhole, -⟩ := hexplained lines .cancel rfl
  have hsum : lines.length + (skipped.map omitted).sum = lines.length := hlength
  have hnone : ∀ c ∈ skipped, c.omitted = 0 := fun c hc =>
    List.sum_eq_zero_iff_forall_eq_nat.1 (Nat.left_eq_add.1 hsum.symm) c.omitted (List.mem_map_of_mem hc)
  exact ⟨rfl, (hskipped c 1).2.2 rfl, hwhole hnone⟩

/-- Of a sum that is cancelled before a conditional the premise of the conditional is not shown. -/
theorem skippedPremise_missing :
    let now : Instant := ⟨1709298000, 0⟩
    let p := worldPass ⟨"m", "u", "M?", .binary, none, none, false, [], none, false⟩ now
    let premise := Trigger.thisMarketClosed none
    let c := ValueRule.conditional premise .currentValue
    let r := ValueRule.sum [.constant .cancel, c]
    let explained := ((r.explainIn p [0] 0).runFrom .empty).upshot (World.still now) [] .empty
    c.explainSkipped 1 ≠ notReached (c.explain 1) ∧
    ∃ lines, explained.result.1 = .ok (lines, .cancel) ∧ ⟨2, premise.phrase, none, none⟩ ∈ r.explain 0 ∧
      ⟨2, premise.phrase, none, none⟩ ∉ lines.map Line.bare ∧ ¬ (r.explain 0).Sublist (lines.map Line.bare) := by
  intro now p premise c r explained
  let lines : List Line :=
    [⟨0, r.phrase, none, some (.value "CANCEL")⟩, ⟨1, (constant .cancel).phrase, none, some (.value "CANCEL")⟩,
      ⟨1, c.phrase, none, some .notEvaluated⟩, ⟨2, phrase .currentValue, none, none⟩]
  have hmem : ⟨2, premise.phrase, none, none⟩ ∈ r.explain 0 := by decide
  have hmissing : ⟨2, premise.phrase, none, none⟩ ∉ lines.map Line.bare := by decide
  have hskipped : c.explainSkipped 1 ≠ notReached (c.explain 1) := fun h => nomatch (c.explainSkipped_eq_iff 1).1 h
  exact ⟨hskipped, lines, rfl, hmem, hmissing, fun hsub => hmissing (hsub.subset hmem)⟩

end ValueRule

end Arbiter
