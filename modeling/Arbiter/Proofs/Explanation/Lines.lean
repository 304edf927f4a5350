import Arbiter.Explanation.Abstract
import Arbiter.Proofs.Rule.Children

/-!
# Lines of a tree

The lines of a tree begin with its root, and all others stand deeper. Of a tree that an evaluation did not reach the root
says so, and nothing that stands below the root is marked at all.

* `Headed`: lines that begin with a marked root. `roots`: what the lines of whole trees say of their roots.
* `Skipped`: the lines of a tree that was not reached. `Trigger.skipped_explainSkipped`,
  `ValueRule.skipped_explainSkipped`.
-/

namespace Arbiter

/-- All lines stand at a depth or deeper. -/
def Deep (depth : Nat) (lines : List Line) : Prop := ∀ l ∈ lines, depth ≤ l.depth

/-- All lines stand at a depth or deeper, and none of them is marked. -/
def Bare (depth : Nat) (lines : List Line) : Prop := ∀ l ∈ lines, depth ≤ l.depth ∧ l.mark = none

/-- The first line says what became of a rule, and the others stand deeper. -/
def Headed (depth : Nat) (phrase : String) (mark : Mark) (lines : List Line) : Prop :=
  ∃ question more, lines = ⟨depth, phrase, question, some mark⟩ :: more ∧ Deep (depth + 1) more

/-- The first line says that a rule was not evaluated, and the others stand deeper and are not marked. -/
def Skipped (depth : Nat) (phrase : String) (lines : List Line) : Prop :=
  ∃ more, lines = ⟨depth, phrase, none, some .notEvaluated⟩ :: more ∧ Bare (depth + 1) more

/-- A line is shown as it is without its marks, with these at the end. -/
theorem Line.render_annotated (l : Line) :
    ∃ start, l.bare.render = start ++ "\n" ∧ l.render = start ++ l.suffix ++ "\n" :=
  ⟨indentation l.depth ++ "- " ++ l.text, by simp [render, bare, suffix], rfl⟩

section Depths

variable {depth deeper : Nat} {lines more : List Line}

theorem deep_nil : Deep depth [] := nofun

theorem Deep.append (h : Deep depth lines) (h' : Deep depth more) : Deep depth (lines ++ more) :=
  List.forall_mem_append.2 ⟨h, h'⟩

theorem Deep.mono (h : Deep deeper lines) (hd : depth ≤ deeper) : Deep depth lines := fun l hl => Nat.le_trans hd (h l hl)

theorem Bare.append (h : Bare depth lines) (h' : Bare depth more) : Bare depth (lines ++ more) :=
  List.forall_mem_append.2 ⟨h, h'⟩

theorem Bare.mono (h : Bare deeper lines) (hd : depth ≤ deeper) : Bare depth lines := fun l hl =>
  ⟨Nat.le_trans hd (h l hl).1, (h l hl).2⟩

theorem Bare.deep (h : Bare depth lines) : Deep depth lines := fun l hl => (h l hl).1

theorem Headed.deep {phrase : String} {mark : Mark} (h : Headed depth phrase mark lines) : Deep depth lines := by
  obtain ⟨question, more, rfl, hmore⟩ := h
  exact List.forall_mem_cons.2 ⟨Nat.le_refl depth, hmore.mono (Nat.le_succ depth)⟩

theorem Skipped.headed {phrase : String} (h : Skipped depth phrase lines) : Headed depth phrase .notEvaluated lines := by
  obtain ⟨more, rfl, hmore⟩ := h
  exact ⟨none, more, rfl, hmore.deep⟩

end Depths

/-! ## Roots -/

/-- What the lines at no depth say, and how they are marked. -/
def roots (lines : List Line) : List (String × Option Mark) :=
  (lines.filter fun l => l.depth = 0).map fun l => (l.text, l.mark)

theorem roots_append (lines more : List Line) : roots (lines ++ more) = roots lines ++ roots more := by
  simp [roots]

theorem Headed.roots {phrase : String} {mark : Mark} {lines : List Line} (h : Headed 0 phrase mark lines) :
    roots lines = [(phrase, some mark)] := by
  obtain ⟨question, more, rfl, hmore⟩ := h
  have hnone : more.filter (fun l => l.depth = 0) = [] := by
    refine List.filter_eq_nil_iff.2 fun l hl => ?_
    have hdeep := hmore l hl
    simp only [decide_eq_true_eq]
    omega
  simp [Arbiter.roots, hnone]

/-! ## Trees that were not reached -/

namespace Trigger

theorem explainEach_eq (depth : Nat) (rs : List Trigger) : explainEach depth rs = rs.flatMap (explain depth) := by
  induction rs with
  | nil => rfl
  | cons r rest ih =>
    rw [explainEach, ih, List.flatMap_cons]
    rfl

theorem explainBelow_eq (depth : Nat) (r : Trigger) : r.explainBelow depth = r.children.flatMap (explain depth) := by
  cases r with
  | all _ | any _ | xor _ | xnor _ => exact explainEach_eq depth _
  | _ => simp [explainBelow, children, explain]

theorem bare_explain (r : Trigger) : ∀ depth, Bare depth (r.explain depth) := by
  induction r using children_induction with
  | step r ih =>
    intro depth
    have hbelow : Bare (depth + 1) (r.explainBelow (depth + 1)) := by
      rw [explainBelow_eq]
      exact List.forall_mem_flatMap.2 fun c hc => ih c hc (depth + 1)
    exact List.forall_mem_cons.2 ⟨⟨Nat.le_refl depth, rfl⟩, hbelow.mono (Nat.le_succ depth)⟩

/-- A trigger that was not reached is shown as such. -/
theorem skipped_explainSkipped (r : Trigger) (depth : Nat) : Skipped depth r.phrase (r.explainSkipped depth) := by
  refine ⟨_, rfl, ?_⟩
  rw [explainBelow_eq]
  exact List.forall_mem_flatMap.2 fun c _ => c.bare_explain (depth + 1)

end Trigger

namespace ValueRule

theorem explainEach_eq (depth : Nat) (rs : List ValueRule) : explainEach depth rs = rs.flatMap (explain depth) := by
  induction rs with
  | nil => rfl
  | cons r rest ih =>
    rw [explainEach, ih, List.flatMap_cons]
    rfl

theorem explainShares_eq (depth : Nat) (shares : List (Float × ValueRule)) :
    explainShares depth shares = shares.flatMap fun share => shareLine depth share.1 :: share.2.explain (depth + 1) := by
  induction shares with
  | nil => rfl
  | cons share rest ih =>
    rw [explainShares, ih, List.flatMap_cons]
    rfl

theorem bare_steps (r : ValueRule) (depth : Nat) : Bare depth (r.steps depth) := by
  cases r with
  | fibonacci exclude leastShare =>
    refine Bare.append ?_ (by simp [Bare])
    split <;> simp [Bare]
  | amplifiedOdds url a seed => simp [steps, Bare]
  | _ => nofun

theorem bare_explain (r : ValueRule) : ∀ depth, Bare depth (r.explain depth) := by
  induction r using children_induction with
  | step r ih =>
    intro depth
    have hbelow : Bare (depth + 1) (r.explainBelow (depth + 1)) := by
      cases r with
      | negate child => exact ih child (List.mem_singleton.2 rfl) (depth + 1)
      | sum children | product children | modulus children =>
        rw [explainBelow, explainEach_eq]
        exact List.forall_mem_flatMap.2 fun c hc => ih c hc (depth + 1)
      | multipleValues shares =>
        rw [explainBelow, explainShares_eq]
        refine List.forall_mem_flatMap.2 fun share hs => List.forall_mem_cons.2 ⟨⟨Nat.le_refl _, rfl⟩, ?_⟩
        exact (ih share.2 (List.mem_map_of_mem hs) (depth + 1 + 1)).mono (Nat.le_succ _)
      | conditional premise value =>
        exact (premise.bare_explain (depth + 1)).append (ih value (List.mem_singleton.2 rfl) (depth + 1))
      | _ => nofun
    have hrest : Bare (depth + 1) (r.steps (depth + 1) ++ r.explainBelow (depth + 1)) :=
      (r.bare_steps (depth + 1)).append hbelow
    exact List.forall_mem_cons.2 ⟨⟨Nat.le_refl depth, rfl⟩, hrest.mono (Nat.le_succ depth)⟩

/-- A value rule that was not reached is shown as such. -/
theorem skipped_explainSkipped (r : ValueRule) (depth : Nat) : Skipped depth r.phrase (r.explainSkipped depth) :=
  ⟨_, rfl, (r.bare_steps (depth + 1)).append (List.forall_mem_flatMap.2 fun c _ => c.bare_explain (depth + 1))⟩

end ValueRule

end Arbiter
