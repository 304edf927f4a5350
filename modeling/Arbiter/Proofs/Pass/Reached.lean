import Arbiter.Proofs.Explanation.Trigger
import Arbiter.Proofs.Pass.Moment
import Arbiter.Proofs.Rule.Drawing
import Mathlib.Data.List.Forall2

/-!
# The nodes that an evaluation reaches

The evaluation of a trigger goes through some of the nodes of its tree. A record of these, kept while it runs, changes
nothing about the run.

* `Trigger.nodes`: the nodes of a tree with their places, each before those below it.
* `Trigger.trace`: the evaluation, with a record of the nodes that it reached and what they came to.
* `Erases`: work that without its record is some other work. `Trigger.erases_trace`: without its record the evaluation
  is the evaluation.
* `Records`: what work adds to the record, with one rule for each way of putting work together.
-/

namespace Arbiter

/-! ## Nodes -/

namespace Trigger

mutual

/-- The nodes of a tree, each before those below it, with their places: the paths to them. -/
def nodes (place : List Nat) : Trigger → List (List Nat × Trigger)
  | r@(.not child) => (place, r) :: child.nodes (0 :: place)
  | r@(.all children) | r@(.any children) | r@(.xor children) | r@(.xnor children) =>
    (place, r) :: nodesEach place 0 children
  | r@(.both first second) | r@(.either first second) | r@(.nand first second) | r@(.neither first second)
  | r@(.implies first second) => (place, r) :: (first.nodes (0 :: place) ++ second.nodes (1 :: place))
  | leaf => [(place, leaf)]

/-- The nodes of several children from the one at `i` on. -/
def nodesEach (place : List Nat) (i : Nat) : List Trigger → List (List Nat × Trigger)
  | [] => []
  | r :: rest => r.nodes (i :: place) ++ nodesEach place (i + 1) rest

end

theorem nodes_eq (r : Trigger) (place : List Nat) : r.nodes place = (place, r) :: nodesEach place 0 r.children := by
  cases r <;> simp [nodes, nodesEach, children]

/-- The nodes of children lie below different places. -/
theorem mem_nodesEach {place : List Nat} {n : List Nat × Trigger} {rs : List Trigger} :
    ∀ {i : Nat}, n ∈ nodesEach place i rs → ∃ j, i ≤ j ∧ ∃ r ∈ rs, n ∈ r.nodes (j :: place) := by
  induction rs with
  | nil => simp [nodesEach]
  | cons r rest ih =>
    intro i h
    rw [nodesEach, List.mem_append] at h
    rcases h with h | h
    · exact ⟨i, Nat.le_refl i, r, List.mem_cons_self, h⟩
    · obtain ⟨j, hij, c, hc, hj⟩ := ih h
      exact ⟨j, Nat.le_of_succ_le hij, c, List.mem_cons_of_mem r hc, hj⟩

/-- All nodes lie at the root or below it. -/
theorem suffix_of_mem_nodes {n : List Nat × Trigger} (r : Trigger) :
    ∀ place : List Nat, n ∈ r.nodes place → place <:+ n.1 := by
  induction r using children_induction with
  | step r ih =>
    intro place h
    rw [nodes_eq, List.mem_cons] at h
    rcases h with rfl | h
    · exact List.suffix_rfl
    · obtain ⟨j, -, c, hc, hj⟩ := mem_nodesEach h
      exact (List.suffix_cons j place).trans (ih c hc (j :: place) hj)

theorem nodup_nodesEach (place : List Nat) {rs : List Trigger}
    (h : ∀ r ∈ rs, ∀ place : List Nat, ((r.nodes place).map (·.1)).Nodup) :
    ∀ i : Nat, ((nodesEach place i rs).map (·.1)).Nodup := by
  induction rs with
  | nil => simp [nodesEach]
  | cons r rest ih =>
    intro i
    rw [nodesEach, List.map_append]
    have hrest : ((nodesEach place (i + 1) rest).map (·.1)).Nodup :=
      ih (fun c hc => h c (List.mem_cons_of_mem r hc)) (i + 1)
    refine List.nodup_append.2 ⟨h r List.mem_cons_self (i :: place), hrest, ?_⟩
    intro q hq q' hq' heq
    obtain ⟨n, hn, rfl⟩ := List.mem_map.1 hq
    obtain ⟨n', hn', rfl⟩ := List.mem_map.1 hq'
    obtain ⟨j, hij, c, -, hj⟩ := mem_nodesEach hn'
    have hsame : i = j := ValueRule.eq_of_suffix (suffix_of_mem_nodes r _ hn) (heq ▸ suffix_of_mem_nodes c _ hj)
    omega

/-- No two nodes have the same place. -/
theorem nodup_nodes (r : Trigger) : ∀ place : List Nat, ((r.nodes place).map (·.1)).Nodup := by
  induction r using children_induction with
  | step r ih =>
    intro place
    rw [nodes_eq, List.map_cons]
    refine List.nodup_cons.2 ⟨fun hplace => ?_, nodup_nodesEach place ih 0⟩
    obtain ⟨n, hn, heq⟩ := List.mem_map.1 hplace
    obtain ⟨j, -, c, -, hj⟩ := mem_nodesEach hn
    have hdeep : (j :: place) <:+ n.1 := suffix_of_mem_nodes c _ hj
    rw [heq] at hdeep
    exact Nat.not_succ_le_self place.length hdeep.length_le

end Trigger

/-! ## Records -/

/-- A node that an evaluation reached: its place and what it came to. -/
structure Reached where
  place : List Nat
  result : Except Halt Bool

/-- Work of a pass that keeps a record. -/
abbrev TraceM (m : Type → Type) := PassM (StateT (List Reached) m)

section Trace

variable {m : Type → Type} [Monad m] {α β : Type}

/-- Work that leaves the record as it is. -/
def unrecorded (work : PassM m α) : TraceM m α := fun memory reached => do
  let ends ← work.runFrom memory
  pure (ends, reached)

/-- The work of a node, recorded when it ends together with its result. -/
def recorded (place : List Nat) (work : TraceM m Bool) : TraceM m Bool := fun memory reached => do
  let ((result, memory), reached) ← work.runFrom memory reached
  pure ((result, memory), reached ++ [⟨place, result⟩])

namespace Trigger

mutual

/-- The evaluation of a trigger that records the nodes it reaches. -/
def trace (p : Pass m) (place : List Nat) : Trigger → TraceM m Bool
  | r@(.not child) => recorded place (r.connect [child.trace p (0 :: place)])
  | r@(.all children) | r@(.any children) | r@(.xor children) | r@(.xnor children) =>
    recorded place (r.connect (traceEach p place 0 children))
  | r@(.both first second) | r@(.either first second) | r@(.nand first second) | r@(.neither first second)
  | r@(.implies first second) => recorded place (r.connect [first.trace p (0 :: place), second.trace p (1 :: place)])
  | leaf => recorded place (unrecorded (leaf.evaluate p))

/-- The recorded evaluations of several children from the one at `i` on, none of them begun. -/
def traceEach (p : Pass m) (place : List Nat) (i : Nat) : List Trigger → List (TraceM m Bool)
  | [] => []
  | r :: rest => r.trace p (i :: place) :: traceEach p place (i + 1) rest

end

theorem trace_joint (p : Pass m) {r : Trigger} (hr : r.isJoint = true) (place : List Nat) :
    r.trace p place = recorded place (r.connect (traceEach p place 0 r.children)) := by
  cases r with
  | atTime _ | thisMarketClosed _ | pullFinished _ | otherMarketClosed _ | otherMarketResolved _ => cases hr
  | _ => simp only [trace, traceEach, children]

theorem trace_leaf (p : Pass m) {r : Trigger} (hr : r.isJoint = false) (place : List Nat) :
    r.trace p place = recorded place (unrecorded (r.evaluate p)) := by
  cases r with
  | atTime _ | thisMarketClosed _ | pullFinished _ | otherMarketClosed _ | otherMarketResolved _ => simp only [trace]
  | _ => cases hr

theorem length_traceEach (p : Pass m) (place : List Nat) (rs : List Trigger) :
    ∀ i, (traceEach p place i rs).length = rs.length := by
  induction rs with
  | nil => exact fun _ => rfl
  | cons r rest ih => exact fun i => congrArg Nat.succ (ih (i + 1))

end Trigger

/-! ## Without the record -/

/-- Without its record the one work is the other one. -/
def Erases (traced : TraceM m α) (work : PassM m α) : Prop :=
  ∀ memory reached, (·.1) <$> traced.runFrom memory reached = work.runFrom memory

variable [LawfulMonad m] {traced : TraceM m α} {work : PassM m α}

theorem erases_pure (a : α) : Erases (pure a : TraceM m α) (pure a) := fun memory reached =>
  map_pure _ ((Except.ok a, memory), reached)

theorem Erases.bind {f : α → TraceM m β} {g : α → PassM m β} (h : Erases traced work) (hf : ∀ a, Erases (f a) (g a)) :
    Erases (traced >>= f) (work >>= g) := by
  intro memory reached
  rw [PassM.runFrom_bind_state, map_bind, PassM.runFrom_bind, ← h memory reached, bind_map_left]
  refine congrArg (traced.runFrom memory reached >>= ·) (funext fun ((result, memory), reached) => ?_)
  cases result with
  | ok a => exact hf a memory reached
  | error halt => exact map_pure _ _

theorem Erases.map (h : Erases traced work) (f : α → β) : Erases (f <$> traced) (f <$> work) := by
  rw [map_eq_pure_bind, map_eq_pure_bind]
  exact h.bind fun a => erases_pure (f a)

theorem erases_unrecorded (work : PassM m α) : Erases (unrecorded work) work := fun memory reached => by
  change (·.1) <$> (work.runFrom memory >>= fun ends => pure (ends, reached)) = work.runFrom memory
  simp

theorem Erases.recorded {traced : TraceM m Bool} {work : PassM m Bool} (h : Erases traced work) (place : List Nat) :
    Erases (recorded place traced) work := fun memory reached => by
  rw [← h memory reached]
  change (·.1) <$> (traced.runFrom memory reached >>= fun ends =>
    pure ((ends.1.1, ends.1.2), ends.2 ++ [⟨place, ends.1.1⟩])) = _
  simp

theorem erases_gather (settled : List Bool → Bool) {traceds : List (TraceM m Bool)} {works : List (PassM m Bool)}
    (h : List.Forall₂ Erases traceds works) :
    ∀ seen, Erases (gather settled seen traceds) (gather settled seen works) := by
  induction h with
  | nil => exact fun seen => erases_pure seen
  | cons hfirst _ ih =>
    intro seen
    refine hfirst.bind fun value => ?_
    split
    · exact erases_pure _
    · exact ih (seen ++ [value])

namespace Trigger

/-- Without its record the evaluation is the evaluation. -/
theorem erases_trace (p : Pass m) (r : Trigger) : ∀ place, Erases (r.trace p place) (r.evaluate p) := by
  induction r using children_induction with
  | step r ih =>
    intro place
    cases hr : r.isJoint with
    | false =>
      rw [trace_leaf p hr]
      exact (erases_unrecorded _).recorded place
    | true =>
      have hlength : (r.children.map fun c => c.evaluate p).length = r.children.length := List.length_map _
      rw [trace_joint p hr, evaluate_joint p hr, ← combine_gather hr (length_traceEach p place r.children 0),
        ← combine_gather hr hlength]
      refine ((erases_gather _ ?_ []).map _).recorded place
      -- child by child, whatever the place of the first one
      suffices h : ∀ (cs : List Trigger) (i : Nat), (∀ c ∈ cs, ∀ place, Erases (c.trace p place) (c.evaluate p)) →
          List.Forall₂ Erases (traceEach p place i cs) (cs.map fun c => c.evaluate p) from h r.children 0 ih
      intro cs
      induction cs with
      | nil => exact fun _ _ => .nil
      | cons c rest ihrest =>
        intro i hall
        obtain ⟨hc, hrest⟩ := List.forall_mem_cons.1 hall
        exact .cons (hc (i :: place)) (ihrest (i + 1) hrest)

end Trigger

end Trace

/-! ## What is recorded -/

namespace PassM

variable {α β : Type} {w : World} {s t u : Moment}

/-- Begun at `s`, the work comes to `a` at `t` and has added some entries to the record. -/
def Records (w : World) (x : TraceM Course α) (s : Moment) (a : α) (entries : List Reached) (t : Moment) : Prop :=
  ∃ calls, t.past = s.past ++ calls ∧ ∀ reached, (x.runFrom s.memory reached).upshot w s.past s.store =
    ⟨((.ok a, t.memory), reached ++ entries), calls, t.store⟩

theorem records_pure (a : α) : Records w (pure a : TraceM Course α) s a [] s :=
  ⟨[], (List.append_nil _).symm, fun reached => by rw [List.append_nil]; rfl⟩

theorem Records.bind {x : TraceM Course α} {f : α → TraceM Course β} {a : α} {b : β} {entries more : List Reached}
    (hx : Records w x s a entries t) (hf : Records w (f a) t b more u) :
    Records w (x >>= f) s b (entries ++ more) u := by
  obtain ⟨calls, hpast, hx⟩ := hx
  obtain ⟨calls', hpast', hf⟩ := hf
  refine ⟨calls ++ calls', by rw [hpast', hpast, List.append_assoc], fun reached => ?_⟩
  have hnext := hf (reached ++ entries)
  rw [hpast] at hnext
  rw [PassM.runFrom_bind_state, Course.upshot_bind_of (hx reached)]
  dsimp only
  rw [hnext, List.append_assoc]

theorem Records.map {x : TraceM Course α} {a : α} {entries : List Reached} (hx : Records w x s a entries t)
    (f : α → β) :
    Records w (f <$> x) s (f a) entries t := by
  rw [map_eq_pure_bind, ← List.append_nil entries]
  exact hx.bind (records_pure (f a))

theorem Succeeds.unrecorded {x : PassM Course α} {a : α} (hx : Succeeds w x s a t) :
    Records w (unrecorded x) s a [] t := by
  obtain ⟨hresult, hmoment⟩ := Prod.mk.inj hx
  refine ⟨((x.runFrom s.memory).upshot w s.past s.store).calls, by rw [← hmoment], fun reached => ?_⟩
  change (x.runFrom s.memory >>= fun ends => pure (ends, reached)).upshot w s.past s.store = _
  rw [Course.upshot_bind, ← hmoment, ← hresult]
  simp

theorem Records.recorded {x : TraceM Course Bool} {b : Bool} {entries : List Reached} (hx : Records w x s b entries t)
    (place : List Nat) : Records w (recorded place x) s b (entries ++ [⟨place, .ok b⟩]) t := by
  obtain ⟨calls, hpast, hx⟩ := hx
  refine ⟨calls, hpast, fun reached => ?_⟩
  change (x.runFrom s.memory reached >>= fun ends =>
    pure ((ends.1.1, ends.1.2), ends.2 ++ [⟨place, ends.1.1⟩])).upshot w s.past s.store = _
  rw [Course.upshot_bind_of (hx reached)]
  simp

end PassM

end Arbiter
