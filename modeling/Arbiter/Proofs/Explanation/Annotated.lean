import Arbiter.Proofs.Explanation.Lines
import Arbiter.Proofs.Pass.Reached

/-!
# The explanation of a trigger is annotated

In a pass a trigger is explained by the lines of its abstract explanation, one for each node. What stands behind the
line of a node is known from the nodes that the evaluation reached.

* `valueAt?`, `markAt`, `questionAt`: what a record and a memory say of a node. `annotate`: the line of a node.
* `Trigger.explain_eq`: the abstract explanation has one bare line for each node.
* `Trail`: what a record of the evaluation of a tree satisfies.
* `annotated_parts`: the children of a node, explained up to the one that settles its value. `annotated`: whole trees.
* `Trigger.explained_annotates`: all of this for the explanation and the evaluation of a tree in one pass.
-/

namespace Arbiter

/-! ## Annotations -/

/-- The value that the node at a place came to, if the record has it. -/
def valueAt? (reached : List Reached) (place : List Nat) : Option Bool :=
  reached.findSome? fun entry => if entry.place = place then entry.result.toOption else none

/-- The mark of the node at a place: its value, or that it was not reached where the node above it was. -/
def markAt (reached : List Reached) (place : List Nat) : Option Mark :=
  match valueAt? reached place with
  | some value => some (.value (toString value))
  | none => if (valueAt? reached place.tail).isSome then some .notEvaluated else none

/-- The market that the root refers to. -/
def Trigger.reference? : Trigger → Option String
  | .otherMarketClosed url | .otherMarketResolved url => some url
  | _ => none

/-- The question that stands on the line of a node that was reached: that of the market it refers to. -/
def questionAt (reached : List Reached) (memory : Memory) (n : List Nat × Trigger) : Option String :=
  if (valueAt? reached n.1).isSome then n.2.reference?.bind fun url => (memory.others.get? url).map (·.question)
  else none

/-- The line of a node, annotated. -/
def annotate (reached : List Reached) (memory : Memory) (depth : Nat) (n : List Nat × Trigger) : Line :=
  ⟨depth + n.1.length, n.2.phrase, questionAt reached memory n, markAt reached n.1⟩

/-- The line of a node without annotations. -/
def bareLine (depth : Nat) (n : List Nat × Trigger) : Line :=
  ⟨depth + n.1.length, n.2.phrase, none, none⟩

theorem valueAt?_append (reached more : List Reached) (place : List Nat) :
    valueAt? (reached ++ more) place = (valueAt? reached place).or (valueAt? more place) :=
  List.findSome?_append

theorem valueAt?_eq_none {reached : List Reached} {place : List Nat} (h : ∀ entry ∈ reached, entry.place ≠ place) :
    valueAt? reached place = none :=
  List.findSome?_eq_none_iff.2 fun entry hentry => if_neg (h entry hentry)

theorem valueAt?_self (place : List Nat) (b : Bool) : valueAt? [⟨place, .ok b⟩] place = some b := by
  simp [valueAt?, Except.toOption]

/-- Annotations depend on what the record says of the node and of the one above it. -/
theorem annotate_congr {reached other : List Reached} {n : List Nat × Trigger} (memory : Memory) (depth : Nat)
    (hself : valueAt? reached n.1 = valueAt? other n.1)
    (habove : valueAt? reached n.1 = none → valueAt? reached n.1.tail = valueAt? other n.1.tail) :
    annotate reached memory depth n = annotate other memory depth n := by
  unfold annotate questionAt markAt
  rw [← hself]
  cases hn : valueAt? reached n.1 with
  | some value => rfl
  | none => rw [habove hn]

theorem valueAt?_of_mem {reached : List Reached} (hplaces : (reached.map (·.place)).Nodup) {entry : Reached}
    (hentry : entry ∈ reached) {b : Bool} (hb : entry.result = .ok b) : valueAt? reached entry.place = some b := by
  induction reached with
  | nil => cases hentry
  | cons first rest ih =>
    obtain ⟨hfresh, hrest⟩ := List.nodup_cons.1 hplaces
    rw [valueAt?, List.findSome?_cons]
    rcases List.mem_cons.1 hentry with rfl | hentry
    · simp [hb, Except.toOption]
    · have hne : first.place ≠ entry.place := fun heq => hfresh (List.mem_map.2 ⟨entry, hentry, heq.symm⟩)
      rw [if_neg hne]
      exact ih hrest hentry

/-! ## Bare lines -/

namespace Trigger

theorem explainEach_nodes (depth : Nat) {cs : List Trigger} {place : List Nat}
    (h : ∀ c ∈ cs, ∀ place : List Nat, c.explain (depth + place.length) = (c.nodes place).map (bareLine depth)) :
    ∀ i, cs.flatMap (explain (depth + (place.length + 1))) = (nodesEach place i cs).map (bareLine depth) := by
  induction cs with
  | nil => exact fun _ => rfl
  | cons c rest ih =>
    intro i
    obtain ⟨hc, hrest⟩ := List.forall_mem_cons.1 h
    rw [List.flatMap_cons, nodesEach, List.map_append, ← ih hrest (i + 1)]
    exact congrArg (· ++ _) (hc (i :: place))

/-- The abstract explanation has one bare line for each node. -/
theorem explain_eq (depth : Nat) (r : Trigger) :
    ∀ place : List Nat, r.explain (depth + place.length) = (r.nodes place).map (bareLine depth) := by
  induction r using children_induction with
  | step r ih =>
    intro place
    rw [nodes_eq, List.map_cons, ← explainEach_nodes depth ih, explain, explainBelow_eq]
    rfl

end Trigger

/-! ## Places -/

theorem not_suffix_self (i : Nat) (place : List Nat) : ¬ (i :: place) <:+ place := fun h =>
  Nat.not_succ_le_self place.length h.length_le

theorem suffix_tail {place q : List Nat} (h : place <:+ q) (hne : q ≠ place) : place <:+ q.tail := by
  cases q with
  | nil => exact absurd (List.suffix_nil.1 h).symm hne
  | cons i rest => exact (List.suffix_cons_iff.1 h).resolve_left fun heq => hne heq.symm

/-- What lies below a later child lies, and hangs, below no earlier one. -/
theorem not_suffix_of_lt {place q : List Nat} {i j : Nat} (hij : i < j) (hj : (j :: place) <:+ q) :
    ¬ (i :: place) <:+ q ∧ ¬ (i :: place) <:+ q.tail := by
  have hnot : ¬ (i :: place) <:+ q := fun hi => Nat.ne_of_lt hij (ValueRule.eq_of_suffix hi hj)
  exact ⟨hnot, fun hi => hnot (hi.trans (List.tail_suffix q))⟩

/-- What a record of the evaluations of several children, from the one at `i` on, has to do with their nodes. Each node
was reached at most once, and only below nodes that were reached. -/
structure Trails (rs : List Trigger) (place : List Nat) (i : Nat) (reached : List Reached) : Prop where
  nodup : (reached.map (·.place)).Nodup
  inside : ∀ entry ∈ reached, entry.place ∈ (Trigger.nodesEach place i rs).map (·.1)
  above : ∀ entry ∈ reached, entry.place.tail = place ∨ (valueAt? reached entry.place.tail).isSome
  values : ∀ entry ∈ reached, ∃ b, entry.result = .ok b

/-- The same for a whole tree, whose root was reached. -/
structure Trail (r : Trigger) (place : List Nat) (b : Bool) (reached : List Reached) : Prop where
  root : valueAt? reached place = some b
  nodup : (reached.map (·.place)).Nodup
  inside : ∀ entry ∈ reached, entry.place ∈ (r.nodes place).map (·.1)
  above : ∀ entry ∈ reached, entry.place = place ∨ (valueAt? reached entry.place.tail).isSome
  values : ∀ entry ∈ reached, ∃ b, entry.result = .ok b

section Trails

variable {r : Trigger} {rs : List Trigger} {place : List Nat} {i : Nat} {b : Bool} {first more reached : List Reached}

theorem Trail.suffix (h : Trail r place b reached) : ∀ entry ∈ reached, place <:+ entry.place := by
  intro entry hentry
  obtain ⟨n, hn, heq⟩ := List.mem_map.1 (h.inside entry hentry)
  exact heq ▸ r.suffix_of_mem_nodes place hn

theorem Trails.suffix (h : Trails rs place i reached) :
    ∀ entry ∈ reached, ∃ j, i ≤ j ∧ (j :: place) <:+ entry.place := by
  intro entry hentry
  obtain ⟨n, hn, heq⟩ := List.mem_map.1 (h.inside entry hentry)
  obtain ⟨j, hij, c, -, hj⟩ := Trigger.mem_nodesEach hn
  exact ⟨j, hij, heq ▸ c.suffix_of_mem_nodes _ hj⟩

theorem Trail.valueAt?_outside (h : Trail r place b reached) {q : List Nat} (hq : ¬ place <:+ q) :
    valueAt? reached q = none :=
  valueAt?_eq_none fun entry hentry heq => hq (heq ▸ h.suffix entry hentry)

theorem Trails.valueAt?_outside (h : Trails rs place i reached) {q : List Nat}
    (hq : ∀ j, i ≤ j → ¬ (j :: place) <:+ q) : valueAt? reached q = none :=
  valueAt?_eq_none fun entry hentry heq => by
    obtain ⟨j, hij, hj⟩ := h.suffix entry hentry
    exact hq j hij (heq ▸ hj)

theorem trails_nil (rs : List Trigger) (place : List Nat) (i : Nat) : Trails rs place i [] where
  nodup := List.nodup_nil
  inside _ h := absurd h List.not_mem_nil
  above _ h := absurd h List.not_mem_nil
  values _ h := absurd h List.not_mem_nil

/-- The record of one child is followed by that of those after it. -/
theorem Trails.cons (hfirst : Trail r (i :: place) b first) (hmore : Trails rs place (i + 1) more) :
    Trails (r :: rs) place i (first ++ more) := by
  refine ⟨?_, ?_, ?_, ?_⟩
  · rw [List.map_append]
    refine List.nodup_append.2 ⟨hfirst.nodup, hmore.nodup, ?_⟩
    rintro q hq q' hq' heq
    obtain ⟨entry, hentry, rfl⟩ := List.mem_map.1 hq
    obtain ⟨later, hlater, rfl⟩ := List.mem_map.1 hq'
    obtain ⟨j, hij, hj⟩ := hmore.suffix later hlater
    rw [← heq] at hj
    have hsame : i = j := ValueRule.eq_of_suffix (hfirst.suffix entry hentry) hj
    omega
  · rw [Trigger.nodesEach, List.map_append]
    intro entry hentry
    exact List.mem_append.2 ((List.mem_append.1 hentry).imp (hfirst.inside entry) (hmore.inside entry))
  · intro entry hentry
    rw [valueAt?_append]
    rcases List.mem_append.1 hentry with h | h
    · rcases hfirst.above entry h with heq | h
      · exact .inl (congrArg List.tail heq)
      · exact .inr (by simp [h])
    · exact (hmore.above entry h).imp_right fun h => by simp [h]
  · exact fun entry hentry => (List.mem_append.1 hentry).elim (hfirst.values entry) (hmore.values entry)

/-- The record of the children is followed by their node. -/
theorem Trails.joint (h : Trails r.children place 0 reached) (b : Bool) :
    Trail r place b (reached ++ [⟨place, .ok b⟩]) := by
  have hroot : valueAt? (reached ++ [⟨place, .ok b⟩]) place = some b := by
    rw [valueAt?_append, h.valueAt?_outside fun j _ => not_suffix_self j place, valueAt?_self]
    rfl
  refine ⟨hroot, ?_, fun entry hentry => ?_, fun entry hentry => ?_, fun entry hentry => ?_⟩
  · rw [List.map_append]
    refine List.nodup_append.2 ⟨h.nodup, by simp, ?_⟩
    rintro q hq q' hq' heq
    obtain ⟨entry, hentry, rfl⟩ := List.mem_map.1 hq
    obtain ⟨j, -, hj⟩ := h.suffix entry hentry
    obtain rfl : q' = place := List.mem_singleton.1 hq'
    exact not_suffix_self j q' (heq ▸ hj)
  · rw [Trigger.nodes_eq, List.map_cons]
    rcases List.mem_append.1 hentry with h' | h'
    · exact List.mem_cons_of_mem _ (h.inside entry h')
    · rw [List.mem_singleton.1 h']
      exact List.mem_cons_self
  · rcases List.mem_append.1 hentry with h' | h'
    · rcases h.above entry h' with heq | h'
      · exact .inr (by rw [heq, hroot]; rfl)
      · exact .inr (by rw [valueAt?_append, Option.isSome_or, h', Bool.true_or])
    · exact .inl (by rw [List.mem_singleton.1 h'])
  · rcases List.mem_append.1 hentry with h' | h'
    · exact h.values entry h'
    · exact ⟨b, by rw [List.mem_singleton.1 h']⟩

/-- What is recorded later does not change what stands at the nodes of a child. -/
theorem annotate_first (hfirst : Trail r (i :: place) b first) (hmore : Trails rs place (i + 1) more) (root : Bool)
    (memory : Memory) (depth : Nat) :
    (r.nodes (i :: place)).map (annotate (first ++ (more ++ [⟨place, .ok root⟩])) memory depth) =
      (r.nodes (i :: place)).map (annotate first memory depth) := by
  have hnone : ∀ q : List Nat, (i :: place) <:+ q → valueAt? (more ++ [⟨place, .ok root⟩]) q = none := by
    intro q hq
    have hroot : place ≠ q := fun heq => not_suffix_self i place (heq ▸ hq)
    have hlater : ∀ j, i + 1 ≤ j → ¬ (j :: place) <:+ q := fun j hij hj => (not_suffix_of_lt hij hj).1 hq
    rw [valueAt?_append, hmore.valueAt?_outside hlater, valueAt?_eq_none (List.forall_mem_singleton.2 hroot)]
    rfl
  have hsame : ∀ q : List Nat, (i :: place) <:+ q →
      valueAt? (first ++ (more ++ [⟨place, .ok root⟩])) q = valueAt? first q := fun q hq => by
    rw [valueAt?_append, hnone q hq, Option.or_none]
  refine List.map_congr_left fun n hn => ?_
  have hn := r.suffix_of_mem_nodes _ hn
  refine annotate_congr memory depth (hsame _ hn) fun hopen => hsame _ (suffix_tail hn fun heq => ?_)
  rw [hsame _ hn, heq, hfirst.root] at hopen
  cases hopen

/-- What was recorded before does not change what stands at the nodes of later children. -/
theorem annotate_later (hfirst : Trail r (i :: place) b first) (memory : Memory) (depth : Nat) :
    (Trigger.nodesEach place (i + 1) rs).map (annotate (first ++ more) memory depth) =
      (Trigger.nodesEach place (i + 1) rs).map (annotate more memory depth) := by
  refine List.map_congr_left fun n hn => ?_
  obtain ⟨j, hij, c, -, hj⟩ := Trigger.mem_nodesEach hn
  obtain ⟨hself, habove⟩ := not_suffix_of_lt hij (c.suffix_of_mem_nodes _ hj)
  refine annotate_congr memory depth ?_ fun _ => ?_
  · rw [valueAt?_append, hfirst.valueAt?_outside hself, Option.none_or]
  · rw [valueAt?_append, hfirst.valueAt?_outside habove, Option.none_or]

/-- Trees that were not reached below a node that was. -/
theorem annotate_skipped (rs : List Trigger) (place : List Nat) (root : Bool) (memory : Memory) (depth : Nat) :
    ∀ i, rs.flatMap (Trigger.explainSkipped (depth + (place.length + 1))) =
      (Trigger.nodesEach place i rs).map (annotate [⟨place, .ok root⟩] memory depth) := by
  induction rs with
  | nil => exact fun _ => rfl
  | cons r rest ih =>
    intro i
    have hnone : ∀ q : List Nat, (i :: place) <:+ q → valueAt? [⟨place, .ok root⟩] q = none := fun q hq =>
      valueAt?_eq_none (List.forall_mem_singleton.2 fun (heq : place = q) => not_suffix_self i place (heq ▸ hq))
    have hroot : annotate [⟨place, .ok root⟩] memory depth (i :: place, r) =
        ⟨depth + (place.length + 1), r.phrase, none, some .notEvaluated⟩ := by
      simp [annotate, questionAt, markAt, hnone, valueAt?_self]
    have hbelow : (Trigger.nodesEach (i :: place) 0 r.children).map (annotate [⟨place, .ok root⟩] memory depth) =
        (Trigger.nodesEach (i :: place) 0 r.children).map (bareLine depth) := by
      refine List.map_congr_left fun n hn => ?_
      obtain ⟨j, -, c, -, hj⟩ := Trigger.mem_nodesEach hn
      have hj := c.suffix_of_mem_nodes _ hj
      have hn : (i :: place) <:+ n.1 := (List.suffix_cons j _).trans hj
      have hself := hnone n.1 hn
      have habove := hnone n.1.tail (suffix_tail hn fun heq => not_suffix_self j _ (heq ▸ hj))
      simp [annotate, bareLine, questionAt, markAt, hself, habove]
    rw [List.flatMap_cons, Trigger.nodesEach, List.map_append, ← ih (i + 1), Trigger.nodes_eq, List.map_cons, hroot,
      hbelow, ← Trigger.explainEach_nodes depth (fun c _ => c.explain_eq depth) 0, Trigger.explainSkipped,
      Trigger.explainBelow_eq]
    rfl

end Trails

/-! ## One tree -/

open PassM

variable {w : World} {s t : Moment} {p : Pass Course}

/-- What was read is remembered when the read ends. -/
theorem remembered_of_succeeds {κ α : Type} [DecidableEq κ] {table : Memory → Cache κ α}
    {put : Memory → Cache κ α → Memory} (ht : IsTable table put) {key : κ} {read : Course (Except ReadFault α)} {a : α}
    (h : Succeeds w (remember table put key read) s a t) : (table t.memory).get? key = some a := by
  unfold Succeeds endsAt at h
  rw [runFrom_remember] at h
  cases hk : (table s.memory).get? key with
  | some value =>
    rw [hk] at h
    cases h
    exact hk
  | none =>
    rw [hk] at h
    dsimp only at h
    rw [Course.upshot_bind] at h
    generalize (read.upshot w s.past s.store).result = answer at h
    cases answer with
    | ok value =>
      cases h
      exact (congrArg (·.get? key) (ht.stored _ _)).trans (Cache.get?_insert_self _ _ _)
    | error fault => cases h

namespace Trigger

/-- The line of the root of a tree that was reached. -/
theorem annotate_root {r : Trigger} {place : List Nat} {b : Bool} {reached : List Reached}
    (h : Trail r place b reached) (memory : Memory) (depth : Nat) :
    annotate reached memory depth (place, r) =
      ⟨depth + place.length, r.phrase, r.reference?.bind fun url => (memory.others.get? url).map (·.question),
        some (.value (toString b))⟩ := by
  simp [annotate, questionAt, markAt, h.root]

/-- The lines of the explanation of a tree are those of its nodes, annotated by the record of the evaluation, with what
is remembered then or later. -/
def Annotates (w : World) (p : Pass Course) (r : Trigger) : Prop :=
  ∀ (place : List Nat) (depth : Nat) {lines : List Line} {b : Bool} {s t : Moment},
    Succeeds w (r.explainIn p (depth + place.length)) s (lines, b) t →
    s.memory ≤ t.memory ∧ ∃ reached, Records w (r.trace p place) s b reached t ∧ Trail r place b reached ∧
      ∀ memory, t.memory ≤ memory → lines = (r.nodes place).map (annotate reached memory depth)

/-- The children of a node from the one at `i` on, explained up to the one that settles its value. -/
theorem annotated_parts (r : Trigger) (place : List Nat) (depth : Nat) {cs : List Trigger}
    (ih : ∀ c ∈ cs, Annotates w p c) :
    ∀ (i : Nat) (seen : List Bool) {lines : List Line} {values : List Bool} {s t : Moment},
    Succeeds w (r.explainParts seen
      (cs.map fun c => ⟨c.explainIn p (depth + (place.length + 1)), c.explainSkipped (depth + (place.length + 1))⟩))
      s (lines, values) t →
    s.memory ≤ t.memory ∧
    ∃ reached, Records w (gather (fun values => r.settled values) seen (traceEach p place i cs)) s values reached t ∧
      Trails cs place i reached ∧ ∀ (b : Bool) (memory : Memory), t.memory ≤ memory →
        lines = (nodesEach place i cs).map (annotate (reached ++ [⟨place, .ok b⟩]) memory depth) := by
  induction cs with
  | nil =>
    intro i seen lines values s t h
    obtain ⟨heq, rfl⟩ := succeeds_pure.1 h
    cases heq
    exact ⟨Memory.le_refl _, [], records_pure _, trails_nil [] place i, fun _ _ _ => rfl⟩
  | cons c rest ihrest =>
    intro i seen lines values s t h
    obtain ⟨hc, hrest⟩ := List.forall_mem_cons.1 ih
    rw [List.map_cons, explainParts] at h
    obtain ⟨⟨own, value⟩, u, hown, h⟩ := succeeds_bind.1 h
    obtain ⟨hgrows, first, hfirst, htrail, hlines⟩ := hc (i :: place) depth hown
    dsimp only at h
    split at h
    case isTrue hsettled =>
      obtain ⟨heq, rfl⟩ := succeeds_pure.1 h
      cases heq
      have hnone := trails_nil rest place (i + 1)
      refine ⟨hgrows, first ++ [], hfirst.bind ?_, Trails.cons htrail hnone, fun b memory hmemory => ?_⟩
      · rw [if_pos hsettled]
        exact records_pure _
      · rw [List.append_assoc, nodesEach, List.map_append, annotate_first htrail hnone,
          annotate_later htrail, ← hlines memory hmemory, List.nil_append,
          ← annotate_skipped rest place b memory depth (i + 1),
          List.flatMap_map]
    case isFalse hopen =>
      obtain ⟨⟨others, all⟩, _, hothers, h⟩ := succeeds_bind.1 h
      obtain ⟨heq, rfl⟩ := succeeds_pure.1 h
      cases heq
      obtain ⟨hmore, more, hrecords, htrails, hafter⟩ := ihrest hrest (i + 1) (seen ++ [value]) hothers
      refine ⟨Memory.le_trans hgrows hmore, first ++ more, hfirst.bind ?_, Trails.cons htrail htrails,
        fun b memory hmemory => ?_⟩
      · rw [if_neg hopen]
        exact hrecords
      · rw [List.append_assoc, nodesEach, List.map_append, annotate_first htrail htrails, annotate_later htrail,
          ← hlines memory (Memory.le_trans hmore hmemory), ← hafter b memory hmemory]

theorem reference?_of_joint {r : Trigger} (hr : r.isJoint = true) : r.reference? = none := by
  cases r with
  | otherMarketClosed _ | otherMarketResolved _ => cases hr
  | _ => rfl

/-- What a read of another market came to is remembered from then on. -/
theorem question_remembered {url : String} {reference : Reference} {market : Snapshot} {now : Instant}
    (h : Succeeds w ((worldPass market now).otherMarket url) s reference t) {memory : Memory}
    (hmemory : t.memory ≤ memory) :
    ((memory.others.get? url).map (·.question)) = some reference.question := by
  rw [hmemory.others url reference (remembered_of_succeeds isTable_others h)]
  rfl

/-- A trigger that was explained was evaluated, from the same moment to the same one. -/
theorem evaluated_of_explained {p : Pass Course} {r : Trigger} {depth : Nat} {lines : List Line} {b : Bool}
    (h : Succeeds w (r.explainIn p depth) s (lines, b) t) : Succeeds w (r.evaluate p) s b t := by
  rw [← snd_explainIn p r depth]
  exact succeeds_map.2 ⟨(lines, b), rfl, h⟩

theorem lines_of_explainLeaf {r : Trigger} {depth : Nat} {question : Option String} {lines : List Line} {b : Bool}
    (h : Succeeds w (explainLeaf p r depth question) s (lines, b) t) :
    lines = [⟨depth, r.phrase, question, some (.value (toString b))⟩] ∧ Succeeds w (r.evaluate p) s b t := by
  obtain ⟨value, _, hvalue, h⟩ := succeeds_bind.1 h
  obtain ⟨heq, rfl⟩ := succeeds_pure.1 h
  cases heq
  exact ⟨rfl, hvalue⟩

/-- The line of a tree without children has the question of the market that it refers to. -/
theorem line_of_leaf {market : Snapshot} {now : Instant} {r : Trigger} (hr : r.isJoint = false) {depth : Nat}
    {lines : List Line} {b : Bool} (h : Succeeds w (r.explainIn (worldPass market now) depth) s (lines, b) t)
    {memory : Memory} (hmemory : t.memory ≤ memory) :
    lines = [⟨depth, r.phrase, r.reference?.bind fun url => (memory.others.get? url).map (·.question),
      some (.value (toString b))⟩] := by
  cases r with
  | atTime _ | thisMarketClosed _ | pullFinished _ => exact (lines_of_explainLeaf h).1
  | otherMarketClosed url | otherMarketResolved url =>
    obtain ⟨reference, u, hread, h⟩ := succeeds_bind.1 h
    obtain ⟨hlines, hvalue⟩ := lines_of_explainLeaf h
    have hgrows := (((durableReads market now).trigger _).settled hvalue).1
    rw [hlines, reference?, Option.bind_some, question_remembered hread (Memory.le_trans hgrows hmemory)]
  | _ => cases hr

theorem children_of_leaf {r : Trigger} (hr : r.isJoint = false) : r.children = [] := by
  cases r with
  | atTime _ | thisMarketClosed _ | pullFinished _ | otherMarketClosed _ | otherMarketResolved _ => rfl
  | _ => cases hr

/-- Every explanation of a tree is annotated. -/
theorem annotated (market : Snapshot) (now : Instant) (r : Trigger) : Annotates w (worldPass market now) r := by
  induction r using children_induction with
  | step r ih =>
    intro place depth lines b s t h
    cases hr : r.isJoint with
    | true =>
      rw [explainIn_joint _ hr] at h
      obtain ⟨⟨below, values⟩, _, hbelow, h⟩ := succeeds_bind.1 h
      obtain ⟨heq, rfl⟩ := succeeds_pure.1 h
      cases heq
      obtain ⟨hgrows, reached, hrecords, htrails, hlines⟩ := annotated_parts r place depth ih 0 [] hbelow
      have htrail := htrails.joint (r.combine values)
      refine ⟨hgrows, _, ?_, htrail, fun memory hmemory => ?_⟩
      · rw [trace_joint _ hr, ← combine_gather hr (length_traceEach _ place r.children 0)]
        exact (hrecords.map _).recorded place
      · rw [nodes_eq, List.map_cons, annotate_root htrail, ← hlines _ memory hmemory, reference?_of_joint hr]
        rfl
    | false =>
      have hvalue := evaluated_of_explained h
      have htrail := (trails_nil r.children place 0).joint b
      refine ⟨(((durableReads market now).trigger r).settled hvalue).1, _, ?_, htrail, fun memory hmemory => ?_⟩
      · rw [trace_leaf _ hr]
        exact hvalue.unrecorded.recorded place
      · rw [line_of_leaf hr h hmemory, nodes_eq, children_of_leaf hr, List.map_cons, annotate_root htrail]
        rfl

/-- Without its annotations the explanation of a trigger is the abstract one. -/
theorem bare_of_explained {market : Snapshot} {now : Instant} {r : Trigger} {depth : Nat} {lines : List Line} {b : Bool}
    (h : Succeeds w (r.explainIn (worldPass market now) depth) s (lines, b) t) :
    lines.map Line.bare = r.explain depth := by
  obtain ⟨-, reached, -, -, hlines⟩ := annotated market now r [] depth h
  have hbare : r.explain depth = (r.nodes []).map (bareLine depth) := explain_eq depth r []
  rw [hlines t.memory (Memory.le_refl _), List.map_map, hbare]
  rfl

end Trigger

end Arbiter
