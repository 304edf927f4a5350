import Arbiter.Proofs.Explanation.Trigger
import Arbiter.Proofs.Pass.Moment
import Arbiter.Proofs.Rule.Drawing

/-!
# Triggers are truth functions of their leaves

A trigger has a classical truth value for every assignment of truth values to its leaves. Its evaluation stops as soon as
the leaves that it visited decide this value, and it ends with the fault of the first leaf that fails.

* `Trigger.leaves`: the leaves of a tree with their places. `Trigger.truth`: the classical value under an assignment.
* `Trigger.watch`: the evaluation, with a record of the leaves that it visits.
* `Watches`: what is found out about the truth by work that is watched; one lemma for each connective.
* `Trigger.evaluate_truthful`: the evaluation of every tree, as far as it gets.
-/

namespace Arbiter

/-! ## Leaves and truth -/

namespace Trigger

mutual

/-- The leaves of a tree from left to right, each with its place: the path to it. -/
def leaves (place : List Nat) : Trigger → List (List Nat × Trigger)
  | .not child => child.leaves (0 :: place)
  | .all children | .any children | .xor children | .xnor children => leavesEach place 0 children
  | .both first second | .either first second | .nand first second | .neither first second | .implies first second =>
    first.leaves (0 :: place) ++ second.leaves (1 :: place)
  | leaf => [(place, leaf)]

/-- The leaves of several children from the one at `i` on. -/
def leavesEach (place : List Nat) (i : Nat) : List Trigger → List (List Nat × Trigger)
  | [] => []
  | r :: rest => r.leaves (i :: place) ++ leavesEach place (i + 1) rest

end

mutual

/-- The classical value of a tree, given the values of the leaves by their places. -/
def truth (v : List Nat → Bool) (place : List Nat) : Trigger → Bool
  | .not child => !child.truth v (0 :: place)
  | .all children => (truthEach v place 0 children).all id
  | .both first second => first.truth v (0 :: place) && second.truth v (1 :: place)
  | .any children => (truthEach v place 0 children).any id
  | .either first second => first.truth v (0 :: place) || second.truth v (1 :: place)
  | .xor children => (truthEach v place 0 children).count true % 2 == 1
  | .xnor children => decide (∀ a ∈ truthEach v place 0 children, ∀ b ∈ truthEach v place 0 children, a = b)
  | .nand first second => !(first.truth v (0 :: place) && second.truth v (1 :: place))
  | .neither first second => !(first.truth v (0 :: place) || second.truth v (1 :: place))
  | .implies first second => !first.truth v (0 :: place) || second.truth v (1 :: place)
  | _ => v place

/-- The classical values of several children from the one at `i` on. -/
def truthEach (v : List Nat → Bool) (place : List Nat) (i : Nat) : List Trigger → List Bool
  | [] => []
  | r :: rest => r.truth v (i :: place) :: truthEach v place (i + 1) rest

end

end Trigger

/-! ## Visits -/

/-- A leaf that was evaluated: its place, the leaf, and what it came to. -/
structure Visit where
  place : List Nat
  leaf : Trigger
  result : Except Halt Bool

/-- Whether the leaf came to a truth value. -/
def Visit.Succeeded (visit : Visit) : Prop := ∃ b, visit.result = .ok b

/-- The truth values that an assignment gives to the leaves are those that they came to. -/
def AgreesOn (v : List Nat → Bool) (visits : List Visit) : Prop := ∀ visit ∈ visits, visit.result = .ok (v visit.place)

/-- Work of a pass that keeps a record of visits. -/
abbrev WatchM (m : Type → Type) := PassM (StateT (List Visit) m)

section Watch

variable {m : Type → Type} [Monad m]

/-- The work of a leaf, recorded as a visit together with its result. -/
def visited (place : List Nat) (leaf : Trigger) (work : PassM m Bool) : WatchM m Bool := fun memory visits => do
  let (result, memory) ← work.runFrom memory
  pure ((result, memory), visits ++ [⟨place, leaf, result⟩])

namespace Trigger

mutual

/-- The evaluation of a trigger that records the leaves it visits. -/
def watch (p : Pass m) (place : List Nat) : Trigger → WatchM m Bool
  | .not child => return !(← child.watch p (0 :: place))
  | .all children => allTrue (watchEach p place 0 children)
  | .both first second => allTrue [first.watch p (0 :: place), second.watch p (1 :: place)]
  | .any children => anyTrue (watchEach p place 0 children)
  | .either first second => anyTrue [first.watch p (0 :: place), second.watch p (1 :: place)]
  | .xor children => oddlyMany false (watchEach p place 0 children)
  | .xnor children => allAgree (watchEach p place 0 children)
  | .nand first second => return !(← allTrue [first.watch p (0 :: place), second.watch p (1 :: place)])
  | .neither first second => return !(← anyTrue [first.watch p (0 :: place), second.watch p (1 :: place)])
  | .implies first second => impliedBy (first.watch p (0 :: place)) (second.watch p (1 :: place))
  | leaf => visited place leaf (leaf.evaluate p)

/-- The recorded evaluations of several children from the one at `i` on, none of them begun. -/
def watchEach (p : Pass m) (place : List Nat) (i : Nat) : List Trigger → List (WatchM m Bool)
  | [] => []
  | r :: rest => r.watch p (i :: place) :: watchEach p place (i + 1) rest

end

end Trigger

end Watch

/-! ## Work that is watched -/

/-- From one moment to another nothing is done but visits to leaves, one after another. -/
inductive Walk (w : World) (p : Pass Course) : Moment → List Visit → Moment → Prop where
  | done (s : Moment) : Walk w p s [] s
  | next {s t u : Moment} {visit : Visit} {visits : List Visit} :
      (visit.leaf.evaluate p).endsAt w s = (visit.result, t) → Walk w p t visits u → Walk w p s (visit :: visits) u

theorem Walk.append {w : World} {p : Pass Course} {s t u : Moment} {visits more : List Visit}
    (h : Walk w p s visits t) (h' : Walk w p t more u) : Walk w p s (visits ++ more) u := by
  induction h with
  | done => exact h'
  | next hv _ ih => exact .next hv (ih h')

/-- What some visits found out about a truth value with certain leaves. They were made from left to right and are all that
was done. With a result all of them succeeded, and they leave no other value open; with a fault it is the one of the last
visit, and the ones before it succeeded. -/
structure FindsOut (w : World) (p : Pass Course) (truth : (List Nat → Bool) → Bool) (leaves : List (List Nat × Trigger))
    (s : Moment) (ends : Except Halt Bool × Moment) (visits : List Visit) : Prop where
  inOrder : (visits.map fun visit => (visit.place, visit.leaf)).Sublist leaves
  walked : Walk w p s visits ends.2
  settled : ∀ b, ends.1 = .ok b → (∀ visit ∈ visits, visit.Succeeded) ∧ ∀ v, AgreesOn v visits → truth v = b
  stopped : ∀ halt, ends.1 = .error halt → ∃ before last,
    visits = before ++ [last] ∧ last.result = .error halt ∧ ∀ visit ∈ before, visit.Succeeded

/-- Watched work does what the work does, and records visits that find out about a truth value. -/
def Watches (p : Pass Course) (watched : WatchM Course Bool) (work : PassM Course Bool)
    (truth : (List Nat → Bool) → Bool) (leaves : List (List Nat × Trigger)) : Prop :=
  ∀ (w : World) (s : Moment) (visits : List Visit),
    let u := (work.runFrom s.memory).upshot w s.past s.store
    ∃ new, (watched.runFrom s.memory visits).upshot w s.past s.store = ⟨(u.result, visits ++ new), u.calls, u.store⟩ ∧
      FindsOut w p truth leaves s (work.endsAt w s) new

/-- The same for several works one by one, with the list of their truth values. -/
inductive WatchesEach (p : Pass Course) : List (WatchM Course Bool) → List (PassM Course Bool) →
    ((List Nat → Bool) → List Bool) → List (List Nat × Trigger) → Prop where
  | nil : WatchesEach p [] [] (fun _ => []) []
  | cons {watched : WatchM Course Bool} {work : PassM Course Bool} {truth : (List Nat → Bool) → Bool}
      {leaves rest : List (List Nat × Trigger)} {watcheds : List (WatchM Course Bool)} {works : List (PassM Course Bool)}
      {truths : (List Nat → Bool) → List Bool} :
      Watches p watched work truth leaves → WatchesEach p watcheds works truths rest →
      WatchesEach p (watched :: watcheds) (work :: works) (fun v => truth v :: truths v) (leaves ++ rest)

namespace Watches

variable {p : Pass Course} {watched : WatchM Course Bool} {work : PassM Course Bool}
  {truth truth' : (List Nat → Bool) → Bool} {leaves rest : List (List Nat × Trigger)}

theorem congr (h : Watches p watched work truth leaves) (ht : ∀ v, truth' v = truth v) :
    Watches p watched work truth' leaves := funext ht ▸ h

/-- Nothing has to be visited for what is known. -/
protected theorem pure (b : Bool) (leaves : List (List Nat × Trigger)) :
    Watches p (Pure.pure b) (Pure.pure b) (fun _ => b) leaves := by
  intro w s visits
  refine ⟨[], ?_, ?_⟩
  · rw [List.append_nil]
    rfl
  · rw [PassM.endsAt_pure]
    exact {
      inOrder := List.nil_sublist _
      walked := .done s
      settled := fun b' h => ⟨by simp, fun _ _ => Except.ok.inj h⟩
      stopped := fun halt h => by cases h }

/-- What was found out first decides what is asked next, and both together find out about the value of both. -/
protected theorem bind {f : Bool → WatchM Course Bool} {g : Bool → PassM Course Bool} (rest : List (List Nat × Trigger))
    (next : Bool → (List Nat → Bool) → Bool) (h : Watches p watched work truth leaves)
    (hf : ∀ b, Watches p (f b) (g b) (next b) rest) :
    Watches p (watched >>= f) (work >>= g) (fun v => next (truth v) v) (leaves ++ rest) := by
  intro w s visits
  obtain ⟨first, hfirst, found⟩ := h w s visits
  -- the first part ends with a result or a fault, at a moment of its own
  obtain ⟨⟨⟨result, memory⟩, calls, store⟩, hu⟩ :
      ∃ u : Upshot (Except Halt Bool × Memory), (work.runFrom s.memory).upshot w s.past s.store = u := ⟨_, rfl⟩
  have hends : work.endsAt w s = (result, ⟨s.past ++ calls, memory, store⟩) := by rw [PassM.endsAt, hu]
  rw [hu] at hfirst
  rw [hends] at found
  rw [PassM.runFrom_bind_state, Course.upshot_bind_of hfirst, PassM.runFrom_bind, Course.upshot_bind_of hu,
    PassM.endsAt_bind, hends]
  cases result with
  | error halt =>
    refine ⟨first, rfl, ?_⟩
    exact {
      inOrder := found.inOrder.trans (List.sublist_append_left leaves rest)
      walked := found.walked
      settled := fun b hb => by cases hb
      stopped := fun halt' hh => found.stopped halt' hh }
  | ok b =>
    obtain ⟨second, hsecond, found'⟩ := hf b w ⟨s.past ++ calls, memory, store⟩ (visits ++ first)
    refine ⟨first ++ second, ?_, ?_⟩
    · dsimp only at hsecond ⊢
      rw [hsecond, List.append_assoc]
    · obtain ⟨hfirst, hvalue⟩ := found.settled b rfl
      exact {
        inOrder := by
          rw [List.map_append]
          exact found.inOrder.append found'.inOrder
        walked := found.walked.append found'.walked
        settled := fun b' hb' => by
          obtain ⟨hsecond, hvalue'⟩ := found'.settled b' hb'
          refine ⟨fun visit hv => (List.mem_append.1 hv).elim (hfirst visit) (hsecond visit), fun v hv => ?_⟩
          obtain ⟨hv, hv'⟩ := List.forall_mem_append.1 hv
          rw [hvalue v hv]
          exact hvalue' v hv'
        stopped := fun halt hh => by
          obtain ⟨before, last, rfl, hlast, hbefore⟩ := found'.stopped halt hh
          refine ⟨first ++ before, last, (List.append_assoc ..).symm, hlast, fun visit hv => ?_⟩
          exact (List.mem_append.1 hv).elim (hfirst visit) (hbefore visit) }

/-- Work on a result that is known asks nothing more. -/
protected theorem map (f : Bool → Bool) (h : Watches p watched work truth leaves) :
    Watches p (return f (← watched)) (return f (← work)) (fun v => f (truth v)) leaves := by
  have hbind := h.bind [] (fun b _ => f b) fun b => Watches.pure (f b) []
  rwa [List.append_nil] at hbind

/-- A leaf is visited. -/
protected theorem leaf (p : Pass Course) (place : List Nat) (leaf : Trigger) :
    Watches p (visited place leaf (leaf.evaluate p)) (leaf.evaluate p) (fun v => v place) [(place, leaf)] := by
  intro w s visits
  refine ⟨[⟨place, leaf, ((leaf.evaluate p).endsAt w s).1⟩], ?_, ?_⟩
  · exact congrArg (Upshot.mk _ · _) (List.append_nil _)
  · exact {
      inOrder := List.Sublist.refl _
      walked := .next rfl (.done _)
      settled := fun b hb => by
        refine ⟨by simpa using ⟨b, hb⟩, fun v hv => ?_⟩
        have hagrees := hv _ List.mem_cons_self
        exact Except.ok.inj (hagrees.symm.trans hb)
      stopped := fun halt hh => ⟨[], _, rfl, hh, by simp⟩ }

end Watches

/-! ## One connective -/

theorem odd_count_cons (b : Bool) (values : List Bool) :
    ((b :: values).count true % 2 == 1) = (b ^^ (values.count true % 2 == 1)) := by
  cases b with
  | false => simp
  | true =>
    rcases Nat.mod_two_eq_zero_or_one (values.count true) with h | h
    · simp [h, Nat.add_mod]
    · simp [h, Nat.add_mod]

/-- Values agree if all are the same as the first one. -/
theorem agree_cons (b : Bool) (values : List Bool) :
    decide (∀ a ∈ b :: values, ∀ c ∈ b :: values, a = c) = values.all (· == b) := by
  refine Bool.eq_iff_iff.2 (decide_eq_true_iff.trans (Iff.trans ?_ List.all_eq_true.symm))
  constructor
  · exact fun h a ha => beq_iff_eq.2 (h a (List.mem_cons_of_mem b ha) b List.mem_cons_self)
  · intro h
    have hsame : ∀ a ∈ b :: values, a = b := List.forall_mem_cons.2 ⟨rfl, fun a ha => beq_iff_eq.1 (h a ha)⟩
    exact fun a ha c hc => (hsame a ha).trans (hsame c hc).symm

namespace WatchesEach

variable {p : Pass Course} {watcheds : List (WatchM Course Bool)} {works : List (PassM Course Bool)}
  {truths : (List Nat → Bool) → List Bool} {leaves : List (List Nat × Trigger)}

/-- The two works of a node with two children. -/
theorem pair {watched watched' : WatchM Course Bool} {work work' : PassM Course Bool}
    {truth truth' : (List Nat → Bool) → Bool} {leaves rest : List (List Nat × Trigger)}
    (h : Watches p watched work truth leaves) (h' : Watches p watched' work' truth' rest) :
    WatchesEach p [watched, watched'] [work, work'] (fun v => [truth v, truth' v]) (leaves ++ rest) := by
  have hsecond := WatchesEach.cons h' .nil
  rw [List.append_nil] at hsecond
  exact .cons h hsecond

protected theorem allTrue (h : WatchesEach p watcheds works truths leaves) :
    Watches p (allTrue watcheds) (allTrue works) (fun v => (truths v).all id) leaves := by
  induction h with
  | nil => exact .pure true []
  | @cons _ _ _ _ rest _ _ truths hw _ ih =>
    refine (hw.bind rest (fun b v => b && (truths v).all id) fun b => ?_).congr fun _ => rfl
    cases b with
    | true => exact ih
    | false => exact .pure false rest

protected theorem anyTrue (h : WatchesEach p watcheds works truths leaves) :
    Watches p (anyTrue watcheds) (anyTrue works) (fun v => (truths v).any id) leaves := by
  induction h with
  | nil => exact .pure false []
  | @cons _ _ _ _ rest _ _ truths hw _ ih =>
    refine (hw.bind rest (fun b v => b || (truths v).any id) fun b => ?_).congr fun _ => rfl
    cases b with
    | true => exact .pure true rest
    | false => exact ih

/-- A parity stays open up to the last value. -/
protected theorem oddlyMany (h : WatchesEach p watcheds works truths leaves) : ∀ odd : Bool,
    Watches p (oddlyMany odd watcheds) (oddlyMany odd works) (fun v => odd ^^ ((truths v).count true % 2 == 1)) leaves := by
  induction h with
  | nil => exact fun odd => (Watches.pure odd []).congr fun _ => by simp
  | @cons _ _ truth _ rest _ _ truths hw _ ih =>
    intro odd
    refine (hw.bind rest (fun b v => (odd ^^ b) ^^ ((truths v).count true % 2 == 1))
      fun b => ih (odd ^^ b)).congr fun v => ?_
    rw [odd_count_cons, Bool.xor_assoc]

protected theorem allGive (h : WatchesEach p watcheds works truths leaves) (expected : Bool) :
    Watches p (allGive expected watcheds) (allGive expected works) (fun v => (truths v).all (· == expected)) leaves := by
  induction h with
  | nil => exact .pure true []
  | @cons _ _ _ _ rest _ _ truths hw _ ih =>
    refine (hw.bind rest (fun b v => b == expected && (truths v).all (· == expected))
      fun b => ?_).congr fun _ => rfl
    by_cases hb : b = expected
    · simpa [hb] using ih
    · rw [if_neg hb, if_neg hb]
      exact (Watches.pure false rest).congr fun _ => by simp [hb]

protected theorem allAgree (h : WatchesEach p watcheds works truths leaves) :
    Watches p (allAgree watcheds) (allAgree works) (fun v => decide (∀ a ∈ truths v, ∀ b ∈ truths v, a = b)) leaves := by
  cases h with
  | nil => exact (Watches.pure true []).congr fun _ => by simp
  | @cons _ _ truth _ rest _ _ truths hw hrest =>
    refine (hw.bind rest (fun b v => (truths v).all (· == b)) hrest.allGive).congr fun v => ?_
    exact agree_cons (truth v) (truths v)

end WatchesEach

/-- A conclusion matters only if the premise holds. -/
protected theorem Watches.impliedBy {p : Pass Course} {premise conclusion : WatchM Course Bool}
    {premise' conclusion' : PassM Course Bool} {truth truth' : (List Nat → Bool) → Bool}
    {leaves rest : List (List Nat × Trigger)} (h : Watches p premise premise' truth leaves)
    (h' : Watches p conclusion conclusion' truth' rest) :
    Watches p (impliedBy premise conclusion) (impliedBy premise' conclusion') (fun v => !truth v || truth' v)
      (leaves ++ rest) := by
  refine h.bind rest (fun b v => !b || truth' v) fun b => ?_
  cases b with
  | true => exact h'
  | false => exact .pure true rest

/-! ## Whole trees -/

namespace Trigger

variable (p : Pass Course)

mutual

/-- The evaluation of every tree finds out about its classical value. -/
theorem watches : ∀ (r : Trigger) (place : List Nat),
    Watches p (r.watch p place) (r.evaluate p) (fun v => r.truth v place) (r.leaves place)
  | .not child, place => (watches child (0 :: place)).map (!·)
  | .all children, place => (watchesEach children place 0).allTrue
  | .both first second, place =>
    (WatchesEach.pair (watches first (0 :: place)) (watches second (1 :: place))).allTrue.congr
      fun _ => by simp [truth]
  | .any children, place => (watchesEach children place 0).anyTrue
  | .either first second, place =>
    (WatchesEach.pair (watches first (0 :: place)) (watches second (1 :: place))).anyTrue.congr
      fun _ => by simp [truth]
  | .xor children, place => ((watchesEach children place 0).oddlyMany false).congr fun _ => (Bool.false_xor _).symm
  | .xnor children, place => (watchesEach children place 0).allAgree
  | .nand first second, place =>
    ((WatchesEach.pair (watches first (0 :: place)) (watches second (1 :: place))).allTrue.map (!·)).congr
      fun _ => by simp [truth]
  | .neither first second, place =>
    ((WatchesEach.pair (watches first (0 :: place)) (watches second (1 :: place))).anyTrue.map (!·)).congr
      fun _ => by simp [truth]
  | .implies first second, place => (watches first (0 :: place)).impliedBy (watches second (1 :: place))
  | .atTime _, place | .thisMarketClosed _, place | .pullFinished _, place | .otherMarketClosed _, place
  | .otherMarketResolved _, place => .leaf p place _

/-- The evaluations of several children from the one at `i` on. -/
theorem watchesEach : ∀ (rs : List Trigger) (place : List Nat) (i : Nat),
    WatchesEach p (watchEach p place i rs) (evaluateEach p rs) (fun v => truthEach v place i rs) (leavesEach place i rs)
  | [], _, _ => .nil
  | r :: rest, place, i => .cons (watches r (i :: place)) (watchesEach rest place (i + 1))

end

/-! ## Places -/

theorem leaves_joint {r : Trigger} (hr : r.isJoint = true) (place : List Nat) :
    r.leaves place = leavesEach place 0 r.children := by
  cases r with
  | atTime _ | thisMarketClosed _ | pullFinished _ | otherMarketClosed _ | otherMarketResolved _ => cases hr
  | _ => simp [leaves, leavesEach, children]

theorem leaves_leaf {r : Trigger} (hr : r.isJoint = false) (place : List Nat) : r.leaves place = [(place, r)] := by
  cases r with
  | atTime _ | thisMarketClosed _ | pullFinished _ | otherMarketClosed _ | otherMarketResolved _ => rfl
  | _ => cases hr

theorem mem_leavesEach {place : List Nat} {leaf : List Nat × Trigger} {rs : List Trigger} :
    ∀ {i : Nat}, leaf ∈ leavesEach place i rs → ∃ j, i ≤ j ∧ ∃ r ∈ rs, leaf ∈ r.leaves (j :: place) := by
  induction rs with
  | nil => simp [leavesEach]
  | cons r rest ih =>
    intro i h
    rw [leavesEach, List.mem_append] at h
    rcases h with h | h
    · exact ⟨i, Nat.le_refl i, r, List.mem_cons_self, h⟩
    · obtain ⟨j, hij, c, hc, hj⟩ := ih h
      exact ⟨j, Nat.le_of_succ_le hij, c, List.mem_cons_of_mem r hc, hj⟩

/-- All leaves lie at the root or below it. -/
theorem suffix_of_mem_leaves {leaf : List Nat × Trigger} (r : Trigger) :
    ∀ place : List Nat, leaf ∈ r.leaves place → place <:+ leaf.1 := by
  induction r using children_induction with
  | step r ih =>
    intro place h
    cases hr : r.isJoint with
    | true =>
      rw [leaves_joint hr] at h
      obtain ⟨j, -, c, hc, hj⟩ := mem_leavesEach h
      exact (List.suffix_cons j place).trans (ih c hc (j :: place) hj)
    | false =>
      rw [leaves_leaf hr, List.mem_singleton] at h
      subst h
      exact List.suffix_rfl

theorem nodup_leavesEach (place : List Nat) {rs : List Trigger}
    (h : ∀ r ∈ rs, ∀ place : List Nat, ((r.leaves place).map (·.1)).Nodup) :
    ∀ i : Nat, ((leavesEach place i rs).map (·.1)).Nodup := by
  induction rs with
  | nil => simp [leavesEach]
  | cons r rest ih =>
    intro i
    rw [leavesEach, List.map_append]
    have hrest : ((leavesEach place (i + 1) rest).map (·.1)).Nodup := ih (fun c hc => h c (List.mem_cons_of_mem r hc)) (i + 1)
    refine List.nodup_append.2 ⟨h r List.mem_cons_self (i :: place), hrest, ?_⟩
    rintro path hp _ hq rfl
    obtain ⟨leaf, hleaf, rfl⟩ := List.mem_map.1 hp
    obtain ⟨leaf', hleaf', hplace⟩ := List.mem_map.1 hq
    obtain ⟨j, hij, c, -, hj⟩ := mem_leavesEach hleaf'
    have hsame : i = j := ValueRule.eq_of_suffix (suffix_of_mem_leaves r _ hleaf) (hplace ▸ suffix_of_mem_leaves c _ hj)
    omega

/-- No two leaves have the same place. -/
theorem nodup_leaves (r : Trigger) : ∀ place : List Nat, ((r.leaves place).map (·.1)).Nodup := by
  induction r using children_induction with
  | step r ih =>
    intro place
    cases hr : r.isJoint with
    | true =>
      rw [leaves_joint hr]
      exact nodup_leavesEach place ih 0
    | false => simp [leaves_leaf hr]

end Trigger

/-- Leaves that succeeded at places of their own are those of some assignment. -/
theorem exists_agreesOn {visits : List Visit} (hplaces : (visits.map (·.place)).Nodup)
    (h : ∀ visit ∈ visits, visit.Succeeded) : ∃ v, AgreesOn v visits := by
  induction visits with
  | nil => exact ⟨fun _ => false, by simp [AgreesOn]⟩
  | cons visit rest ih =>
    obtain ⟨hfresh, hrest⟩ := List.nodup_cons.1 hplaces
    obtain ⟨⟨b, hb⟩, hsucceeded⟩ := List.forall_mem_cons.1 h
    obtain ⟨v, hv⟩ := ih hrest hsucceeded
    refine ⟨fun place => if place = visit.place then b else v place, List.forall_mem_cons.2 ⟨by simp [hb], ?_⟩⟩
    intro other hother
    have hne : other.place ≠ visit.place := fun heq => hfresh (List.mem_map.2 ⟨other, hother, heq⟩)
    simpa [hne] using hv other hother

/-- A visit succeeds if its leaf does, whenever it is evaluated. -/
theorem Walk.succeeded {w : World} {p : Pass Course} {s t : Moment} {visits : List Visit} (h : Walk w p s visits t)
    (hleaves : ∀ visit ∈ visits, ∀ u, ∃ b, ((visit.leaf.evaluate p).endsAt w u).1 = .ok b) :
    ∀ visit ∈ visits, visit.Succeeded := by
  induction h with
  | done => simp
  | @next s t u visit visits hv _ ih =>
    obtain ⟨hfirst, hrest⟩ := List.forall_mem_cons.1 hleaves
    refine List.forall_mem_cons.2 ⟨?_, ih hrest⟩
    obtain ⟨b, hb⟩ := hfirst s
    rw [hv] at hb
    exact ⟨b, hb⟩

/-- Triggers are truth functions of their leaves. In every world and from every memory the evaluation of a tree consists
of visits to leaves, each of them once and from left to right, and their record changes nothing. If all leaves succeed,
whenever they are evaluated, then the tree does. For every assignment that agrees with the leaves visited, whatever it gives
to the others, the tree comes to its classical value; so if it comes to something, then this is the value under all of these
assignments, and there are some. If it ends with a fault, then this is the one of the leaf visited last, and all leaves
visited before it succeeded. -/
theorem Trigger.evaluate_truthful (market : Snapshot) (now : Instant) (r : Trigger) (memory : Memory) (w : World)
    (past : List Call) (store : Store) :
    let p := worldPass market now
    let run := ((r.evaluate p).runFrom memory).upshot w past store
    let watched := ((r.watch p []).runFrom memory []).upshot w past store
    let visits := watched.result.2
    (watched.result.1 = run.result ∧ watched.calls = run.calls ∧ watched.store = run.store) ∧
    (visits.map fun visit => (visit.place, visit.leaf)).Sublist (r.leaves []) ∧ ((r.leaves []).map (·.1)).Nodup ∧
    Walk w p ⟨past, memory, store⟩ visits ⟨past ++ run.calls, run.result.2, run.store⟩ ∧
    ((∀ leaf ∈ r.leaves [], ∀ s, ∃ b, ((leaf.2.evaluate p).endsAt w s).1 = .ok b) → ∃ b, run.result.1 = .ok b) ∧
    (∀ v, AgreesOn v visits → run.result.1 = .ok (r.truth v [])) ∧
    (∀ b, run.result.1 = .ok b → (∃ v, AgreesOn v visits) ∧ ∀ v, AgreesOn v visits → r.truth v [] = b) ∧
    ∀ halt, run.result.1 = .error halt → ∃ before last,
      visits = before ++ [last] ∧ last.result = .error halt ∧ ∀ visit ∈ before, visit.Succeeded := by
  intro p run watched visits
  obtain ⟨new, hwatched, found⟩ := watches p r [] w ⟨past, memory, store⟩ []
  obtain rfl : visits = new := congrArg (·.result.2) hwatched
  have hplaces : (visits.map (·.place)).Nodup := by
    have hsub := found.inOrder.map (·.1)
    rw [List.map_map] at hsub
    exact hsub.nodup (nodup_leaves r [])
  refine ⟨⟨congrArg (·.result.1) hwatched, congrArg (·.calls) hwatched, congrArg (·.store) hwatched⟩, found.inOrder,
    nodup_leaves r [], found.walked, fun hleaves => ?_, fun v hv => ?_, fun b hb => ?_, found.stopped⟩
  · have hall := found.walked.succeeded fun visit hmem =>
      hleaves (visit.place, visit.leaf) (found.inOrder.subset (List.mem_map_of_mem hmem))
    cases hresult : run.result.1 with
    | ok b => exact ⟨b, rfl⟩
    | error halt =>
      obtain ⟨before, last, hsplit, hlast, -⟩ := found.stopped halt hresult
      obtain ⟨b, hb⟩ := hall last (by simp [hsplit])
      cases hb.symm.trans hlast
  · cases hresult : run.result.1 with
    | ok b => rw [(found.settled b hresult).2 v hv]
    | error halt =>
      obtain ⟨before, last, hsplit, hlast, -⟩ := found.stopped halt hresult
      cases (hv last (by simp [hsplit])).symm.trans hlast
  · obtain ⟨hsucceeded, hvalue⟩ := found.settled b hb
    exact ⟨exists_agreesOn hplaces hsucceeded, hvalue⟩

/-- An open market decides a disjunction in which its closing is denied, though the other market cannot be read. -/
theorem Trigger.denied_decides :
    let now : Instant := ⟨1709298000, 0⟩
    let w : World := ⟨fun
      | _, .otherMarket "a" => .ok ⟨"Q?", false, false, .bool true⟩
      | past, q => (World.still now).answer past q⟩
    let p := worldPass ⟨"m", "u", "M?", .binary, none, none, false, [], none, false⟩ now
    let first := Trigger.otherMarketClosed "a"
    let second := Trigger.otherMarketClosed "b"
    let r := Trigger.any [.not first, second]
    let watched := ((r.watch p []).runFrom .empty []).upshot w [] .empty
    ((second.evaluate p).runFrom .empty).upshot w [] .empty
      = ⟨(.error (.fault (.read (.request ""))), .empty), [⟨.otherMarket "b", .error (.request "")⟩], .empty⟩ ∧
    r.leaves [] = [([0, 0], first), ([1], second)] ∧ watched.result.2 = [⟨[0, 0], first, .ok false⟩] ∧
    watched.result.1.1 = .ok true ∧ ∀ v, v [0, 0] = false → r.truth v [] = true := by
  intro now w p first second r watched
  obtain ⟨-, -, -, -, -, -, hvalue, -⟩ := evaluate_truthful p.market now r .empty w [] .empty
  refine ⟨rfl, rfl, rfl, rfl, fun v hv => (hvalue true rfl).2 v ?_⟩
  exact List.forall_mem_singleton.2 (congrArg Except.ok hv.symm)

end Arbiter
