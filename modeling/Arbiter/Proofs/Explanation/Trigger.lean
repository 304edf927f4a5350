import Arbiter.Proofs.Pass.Memory
import Arbiter.Proofs.Rule.Children
import Arbiter.Proofs.World

/-!
# Triggers are explained as they are evaluated

The explanation of a trigger collects the values of its children until they settle its own, and then combines them; the
evaluation runs through a loop of its own for each connective. Both come to the same in every world.

* `gather`: values asked for one by one until they are enough.
* `Trigger.connect`: the loop of the evaluation at the root, over any work in the place of the children.
* `Trigger.snd_explainNode`: what is collected and combined at a node is what its loop comes to.
* `Trigger.snd_explainIn`: without its lines the explanation of a tree is the evaluation of the tree.
-/

namespace Arbiter

variable {m : Type → Type} [Monad m]

/-! ## Gathered values -/

/-- Values asked for one by one until `settled` says that those so far are enough. -/
def gather (settled : List Bool → Bool) (seen : List Bool) : List (m Bool) → m (List Bool)
  | [] => pure seen
  | work :: rest => do
    let value ← work
    if settled (seen ++ [value]) then pure (seen ++ [value]) else gather settled (seen ++ [value]) rest

variable [LawfulMonad m]

/-- While all that was seen holds, a conjunction is decided by the first that does not. -/
theorem all_gather (works : List (m Bool)) : ∀ seen : List Bool, seen.all id = true →
    (fun values => values.all id) <$> gather (fun values => values.getLast? == some false) seen works = allTrue works := by
  induction works with
  | nil =>
    intro seen hseen
    simp [gather, allTrue, hseen]
  | cons work rest ih =>
    intro seen hseen
    simp only [gather, allTrue, map_bind]
    refine congrArg (work >>= ·) (funext fun value => ?_)
    cases value with
    | true => simpa using ih (seen ++ [true]) (by simp [hseen])
    | false => simp

/-- While nothing that was seen holds, a disjunction is decided by the first that does. -/
theorem any_gather (works : List (m Bool)) : ∀ seen : List Bool, seen.any id = false →
    (fun values => values.any id) <$> gather (fun values => values.getLast? == some true) seen works = anyTrue works := by
  induction works with
  | nil =>
    intro seen hseen
    simp [gather, anyTrue, hseen]
  | cons work rest ih =>
    intro seen hseen
    simp only [gather, anyTrue, map_bind]
    refine congrArg (work >>= ·) (funext fun value => ?_)
    cases value with
    | true => simp
    | false => simpa using ih (seen ++ [false]) (by simp [hseen])

/-- A parity needs all values. -/
theorem parity_gather (works : List (m Bool)) : ∀ seen : List Bool,
    (fun values => values.foldl (· ^^ ·) false) <$> gather (fun _ => false) seen works
      = oddlyMany (seen.foldl (· ^^ ·) false) works := by
  induction works with
  | nil => simp [gather, oddlyMany]
  | cons work rest ih =>
    intro seen
    simp only [gather, oddlyMany, map_bind]
    refine congrArg (work >>= ·) (funext fun value => ?_)
    simpa using ih (seen ++ [value])

/-- While all that was seen is the same, an agreement is decided by the first that differs. -/
theorem agree_gather (works : List (m Bool)) (first : Bool) : ∀ more : List Bool, (∀ v ∈ more, v = first) →
    (fun values => values.all fun v => some v == values.head?) <$>
      gather (fun values => values.head? != values.getLast?) (first :: more) works = allGive first works := by
  induction works with
  | nil =>
    intro more hmore
    have hall : more.all (fun v => v == first) = true := List.all_eq_true.2 fun v hv => beq_iff_eq.2 (hmore v hv)
    simp [gather, allGive, hall]
  | cons work rest ih =>
    intro more hmore
    simp only [gather, allGive, map_bind]
    refine congrArg (work >>= ·) (funext fun value => ?_)
    have hlast : (first :: (more ++ [value])).getLast? = some value := List.getLast?_concat (l := first :: more)
    by_cases hv : value = first
    · subst hv
      have hmore' : ∀ v ∈ more ++ [value], v = value := by
        simpa [or_imp, forall_and] using hmore
      rw [if_neg (by simp [hlast]), if_pos rfl]
      exact ih (more ++ [value]) hmore'
    · have hne : (value == first) = false := beq_eq_false_iff_ne.2 hv
      rw [if_pos (by simp [hlast, Ne.symm hv]), if_neg hv]
      simp [hne]

/-! ## One node -/

namespace Trigger

/-- Whether the root joins the values of children, be there any or not. -/
def isJoint : Trigger → Bool
  | .atTime _ | .thisMarketClosed _ | .pullFinished _ | .otherMarketClosed _ | .otherMarketResolved _ => false
  | _ => true

omit [LawfulMonad m] in
/-- The loop of the evaluation at the root of a trigger, over any work in the place of its children. -/
def connect : Trigger → List (m Bool) → m Bool
  | .not _, [child] => return !(← child)
  | .all _, works | .both _ _, works => allTrue works
  | .any _, works | .either _ _, works => anyTrue works
  | .xor _, works => oddlyMany false works
  | .xnor _, works => allAgree works
  | .nand _ _, works => return !(← allTrue works)
  | .neither _ _, works => return !(← anyTrue works)
  | .implies _ _, [first, second] => impliedBy first second
  | _, _ => pure true

/-- The values gathered at a joint, combined, are what its loop comes to. -/
theorem combine_gather {r : Trigger} (hr : r.isJoint = true) {works : List (m Bool)}
    (hw : works.length = r.children.length) :
    (fun values => r.combine values) <$> gather (fun values => r.settled values) [] works = r.connect works := by
  cases r with
  | not child =>
    obtain ⟨work, rfl⟩ := List.length_eq_one_iff.1 hw
    simp [connect, gather, settled, combine]
  | all children => exact all_gather works [] rfl
  | both first second => exact all_gather works [] rfl
  | any children => exact any_gather works [] rfl
  | either first second => exact any_gather works [] rfl
  | xor children => exact parity_gather works []
  | xnor children =>
    cases works with
    | nil => simp [connect, gather, combine, allAgree]
    | cons work rest =>
      simp only [connect, gather, allAgree, map_bind]
      refine congrArg (work >>= ·) (funext fun value => ?_)
      simpa [settled, combine] using agree_gather rest value [] (by simp)
  | nand first second =>
    simp only [connect, ← all_gather works [] rfl, bind_pure_comp, Functor.map_map]
    rfl
  | neither first second =>
    simp only [connect, ← any_gather works [] rfl, bind_pure_comp, Functor.map_map]
    rfl
  | implies first second =>
    obtain ⟨premise, conclusion, rfl⟩ : ∃ premise conclusion, works = [premise, conclusion] := by
      rcases works with _ | ⟨premise, _ | ⟨conclusion, _ | ⟨_, _⟩⟩⟩
      · cases hw
      · cases hw
      · exact ⟨premise, conclusion, rfl⟩
      · cases hw
    simp only [connect, gather, impliedBy, map_bind]
    refine congrArg (premise >>= ·) (funext fun value => ?_)
    cases value with
    | true => simp [settled, combine]
    | false => simp [settled, combine]
  | _ => cases hr

theorem snd_explainParts (r : Trigger) (parts : List (Part m Bool)) : ∀ seen : List Bool,
    (·.2) <$> r.explainParts seen parts =
      gather (fun values => r.settled values) seen (parts.map fun part => (·.2) <$> part.explained) := by
  induction parts with
  | nil => simp [explainParts, gather]
  | cons part rest ih =>
    intro seen
    simp only [explainParts, gather, List.map_cons, map_bind, bind_map_left]
    refine congrArg (part.explained >>= ·) (funext fun (lines, value) => ?_)
    dsimp only
    split
    · simp
    · simp [← ih (seen ++ [value])]

/-- The explanation of a joint comes to what the loop of its evaluation comes to, whatever stands in the place of its
children. -/
theorem snd_explainNode {r : Trigger} (hr : r.isJoint = true) (depth : Nat) {parts : List (Part m Bool)}
    (hp : parts.length = r.children.length) :
    (·.2) <$> r.explainNode depth parts = r.connect (parts.map fun part => (·.2) <$> part.explained) := by
  rw [← combine_gather hr (by rw [List.length_map, hp]), ← snd_explainParts]
  simp [explainNode]

/-! ## Whole trees -/

variable {p : Pass m}

omit [LawfulMonad m] in
theorem evaluateEach_eq_map (p : Pass m) (rs : List Trigger) : evaluateEach p rs = rs.map fun r => r.evaluate p := by
  induction rs with
  | nil => rfl
  | cons r rest ih => rw [evaluateEach, ih, List.map_cons]

omit [LawfulMonad m] in
theorem parts_eq_map (p : Pass m) (depth : Nat) (rs : List Trigger) :
    parts p depth rs = rs.map fun r => ⟨r.explainIn p depth, r.explainSkipped depth⟩ := by
  induction rs with
  | nil => rfl
  | cons r rest ih => rw [parts, ih, List.map_cons]

omit [LawfulMonad m] in
/-- The evaluation of a joint is its loop over the evaluations of its children. -/
theorem evaluate_joint (p : Pass m) {r : Trigger} (hr : r.isJoint = true) :
    r.evaluate p = r.connect (r.children.map fun c => c.evaluate p) := by
  cases r with
  | all _ | any _ | xor _ | xnor _ => simp only [evaluate, connect, children, evaluateEach_eq_map]
  | not _ | both _ _ | either _ _ | nand _ _ | neither _ _ | implies _ _ =>
    simp only [evaluate, connect, children, List.map_cons, List.map_nil]
  | _ => cases hr

omit [LawfulMonad m] in
/-- The explanation of a joint is that of its node over the explanations of its children. -/
theorem explainIn_joint (p : Pass m) {r : Trigger} (hr : r.isJoint = true) (depth : Nat) :
    r.explainIn p depth =
      r.explainNode depth (r.children.map fun c => ⟨c.explainIn p (depth + 1), c.explainSkipped (depth + 1)⟩) := by
  cases r with
  | all _ | any _ | xor _ | xnor _ => simp only [explainIn, children, parts_eq_map]
  | not _ | both _ _ | either _ _ | nand _ _ | neither _ _ | implies _ _ =>
    simp only [explainIn, children, List.map_cons, List.map_nil]
  | _ => cases hr

theorem snd_explainLeaf (p : Pass m) (r : Trigger) (depth : Nat) (question : Option String) :
    (·.2) <$> explainLeaf p r depth question = r.evaluate p := by
  simp [explainLeaf]

/-- Without its lines the explanation of a trigger is its evaluation. -/
theorem snd_explainIn (p : Pass m) (r : Trigger) : ∀ depth : Nat, (·.2) <$> r.explainIn p depth = r.evaluate p := by
  induction r using children_induction with
  | step r ih =>
    intro depth
    cases hr : r.isJoint with
    | true =>
      rw [explainIn_joint p hr, snd_explainNode hr depth (List.length_map _), evaluate_joint p hr, List.map_map]
      exact congrArg r.connect (List.map_congr_left fun c hc => ih c hc (depth + 1))
    | false =>
      cases r with
      | atTime _ | thisMarketClosed _ | pullFinished _ => exact snd_explainLeaf p _ depth none
      | otherMarketClosed url | otherMarketResolved url =>
        -- the question is read before the value, which is then known
        simp only [explainIn, map_bind, snd_explainLeaf, evaluate]
        exact p.otherMarket_again url _
      | _ => cases hr

/-- Every trigger is explained as it is evaluated. From the same memory and in the same world the explanation has the
value of the evaluation or ends as it does, with the same calls and the same memory. At every joint the evaluation is a loop
over its children, and whatever stands in the place of the children, collecting their values comes to what this loop comes
to. -/
theorem explained_as_evaluated (market : Snapshot) (now : Instant) (r : Trigger) (depth : Nat) (memory : Memory)
    (w : World) (past : List Call) (store : Store) :
    let p := worldPass market now
    let evaluated := ((r.evaluate p).runFrom memory).upshot w past store
    let explained := ((r.explainIn p depth).runFrom memory).upshot w past store
    (explained.result.1.map (·.2) = evaluated.result.1 ∧ explained.result.2 = evaluated.result.2 ∧
      explained.calls = evaluated.calls ∧ explained.store = evaluated.store) ∧
    (r.isJoint = true →
      r.evaluate p = r.connect (r.children.map fun c => c.evaluate p) ∧
      ∀ parts : List (Part Course Bool), parts.length = r.children.length →
        (·.2) <$> r.explainNode depth parts = r.connect (parts.map fun part => (·.2) <$> part.explained)) := by
  intro p evaluated explained
  refine ⟨?_, fun hr => ⟨evaluate_joint p hr, fun parts hp => snd_explainNode hr depth hp⟩⟩
  have hrun : evaluated = ⟨(explained.result.1.map (·.2), explained.result.2), explained.calls, explained.store⟩ := by
    dsimp only [evaluated]
    rw [← snd_explainIn p r depth, PassM.runFrom_map, Course.upshot_map]
  rw [hrun]
  exact ⟨rfl, rfl, rfl, rfl⟩

/-- Of two markets that both have to be closed the second one is not asked for if the first one is open. -/
theorem firstOpen_explained :
    let now : Instant := ⟨1709298000, 0⟩
    let w : World := ⟨fun
      | _, .otherMarket _ => .ok ⟨"Q?", false, false, .bool true⟩
      | past, q => (World.still now).answer past q⟩
    let p := worldPass ⟨"m", "u", "M?", .binary, none, none, false, [], none, false⟩ now
    let first := Trigger.otherMarketClosed "a"
    let second := Trigger.otherMarketClosed "b"
    let r := Trigger.all [first, second]
    let evaluated := ((r.evaluate p).runFrom .empty).upshot w [] .empty
    let explained := ((r.explainIn p 0).runFrom .empty).upshot w [] .empty
    explained.result.1 = .ok ([⟨0, r.phrase, none, some (.value "false")⟩,
      ⟨1, first.phrase, some "Q?", some (.value "false")⟩, ⟨1, second.phrase, none, some .notEvaluated⟩], false) ∧
    evaluated.result.1 = .ok false ∧ evaluated.calls.length = 1 ∧ explained.calls = evaluated.calls ∧
    r.evaluate p = r.connect [first.evaluate p, second.evaluate p] := by
  intro now w p first second r evaluated explained
  obtain ⟨⟨hresult, -, hcalls, -⟩, hjoint⟩ := explained_as_evaluated p.market now r 0 .empty w [] .empty
  exact ⟨rfl, hresult.symm, rfl, hcalls, (hjoint rfl).1⟩

end Trigger

end Arbiter
