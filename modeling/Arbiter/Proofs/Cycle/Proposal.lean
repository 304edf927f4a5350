import Arbiter.Proofs.Pass.Reads

/-!
# What the rules of a market propose

A market is proposed for a value because a trigger of it fires and its one value rule comes to that value.

* `Fires`: the triggers asked one by one up to the first that holds. `NoneFires`: asked one by one, none of them holds.
* `Proposes`: why the rules propose a value.
* `propose_leads`: what is proposed in a check is what the rules propose.
* `propose_nothing`, `propose_of_noneFires`: for an open market nothing is proposed exactly if no trigger holds.
-/

namespace Arbiter

variable {w : World} {past : List Call} {store : Store}

/-! ## Why a value is proposed -/

/-- Some of the triggers turn out false one after another, without a failure, and the next one turns out true. -/
inductive Fires (w : World) (p : Pass Course) :
    (past : List Call) → Memory → List Trigger → (calls : List Call) → Memory → Prop
  | now {past calls : List Call} {memory memory' : Memory} {r : Trigger} {rest : List Trigger}
      (holds : ((r.evaluate p).runFrom memory).Gives w past (.ok true, memory') calls) :
      Fires w p past memory (r :: rest) calls memory'
  | later {past calls more : List Call} {memory memory' memory'' : Memory} {r : Trigger} {rest : List Trigger}
      (fails : ((r.evaluate p).runFrom memory).Gives w past (.ok false, memory') calls)
      (next : Fires w p (past ++ calls) memory' rest more memory'') :
      Fires w p past memory (r :: rest) (calls ++ more) memory''

/-- The triggers turn out false one after another, without a failure, and none is left. -/
inductive NoneFires (w : World) (p : Pass Course) :
    (past : List Call) → Memory → List Trigger → (calls : List Call) → Memory → Prop
  | nil {past : List Call} {memory : Memory} : NoneFires w p past memory [] [] memory
  | cons {past calls more : List Call} {memory memory' memory'' : Memory} {r : Trigger} {rest : List Trigger}
      (fails : ((r.evaluate p).runFrom memory).Gives w past (.ok false, memory') calls)
      (next : NoneFires w p (past ++ calls) memory' rest more memory'') :
      NoneFires w p past memory (r :: rest) (calls ++ more) memory''

/-- After `past` the calls `asked` lead the rules of a market to `v`: a trigger fires, and the one value rule comes to a
value whose shape in this market is `v`. What else was asked was asked for the explanation. -/
def Proposes (w : World) (market : Market) (now : Instant) (past asked : List Call) (v : Outcome) : Prop :=
  ∃ (fired valued shown : List Call) (memory memory' : Memory) (r : ValueRule) (raw : Outcome),
    asked = fired ++ valued ++ shown ∧
    Fires w (worldPass market.snapshot now) past Memory.empty market.triggers fired memory ∧
    market.values = [r] ∧
    ((r.evaluate (worldPass market.snapshot now) [0]).runFrom memory).Gives w (past ++ fired) (.ok raw, memory') valued ∧
    Outcome.conform market.snapshot raw = .ok v ∧
    Readings shown

/-- The triggers asked one by one: those that are asked only read. If the end is that one holds, then they fire, and if it
is that none does, then none fires. -/
theorem anyTrue_gives (market : Snapshot) (now : Instant) :
    ∀ (rs : List Trigger) (memory : Memory) (past : List Call), ∃ result memory' calls,
      ((anyTrue (rs.map (Trigger.evaluate (worldPass market now)))).runFrom memory).Gives w past (result, memory') calls ∧
      Readings calls ∧
      (result = .ok true → Fires w (worldPass market now) past memory rs calls memory') ∧
      (result = .ok false → NoneFires w (worldPass market now) past memory rs calls memory')
  | [], memory, past => ⟨.ok false, memory, [], Course.gives_pure _, readings_nil, nofun, fun _ => .nil⟩
  | r :: rest, memory, past => by
    obtain ⟨⟨result, memory'⟩, calls, hg, hr⟩ := ((passReads market now).trigger r memory).gives w past
    simp only [List.map_cons, anyTrue, PassM.runFrom_bind]
    match result, hg with
    | .error halt, hg =>
      refine ⟨.error halt, memory', calls ++ [], hg.bind (Course.gives_pure _), hr.append readings_nil, nofun, nofun⟩
    | .ok true, hg =>
      refine ⟨.ok true, memory', calls ++ [], hg.bind (Course.gives_pure _), hr.append readings_nil, fun _ => ?_, nofun⟩
      rw [List.append_nil]
      exact .now hg
    | .ok false, hg =>
      obtain ⟨result, memory'', more, hm, hmr, hf, hn⟩ := anyTrue_gives market now rest memory' (past ++ calls)
      refine ⟨result, memory'', calls ++ more, hg.bind hm, hr.append hmr, fun h => .later hg (hf h),
        fun h => .cons hg (hn h)⟩

/-- Where none fires, asking them comes to that. -/
theorem NoneFires.gives {p : Pass Course} {memory memory' : Memory} {rs : List Trigger} {calls : List Call}
    (h : NoneFires w p past memory rs calls memory') :
    ((anyTrue (rs.map (Trigger.evaluate p))).runFrom memory).Gives w past (.ok false, memory') calls := by
  induction h with
  | nil => exact Course.gives_pure _
  | cons fails _ ih =>
    simp only [List.map_cons, anyTrue, PassM.runFrom_bind]
    exact fails.bind ih

/-- A market that should resolve is open, and its triggers fire. One that should not is resolved, or none of them
fires. -/
theorem shouldResolve_gives (market : Market) (now : Instant) (memory : Memory) (past : List Call) :
    ∃ result memory' calls,
      ((market.shouldResolve (worldPass market.snapshot now)).runFrom memory).Gives w past (result, memory') calls ∧
      Readings calls ∧
      (result = .ok true → market.snapshot.isResolved = false ∧
        Fires w (worldPass market.snapshot now) past memory market.triggers calls memory') ∧
      (result = .ok false → market.snapshot.isResolved = true ∨
        NoneFires w (worldPass market.snapshot now) past memory market.triggers calls memory') := by
  unfold Market.shouldResolve
  split
  · rename_i hresolved
    exact ⟨.ok false, memory, [], Course.gives_pure _, readings_nil, nofun, fun _ => .inl hresolved⟩
  · rename_i hopen
    obtain ⟨result, memory', calls, hg, hr, hf, hn⟩ := anyTrue_gives market.snapshot now market.triggers memory past
    exact ⟨result, memory', calls, hg, hr, fun h => ⟨Bool.eq_false_iff.2 hopen, hf h⟩, fun h => .inr (hn h)⟩

theorem ofExcept_gives {α : Type} (w : World) (past : List Call) (memory : Memory) : ∀ r : Except RuleFault α, ∃ result,
    ((PassM.ofExcept r : PassM Course α).runFrom memory).Gives w past (result, memory) [] ∧
      ∀ a, result = .ok a → r = .ok a
  | .ok a => ⟨.ok a, Course.gives_pure _, fun _ h => by cases h; rfl⟩
  | .error fault => ⟨.error (.fault fault), Course.gives_pure _, nofun⟩

/-- What a market should resolve to comes from its only value rule. -/
theorem resolveTo_gives (market : Market) (now : Instant) (memory : Memory) (past : List Call) :
    ∃ result memory' calls,
      ((market.resolveTo (worldPass market.snapshot now)).runFrom memory).Gives w past (result, memory') calls ∧
      Readings calls ∧
      ∀ v, result = .ok v → ∃ r raw, market.values = [r] ∧
        ((r.evaluate (worldPass market.snapshot now) [0]).runFrom memory).Gives w past (.ok raw, memory') calls ∧
        Outcome.conform market.snapshot raw = .ok v := by
  unfold Market.resolveTo
  split
  · rename_i r hv
    obtain ⟨⟨result, memory'⟩, calls, hg, hr⟩ := ((passReads market.snapshot now).value [0] r memory).gives w past
    rw [PassM.runFrom_bind]
    match result, hg with
    | .error halt, hg =>
      exact ⟨.error halt, memory', calls ++ [], hg.bind (Course.gives_pure _), hr.append readings_nil, nofun⟩
    | .ok raw, hg =>
      obtain ⟨result, hc, hok⟩ := ofExcept_gives w (past ++ calls) memory' (Outcome.conform market.snapshot raw)
      refine ⟨result, memory', calls ++ [], hg.bind hc, hr.append readings_nil, fun v h => ?_⟩
      rw [List.append_nil]
      exact ⟨r, raw, hv, hg, hok v h⟩
  · exact ⟨_, _, [], Course.gives_pure _, readings_nil, nofun⟩

/-- The work of a pass inside a cycle: a crash of the rules is one of the cycle. -/
theorem inPass_leads {α : Type} {memory memory' : Memory} {work : PassM Course α} {result : Except Halt α}
    {calls : List Call} (hg : (work.runFrom memory).Gives w past (result, memory') calls)
    {Q : Except Crash (Except RuleFault α × Memory) → List Call → Store → Prop}
    (hok : ∀ a, result = .ok a → Q (.ok (.ok a, memory')) calls store)
    (hfault : ∀ fault, result = .error (.fault fault) → Q (.ok (.error fault, memory')) calls store)
    (hcrash : result = .error .crash → Q (.error .outOfRange) calls store) :
    (CycleM.inPass memory work).Leads w past store Q := by
  unfold CycleM.inPass
  rw [CycleM.leads_bind, CycleM.leads_call]
  refine hg.leads ?_
  match result with
  | .ok a => simpa using hok a rfl
  | .error (.fault fault) => simpa using hfault fault rfl
  | .error .crash => simpa using hcrash rfl

/-- What is proposed for a market was asked of the rules only, and the rules propose it. -/
theorem propose_leads (journal : Bool) (market : Market) (now : Instant) :
    (propose (services journal) market now).Leads w past store fun result calls _ =>
      Readings calls ∧
      ∀ proposal, result = .ok (.ok (some proposal)) →
        market.snapshot.isResolved = false ∧ Proposes w market now past calls proposal.value := by
  unfold propose
  obtain ⟨fires, memory, fired, hg, hr, hf, -⟩ := shouldResolve_gives (w := w) market now Memory.empty past
  rw [CycleM.leads_bind]
  refine inPass_leads hg (fun b hb => ?_) (fun fault _ => ?_) (fun _ => ⟨hr, fun _ h => by cases h⟩)
  · cases b with
    | false =>
      dsimp only
      rw [CycleM.leads_pure]
      exact ⟨hr.append readings_nil, fun _ h => by cases h⟩
    | true =>
      obtain ⟨hopen, hfires⟩ := hf hb
      obtain ⟨value, memory', valued, hv, hvr, hval⟩ := resolveTo_gives (w := w) market now memory (past ++ fired)
      dsimp only
      rw [CycleM.leads_bind]
      refine inPass_leads hv (fun v h => ?_) (fun fault _ => ?_) (fun _ => ⟨hr.append hvr, fun _ h => by cases h⟩)
      · obtain ⟨⟨explained, memory''⟩, shown, hs, hsr⟩ :=
          ((passReads market.snapshot now).explainIn market memory').gives w (past ++ fired ++ valued)
        obtain ⟨r, raw, hvalues, hraw, hconform⟩ := hval v h
        have hasked : Readings (fired ++ (valued ++ shown)) := hr.append (hvr.append hsr)
        -- the rules are explained once the value is settled, which only adds to what was asked
        have hproposes : Proposes w market now past (fired ++ (valued ++ shown)) v :=
          ⟨fired, valued, shown, memory, memory', r, raw, (List.append_assoc _ _ _).symm, hfires, hvalues, hraw,
            hconform, hsr⟩
        dsimp only
        rw [CycleM.leads_bind]
        refine inPass_leads hs (fun e _ => ?_) (fun fault _ => ?_) (fun _ => ⟨hasked, fun _ h => by cases h⟩)
        all_goals
          simp only [CycleM.leads_bind, CycleM.leads_call, CycleM.leads_pure, services, Course.leads_pure, List.append_nil]
          exact ⟨hasked, fun proposal hp => by cases hp; exact ⟨hopen, hproposes⟩⟩
      · dsimp only
        rw [CycleM.leads_pure]
        exact ⟨hr.append (hvr.append readings_nil), fun _ h => by cases h⟩
  · dsimp only
    rw [CycleM.leads_pure]
    exact ⟨hr.append readings_nil, fun _ h => by cases h⟩

/-- Where nothing is proposed the market is resolved, or none of its triggers fires. -/
theorem propose_nothing (journal : Bool) (market : Market) (now : Instant) :
    (propose (services journal) market now).Leads w past store fun result calls _ =>
      result = .ok (.ok none) → market.snapshot.isResolved = true ∨
        ∃ memory, NoneFires w (worldPass market.snapshot now) past Memory.empty market.triggers calls memory := by
  unfold propose
  obtain ⟨fires, memory, fired, hg, -, -, hn⟩ := shouldResolve_gives (w := w) market now Memory.empty past
  rw [CycleM.leads_bind]
  refine inPass_leads hg (fun b hb => ?_) (fun fault _ => CycleM.leads_pure.2 nofun) (fun _ => nofun)
  cases b with
  | false =>
    refine CycleM.leads_pure.2 fun _ => ?_
    rw [List.append_nil]
    exact (hn hb).imp_right fun hnone => ⟨memory, hnone⟩
  | true =>
    -- from here on something is proposed, or the rules fail or crash
    refine CycleM.leads_bind.2 (Course.leads_of_upshot fun valued _ _ _ => ?_)
    match valued with
    | .error _ => exact nofun
    | .ok (.error _, _) => exact CycleM.leads_pure.2 nofun
    | .ok (.ok value, memory) =>
      refine CycleM.leads_bind.2 (Course.leads_of_upshot fun explained _ _ _ => ?_)
      match explained with
      | .error _ => exact nofun
      | .ok (.ok e, _) => exact CycleM.leads_pure.2 nofun
      | .ok (.error fault, _) =>
        dsimp only
        rw [CycleM.leads_bind, CycleM.leads_call]
        exact nofun

/-- For an open market nothing is proposed where none of its triggers fires. -/
theorem propose_of_noneFires (journal : Bool) {market : Market} {now : Instant} (hopen : market.snapshot.isResolved = false)
    {asked : List Call} {memory : Memory}
    (h : NoneFires w (worldPass market.snapshot now) past Memory.empty market.triggers asked memory) :
    (propose (services journal) market now).Leads w past store fun result calls _ =>
      result = .ok (.ok none) ∧ calls = asked := by
  have hshould : market.shouldResolve (worldPass market.snapshot now) =
      anyTrue (market.triggers.map (Trigger.evaluate (worldPass market.snapshot now))) :=
    if_neg (Bool.eq_false_iff.1 hopen)
  have hg : ((market.shouldResolve (worldPass market.snapshot now)).runFrom Memory.empty).Gives w past
      (.ok false, memory) asked := hshould ▸ h.gives
  unfold propose
  rw [CycleM.leads_bind]
  refine inPass_leads hg (fun b hb => ?_) nofun nofun
  cases hb
  exact CycleM.leads_pure.2 ⟨rfl, List.append_nil _⟩

end Arbiter
