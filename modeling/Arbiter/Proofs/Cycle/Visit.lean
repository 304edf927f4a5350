import Arbiter.Proofs.Cycle.Exits
import Arbiter.Proofs.Cycle.Law

/-!
# What becomes of one market

What becomes of a market in the loop depends on what its check comes to, and that depends on nothing but the answers of
the world from there on that bear on a market.

* `Course.EndsAlike`: work that comes to the same where the world answers alike, and leaves the store alone.
  `checkMarket_endsAlike`: a check is of this kind. `checkOutcome`: what it comes to.
* `checkOutcome_notDue`, `checkOutcome_resolved`, `checkOutcome_untriggered`: the checks that decide nothing.
* `RowEffect`: what is done to a row. `visit`: what becomes of a row, and what is counted.
* `processMarket_visits`: dealing with a market is its visit.
-/

namespace Arbiter

/-! ## Work that comes to the same -/

namespace Course

variable {α β : Type} {w w' : World} {past past' : List Call}

/-- On every store the work comes to this result, and leaves the store as it is. -/
def Yields (x : Course α) (w : World) (past : List Call) (a : α) : Prop :=
  ∀ store, ∃ calls, x.upshot w past store = ⟨a, calls, store⟩

/-- Where the world answers alike the work makes the same calls and comes to the same, on every store. -/
def GoesAlike (x : Course α) : Prop :=
  ∀ w w' past past', Alike w w' past past' → ∃ a calls, x.Gives w past a calls ∧ x.Gives w' past' a calls

/-- Where the world answers alike the work comes to the same, on every store. -/
def EndsAlike (x : Course α) : Prop :=
  ∀ w w' past past', Alike w w' past past' → ∃ a, x.Yields w past a ∧ x.Yields w' past' a

theorem goesAlike_ask {q : Question} (hq : q.bears = true) : (ask q).GoesAlike := fun w w' past past' h => by
  refine ⟨w.answer past q, [⟨q, w.answer past q⟩], gives_ask q, ?_⟩
  rw [h.answer hq]
  exact gives_ask q

/-- Whatever only reads goes alike, and so does work after work. -/
theorem goesAlikeLaw : CourseLaw fun x => x.GoesAlike where
  pure a _ _ _ _ _ := ⟨a, [], gives_pure a, gives_pure a⟩
  bind hx hf w w' past past' h := by
    obtain ⟨a, calls, ha, ha'⟩ := hx w w' past past' h
    obtain ⟨b, more, hb, hb'⟩ := hf a w w' (past ++ calls) (past' ++ calls) (h.append calls)
    exact ⟨b, calls ++ more, ha.bind hb, ha'.bind hb'⟩
  reads hx w w' past past' h := by
    obtain ⟨a, calls, ha, ha', -⟩ := hx w w' past past' h
    exact ⟨a, calls, ha, ha'⟩

theorem goesAlike_pure (a : α) : (pure a : Course α).GoesAlike := goesAlikeLaw.pure a

theorem GoesAlike.endsAlike {x : Course α} (hx : x.GoesAlike) : x.EndsAlike := fun w w' past past' h => by
  obtain ⟨a, calls, ha, ha'⟩ := hx w w' past past' h
  exact ⟨a, fun store => ⟨calls, ha store⟩, fun store => ⟨calls, ha' store⟩⟩

theorem Gives.yields {x : Course α} {f : α → Course β} {a : α} {b : β} {calls : List Call} (hx : x.Gives w past a calls)
    (hf : (f a).Yields w (past ++ calls) b) : (x >>= f).Yields w past b := fun store => by
  obtain ⟨more, hm⟩ := hf store
  exact ⟨calls ++ more, by rw [upshot_bind_of (hx store), hm]⟩

/-- Work that comes to the same after work that goes the same way. -/
theorem GoesAlike.bind_endsAlike {x : Course α} {f : α → Course β} (hx : x.GoesAlike) (hf : ∀ a, (f a).EndsAlike) :
    (x >>= f).EndsAlike := fun w w' past past' h => by
  obtain ⟨a, calls, ha, ha'⟩ := hx w w' past past' h
  obtain ⟨b, hb, hb'⟩ := hf a w w' (past ++ calls) (past' ++ calls) (h.append calls)
  exact ⟨b, ha.yields hb, ha'.yields hb'⟩

/-- Work after which the same is given anyway. -/
theorem endsAlike_of_keeps {x : Course α} {b : β}
    (hx : ∀ w past store, x.Leads w past store fun _ _ store' => store' = store) :
    (x >>= fun _ => pure b).EndsAlike := by
  have hy : ∀ w past, (x >>= fun _ => pure b).Yields w past b := fun w past store => by
    have hs : (x.upshot w past store).store = store := hx w past store
    refine ⟨(x.upshot w past store).calls ++ [], ?_⟩
    rw [upshot_bind, upshot_pure, hs]
  exact fun w w' past past' _ => ⟨b, hy w past, hy w' past'⟩

end Course

namespace CycleM

variable {α β : Type}

theorem endsAlike_call {x : Course α} (hx : x.EndsAlike) : (ExceptT.run (CycleM.call x)).EndsAlike := by
  intro w w' past past' h
  obtain ⟨a, ha, ha'⟩ := hx w w' past past' h
  have hy : ∀ {w past}, x.Yields w past a → (ExceptT.run (CycleM.call x)).Yields w past (.ok a) := fun ha store => by
    obtain ⟨calls, hc⟩ := ha store
    exact ⟨calls ++ [], Course.upshot_bind_of hc⟩
  exact ⟨.ok a, hy ha, hy ha'⟩

theorem endsAlike_bind {x : CycleM Course α} {f : α → CycleM Course β} (hx : (ExceptT.run x).GoesAlike)
    (hf : ∀ a, (ExceptT.run (f a)).EndsAlike) : (ExceptT.run (x >>= f)).EndsAlike :=
  hx.bind_endsAlike fun
    | .ok a => hf a
    | .error e => (Course.goesAlike_pure (Except.error e)).endsAlike

end CycleM

/-! ## Checks -/

/-- A decision is applied wherever the world answers alike. -/
theorem applyDecision_goesAlike (journal dryRun : Bool) (market : Market) (proposal : Proposal) (decision : Decision) :
    (applyDecision (services journal) dryRun market proposal decision).GoesAlike := by
  cases decision <;> cases dryRun <;>
    first
      | exact Course.goesAlike_ask rfl
      | exact Course.goesAlikeLaw.bind (Course.goesAlike_pure ()) fun _ => Course.goesAlike_pure _

theorem settle_endsAlike (journal dryRun : Bool) (market : Market) (now : Instant) (proposal : Proposal) :
    (settle (services journal) dryRun market now proposal).EndsAlike :=
  (Course.goesAlike_pure ()).bind_endsAlike fun _ => (Course.goesAlike_ask rfl).bind_endsAlike fun
    | .error failure => (Course.goesAlike_pure (Except.error failure, market)).endsAlike
    | .ok _ => (applyDecision_goesAlike journal dryRun market proposal _).bind_endsAlike fun
      | .error failure => (Course.goesAlike_pure (Except.error failure, market)).endsAlike
      | .ok () => Course.endsAlike_of_keeps fun _ _ _ =>
          (recordDecision_leads journal market now proposal _ _).mono fun _ _ _ h => h.2

theorem checkFresh_endsAlike (journal dryRun : Bool) (market : Market) (now : Instant) :
    (ExceptT.run (checkFresh (services journal) dryRun market now)).EndsAlike := by
  have law := Course.goesAlikeLaw
  unfold checkFresh
  split
  · exact CycleM.endsAlike_bind (law.call (law.pure ())) fun _ => (law.ok _).endsAlike
  · exact CycleM.endsAlike_bind (law.propose journal market now) fun
      | .error fault => (law.ok _).endsAlike
      | .ok none => (law.ok _).endsAlike
      | .ok (some proposal) => CycleM.endsAlike_call (settle_endsAlike journal dryRun market now proposal)

/-- A check comes to the same wherever the world answers alike. -/
theorem checkMarket_endsAlike (journal dryRun : Bool) (market : Market) (refresh : Bool) (now : Instant) :
    (ExceptT.run (checkMarket (services journal) dryRun market refresh now)).EndsAlike :=
  have law := Course.goesAlikeLaw
  CycleM.endsAlike_bind (law.isWanted market refresh now) fun
    | false => (law.ok _).endsAlike
    | true => CycleM.endsAlike_bind (law.call (Course.goesAlike_ask rfl)) fun
      | .error _ => (law.ok _).endsAlike
      | .ok snapshot => checkFresh_endsAlike journal dryRun (market.refresh snapshot) now

/-- What the check of a market comes to after some calls. -/
def checkOutcome (w : World) (journal dryRun refresh : Bool) (now : Instant) (past : List Call) (market : Market) :
    Except Crash (Except Failure CheckState × Market) :=
  ((ExceptT.run (checkMarket (services journal) dryRun market refresh now)).upshot w past Store.empty).result

section

variable {w w' : World} {past past' : List Call} {store : Store}

/-- Whatever the store. -/
theorem checkMarket_yields (journal dryRun refresh : Bool) (now : Instant) (market : Market) :
    (ExceptT.run (checkMarket (services journal) dryRun market refresh now)).Yields w past
      (checkOutcome w journal dryRun refresh now past market) := by
  obtain ⟨a, ha, -⟩ := checkMarket_endsAlike journal dryRun market refresh now w w past past (alike_refl w past)
  obtain ⟨calls, hc⟩ := ha Store.empty
  unfold checkOutcome
  rw [hc]
  exact ha

/-- The check of a market comes to that and leaves the store alone. -/
theorem checkMarket_comesTo (journal dryRun refresh : Bool) (now : Instant) (market : Market) :
    (checkMarket (services journal) dryRun market refresh now).Leads w past store fun result _ store' =>
      result = checkOutcome w journal dryRun refresh now past market ∧ store' = store := by
  obtain ⟨calls, hc⟩ := checkMarket_yields (w := w) journal dryRun refresh now market store
  exact Course.leads_of_upshot fun a calls' store' hu => by
    rw [hc] at hu
    cases hu
    exact ⟨rfl, rfl⟩

theorem checkOutcome_eq (h : Alike w w' past past') (journal dryRun refresh : Bool) (now : Instant) (market : Market) :
    checkOutcome w journal dryRun refresh now past market = checkOutcome w' journal dryRun refresh now past' market := by
  obtain ⟨a, ha, ha'⟩ := checkMarket_endsAlike journal dryRun market refresh now w w' past past' h
  obtain ⟨calls, hc⟩ := ha Store.empty
  obtain ⟨calls', hc'⟩ := ha' Store.empty
  unfold checkOutcome
  rw [hc, hc']

/-- What comes out of a check that did not fail: the market with a fresh snapshot, checked now unless it was found
resolved. -/
theorem checkOutcome_market {journal dryRun refresh : Bool} {now : Instant} {market market' : Market} {state : CheckState}
    (hd : refresh = true ∨ market.isDue now = some true)
    (h : checkOutcome w journal dryRun refresh now past market = .ok (.ok state, market')) :
    ∃ fresh, w.answer past (.snapshot market.snapshot.id) = .ok fresh ∧
      (market' = market.refresh fresh ∧ state = .resolved ∧ fresh.isResolved = true ∨
        market' = (market.refresh fresh).markChecked now) := by
  have hexit : CheckExit w past market refresh now (.ok state, market') :=
    @checkMarket_exits w past Store.empty journal dryRun market refresh now _ h
  cases hexit with
  | notDue hr hn =>
    subst hr
    exact absurd hd (Market.not_wanted hn)
  | @fetched fresh _ _ hf he =>
    refine ⟨fresh, hf, ?_⟩
    cases he with
    | resolved hr => exact .inl ⟨rfl, rfl, hr⟩
    | checked => exact .inr rfl

/-- A market that is not due is left alone. -/
theorem checkOutcome_notDue (journal dryRun : Bool) {now : Instant} {market : Market}
    (hd : market.isDue now = some false) :
    checkOutcome w journal dryRun false now past market = .ok (.ok .idle, market) := by
  have hw : isWanted market false now = (pure false : CycleM Course Bool) := by
    unfold isWanted
    rw [if_neg Bool.false_ne_true, hd]
    rfl
  unfold checkOutcome checkMarket
  rw [hw, pure_bind, if_neg Bool.false_ne_true]
  rfl

/-- The check of a market that was fetched is the check of the fresh one. -/
theorem checkOutcome_fetched {journal dryRun refresh : Bool} {now : Instant} {market : Market} {fresh : Snapshot}
    (hw : market.Wanted refresh now) (hf : w.answer past (.snapshot market.snapshot.id) = .ok fresh)
    {ends : Except Crash (Except Failure CheckState × Market)}
    (h : (checkFresh (services journal) dryRun (market.refresh fresh) now).Leads w
      (past ++ [⟨.snapshot market.snapshot.id, .ok fresh⟩]) Store.empty fun result _ _ => result = ends) :
    checkOutcome w journal dryRun refresh now past market = ends := by
  have hcheck : (checkMarket (services journal) dryRun market refresh now).Leads w past Store.empty
      fun result _ _ => result = ends := by
    unfold checkMarket
    rw [isWanted_of_wanted hw, pure_bind, if_pos rfl, CycleM.leads_call_bind]
    refine Course.leads_ask.2 ?_
    rw [hf]
    exact h
  exact hcheck

/-- A market that is found resolved is done with. -/
theorem checkOutcome_resolved (journal dryRun : Bool) {refresh : Bool} {now : Instant} {market : Market} {fresh : Snapshot}
    (hw : market.Wanted refresh now) (hf : w.answer past (.snapshot market.snapshot.id) = .ok fresh)
    (hr : fresh.isResolved = true) :
    checkOutcome w journal dryRun refresh now past market = .ok (.ok .resolved, market.refresh fresh) := by
  refine checkOutcome_fetched hw hf ?_
  have hresolved : (market.refresh fresh).snapshot.isResolved = true := hr
  unfold checkFresh
  rw [if_pos hresolved, CycleM.leads_call_bind]
  exact Course.leads_pure.2 (CycleM.leads_pure.2 rfl)

/-- An open market of which no trigger holds is idle. -/
theorem checkOutcome_untriggered (journal dryRun : Bool) {refresh : Bool} {now : Instant} {market : Market}
    {fresh : Snapshot} (hw : market.Wanted refresh now) (hf : w.answer past (.snapshot market.snapshot.id) = .ok fresh)
    (hopen : fresh.isResolved = false) {asked : List Call} {memory : Memory}
    (hnone : NoneFires w (worldPass fresh now) (past ++ [⟨.snapshot market.snapshot.id, .ok fresh⟩]) Memory.empty
      market.triggers asked memory) :
    checkOutcome w journal dryRun refresh now past market = .ok (.ok .idle, (market.refresh fresh).markChecked now) := by
  refine checkOutcome_fetched hw hf ?_
  have hopen' : (market.refresh fresh).snapshot.isResolved = false := hopen
  unfold checkFresh
  rw [if_neg (Bool.eq_false_iff.1 hopen')]
  refine (propose_of_noneFires journal hopen' hnone).bind (fun proposed _ _ h => ?_) fun _ _ _ h => nomatch h.1
  obtain ⟨hnothing, -⟩ := h
  cases hnothing
  exact CycleM.leads_pure.2 rfl

end

/-! ## Visits -/

/-- What is done to a row. -/
inductive RowEffect where
  | keep
  | remove
  | rewrite (market : Market)

namespace RowEffect

/-- The row after it. -/
def row (kept : MarketRow) : RowEffect → Option MarketRow
  | .keep => some kept
  | .remove => none
  | .rewrite market => some (Store.rowOfMarket market)

/-- The store after it. -/
def apply (row : Int) (store : Store) : RowEffect → Store
  | .keep => store
  | .remove => { store with markets := store.markets.map fun table => table.remove row }
  | .rewrite market =>
    { store with markets := store.markets.map fun table => table.replace row (Store.rowOfMarket market) }

end RowEffect

instance : Add CycleSummary := ⟨fun a b =>
  ⟨a.created + b.created, a.checked + b.checked, a.resolved + b.resolved, a.cancelled + b.cancelled,
    a.skipped + b.skipped, a.failed + b.failed⟩⟩

instance : Zero CycleSummary := ⟨{}⟩

/-- What becomes of a market, and what is counted for it. -/
def visit (w : World) (journal dryRun refresh : Bool) (now : Instant) (past : List Call) (market : Market) :
    Except Crash (RowEffect × CycleSummary) :=
  match if refresh then some true else market.isDue now with
  | none => .error .outOfRange
  | some false => .ok (.keep, {})
  | some true =>
    match checkOutcome w journal dryRun refresh now past market with
    | .error crash => .error crash
    | .ok (.error _, _) => .ok (.keep, { checked := 1, failed := 1 })
    | .ok (.ok state, market) =>
      .ok (if isFinished dryRun market state then .remove else .rewrite market,
        CycleSummary.countState { checked := 1 } state)

section

variable {w w' : World} {past past' : List Call} {store : Store}

theorem visit_eq (h : Alike w w' past past') (journal dryRun refresh : Bool) (now : Instant) (market : Market) :
    visit w journal dryRun refresh now past market = visit w' journal dryRun refresh now past' market := by
  unfold visit
  rw [checkOutcome_eq h]

theorem count_failed (summary : CycleSummary) :
    summary.countCheck.countFailure = summary + { checked := 1, failed := 1 } := rfl

theorem count_state (summary : CycleSummary) (state : CheckState) :
    summary.countCheck.countState state = summary + CycleSummary.countState { checked := 1 } state := by
  cases state <;> rfl

/-- While the store can be worked on, the checked market is stored. -/
theorem storeChecked_stores (hopen : ∀ past, w.answer past .access = none) {table : Table MarketRow}
    (hm : store.markets = some table) (journal dryRun : Bool) (row : Int) (market : Market) (state : CheckState) :
    (storeChecked (services journal) dryRun row market state).Leads w past store fun stored _ store' =>
      stored = true ∧
        store' = (if isFinished dryRun market state then RowEffect.remove else .rewrite market).apply row store := by
  obtain ⟨_, pending⟩ := store
  cases hm
  have hw : (writeChecked (services journal) dryRun row market state).Leads w past ⟨some table, pending⟩
      fun written _ store' => written = .ok () ∧
        store' = (if isFinished dryRun market state then RowEffect.remove else .rewrite market).apply row
          ⟨some table, pending⟩ := by
    unfold writeChecked
    split
    · refine Course.leads_bind.2 (Course.leads_store.2 ?_)
      rw [hopen, Store.run_removeMarket]
      exact ⟨rfl, rfl⟩
    · refine Course.leads_store.2 ?_
      rw [hopen, Store.run_updateMarket]
      exact ⟨rfl, rfl⟩
  refine hw.bind fun written _ _ h => ?_
  rw [h.1]
  exact ⟨rfl, h.2⟩

theorem isWanted_eq (market : Market) (refresh : Bool) (now : Instant) :
    (isWanted market refresh now : CycleM Course Bool) =
      CycleM.orCrash (if refresh then some true else market.isDue now) := by
  cases refresh <;> rfl

/-- Dealing with a market is its visit. -/
theorem processMarket_visits (hopen : ∀ past, w.answer past .access = none) {table : Table MarketRow}
    (hm : store.markets = some table) (journal dryRun refresh : Bool) (now : Instant) (past : List Call)
    (summary : CycleSummary) (row : Int) (market : Market) :
    (processMarket (services journal) dryRun refresh now summary row market).Leads w past store fun result _ store' =>
      match visit w journal dryRun refresh now past market with
      | .error crash => result = .error crash ∧ store' = store
      | .ok (effect, count) => result = .ok (summary + count) ∧ store' = effect.apply row store := by
  unfold visit processMarket
  rw [isWanted_eq]
  match if refresh then some true else market.isDue now with
  | none =>
    refine CycleM.leads_bind.2 ?_
    exact ⟨rfl, rfl⟩
  | some false => exact ⟨rfl, rfl⟩
  | some true =>
    change CycleM.Leads (pure true >>= _) w past store _
    rw [pure_bind, if_pos rfl]
    have hcheck := @checkMarket_comesTo w past store journal dryRun refresh now market
    refine hcheck.bind (fun checked calls store' h => ?_) fun crash _ _ h => ?_
    · obtain ⟨ho, rfl⟩ := h
      rw [← ho]
      match checked with
      | (.error failure, market') =>
        dsimp only
        rw [CycleM.leads_call_bind]
        refine (reportFailure_leads journal market' failure).mono fun _ _ _ h => ?_
        exact ⟨congrArg Except.ok (count_failed summary), h.2⟩
      | (.ok state, market') =>
        dsimp only
        rw [CycleM.leads_call_bind]
        refine (storeChecked_stores hopen hm journal dryRun row market' state).mono fun stored _ _ h => ?_
        obtain ⟨rfl, rfl⟩ := h
        exact ⟨congrArg Except.ok (count_state summary state), rfl⟩
    · rw [← h.1]
      exact ⟨rfl, h.2⟩

end

end Arbiter
