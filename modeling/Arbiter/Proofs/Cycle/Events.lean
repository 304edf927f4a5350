import Arbiter.Proofs.Cycle.Justified
import Arbiter.Proofs.Cycle.Loop
import Arbiter.Proofs.Cycle.Queue
import Arbiter.Proofs.Store.Numbers

/-!
# The events of a run

A run consists of cycles, with other work on the store between them. What matters in it happens in its events: the turn of
a queued request, the visit of a stored market, or an edit of the store.

* `RunStep`, `runSteps`: runs. `Event`, `runEvents`: the events of a run, each with its calls and with the store before and
  after it.
* `Serves`, `VisitsRow`: what the turn of a request and the visit of a market do.
-/

namespace Arbiter

/-! ## Runs -/

/-- Work on the store that is no part of a cycle. -/
inductive StoreEdit where
  | insert (market : Market)
  | update (row : Int) (market : Market)
  | remove (row : Int)
  | queue (request : CreationRequest) (priority : Float) (cost : Int)
  | dequeue (row : Int)

/-- What an edit does. -/
def StoreEdit.work : StoreEdit → StoreM Unit
  | .insert market => do
    let _ ← Store.insertMarket market
    pure ()
  | .update row market => Store.updateMarket row market
  | .remove row => do
    let _ ← Store.removeMarket row
    pure ()
  | .queue request priority cost => do
    let _ ← Store.queueRequest request priority cost
    pure ()
  | .dequeue row => do
    let _ ← Store.removePending row
    pure ()

/-- One step of a run: a cycle, or an edit of the store between two cycles. -/
inductive RunStep where
  | cycle (refresh : Bool)
  | edit (e : StoreEdit)

section

variable {m : Type → Type} [Monad m] (s : Services m) (dryRun : Bool)

/-- What is done in a step. A crash ends its cycle only. -/
def RunStep.work : RunStep → m Unit
  | .cycle refresh => do
    let _ ← ExceptT.run (runCycle s dryRun refresh)
    pure ()
  | .edit e => do
    let _ ← s.store e.work
    pure ()

/-- Steps one after another. -/
def runSteps : List RunStep → m Unit
  | [] => pure ()
  | step :: rest => do
    step.work s dryRun
    runSteps rest

/-- The part of a cycle before its checks: how many markets were created, the moment of the checks, and the markets. -/
def openCycle : m (Except Failure (Nat × Instant × List (Int × Market))) := do
  match ← processPending s dryRun with
  | .error failure => pure (.error failure)
  | .ok created =>
    let now ← s.clock
    match ← s.load .markets Store.loadMarkets with
    | .error failure => pure (.error failure)
    | .ok markets => pure (.ok (created, now, markets))

variable [LawfulMonad m]

theorem CycleM.call_bind {α β : Type} (x : m α) (f : α → m β) :
    CycleM.call (x >>= f) = CycleM.call x >>= fun a => CycleM.call (f a) := by
  unfold CycleM.call
  exact ExceptT.ext (by simp)

omit [LawfulMonad m] in
theorem CycleM.call_pure {α : Type} [LawfulMonad m] (a : α) : CycleM.call (pure a : m α) = pure a := by
  unfold CycleM.call
  exact ExceptT.ext (by simp)

/-- A cycle is its opening and then its checks. -/
theorem runCycle_opened (refresh : Bool) :
    runCycle s dryRun refresh = (do
      match ← CycleM.call (openCycle s dryRun) with
      | .error failure => pure (.error failure)
      | .ok (created, now, markets) =>
        let summary ← processMarkets s dryRun refresh now { created } markets
        CycleM.call (s.notify (.cycleDone summary))
        pure (.ok summary)) := by
  unfold runCycle checkAll openCycle
  rw [CycleM.call_bind, bind_assoc]
  refine bind_congr fun created => ?_
  match created with
  | .error _ => dsimp only; rw [CycleM.call_pure, pure_bind]
  | .ok created =>
    dsimp only
    rw [CycleM.call_bind, bind_assoc]
    refine bind_congr fun now => ?_
    rw [CycleM.call_bind, bind_assoc, bind_assoc]
    refine bind_congr fun loaded => ?_
    match loaded with
    | .error _ => dsimp only; rw [CycleM.call_pure, pure_bind, pure_bind]
    | .ok markets => simp only [CycleM.call_pure, bind_assoc, pure_bind]

end

/-! ## Events -/

namespace Call

/-- Whether a call settles a market: it resolves or cancels it, and that succeeds. -/
def settles : Call → Bool
  | ⟨.resolve _ _, (answer : Except Failure Unit)⟩ | ⟨.cancel _, (answer : Except Failure Unit)⟩ => answer.isOk
  | _ => false

/-- Whether a call makes a market: a creation that succeeds. -/
def makes : Call → Bool
  | ⟨.create _, (answer : Except Failure Snapshot)⟩ => answer.isOk
  | _ => false

/-- Whether a call fetches a managed market. -/
def fetches : Call → Bool
  | ⟨.snapshot _, _⟩ => true
  | _ => false

end Call

/-- What an event is about. -/
inductive Subject where
  | edit
  | request (row : Int)
  | market (row : Int) (refresh : Bool) (now : Instant)
deriving DecidableEq

/-- Something that happens in a run after the calls `past`. -/
structure Event where
  subject : Subject
  past : List Call
  calls : List Call
  before : Store
  after : Store

/-- The event of some work. -/
def Course.event {α : Type} (x : Course α) (subject : Subject) (w : World) (past : List Call) (store : Store) : Event :=
  ⟨subject, past, (x.upshot w past store).calls, store, (x.upshot w past store).store⟩

section

variable (s : Services Course) (dryRun : Bool) (w : World)

/-- The turns of some requests one after another. -/
def requestEvents : List Call → Store → List PendingRequest → List Event
  | _, _, [] => []
  | past, store, pending :: rest =>
    let e := (processRequest s dryRun pending).event (.request pending.row) w past store
    e :: requestEvents (past ++ e.calls) e.after rest

/-- The visits of some markets one after another, up to a crash. -/
def marketEvents (refresh : Bool) (now : Instant) : List Call → Store → CycleSummary → List (Int × Market) → List Event
  | _, _, _, [] => []
  | past, store, summary, (row, market) :: rest =>
    let visit := ExceptT.run (processMarket s dryRun refresh now summary row market)
    let e := visit.event (.market row refresh now) w past store
    e :: match (visit.upshot w past store).result with
      | .error _ => []
      | .ok summary => marketEvents refresh now (past ++ e.calls) e.after summary rest

/-- The turns of the requests that can be read when the queue is dealt with. -/
def queueEvents (past : List Call) (store : Store) : List Event :=
  let loaded := (s.load .pending Store.loadPending).upshot w past store
  match loaded.result with
  | .error _ => []
  | .ok requests => requestEvents s dryRun w (past ++ loaded.calls) loaded.store requests

/-- The visits after the opening of a cycle. -/
def checkEvents (refresh : Bool) (past : List Call) (store : Store) : List Event :=
  let opened := (openCycle s dryRun).upshot w past store
  match opened.result with
  | .error _ => []
  | .ok (created, now, markets) =>
    marketEvents s dryRun w refresh now (past ++ opened.calls) opened.store { created } markets

/-- The events of a step. -/
def RunStep.events (past : List Call) (store : Store) : RunStep → List Event
  | .cycle refresh => queueEvents s dryRun w past store ++ checkEvents s dryRun w refresh past store
  | .edit e => [(s.store e.work).event .edit w past store]

/-- The events of a run. -/
def runEvents : List Call → Store → List RunStep → List Event
  | _, _, [] => []
  | past, store, step :: rest =>
    let done := (step.work s dryRun).upshot w past store
    step.events s dryRun w past store ++ runEvents (past ++ done.calls) done.store rest

end

/-! ## Writes of a visit -/

/-- How many markets some calls settle. -/
def settlements (calls : List Call) : Nat := calls.countP Call.settles

/-- How many markets some calls make. -/
def makings (calls : List Call) : Nat := calls.countP Call.makes

theorem settlements_append (calls more : List Call) : settlements (calls ++ more) = settlements calls + settlements more :=
  List.countP_append

theorem makings_append (calls more : List Call) : makings (calls ++ more) = makings calls + makings more :=
  List.countP_append

theorem Call.isWrite_of_settles {c : Call} (h : c.settles = true) : c.question.isWrite = true := by
  obtain ⟨question, answer⟩ := c
  cases question <;> first | rfl | cases h

theorem Call.isWrite_of_makes {c : Call} (h : c.makes = true) : c.question.isWrite = true := by
  obtain ⟨question, answer⟩ := c
  cases question <;> first | rfl | cases h

/-- Nothing is changed on the platform. -/
def Harmless (calls : List Call) : Prop := ∀ c ∈ calls, c.question.isWrite = false

theorem Quiet.harmless {calls : List Call} (h : Quiet calls) : Harmless calls := fun c hc => (h c hc).2

theorem harmless_nil : Harmless [] := quiet_nil.harmless

theorem Harmless.append {calls more : List Call} (h : Harmless calls) (h' : Harmless more) : Harmless (calls ++ more) :=
  List.forall_mem_append.2 ⟨h, h'⟩

theorem Harmless.settlements {calls : List Call} (h : Harmless calls) : settlements calls = 0 :=
  List.countP_eq_zero.2 fun c hc hs => Bool.eq_false_iff.1 (h c hc) (Call.isWrite_of_settles hs)

theorem Harmless.makings {calls : List Call} (h : Harmless calls) : makings calls = 0 :=
  List.countP_eq_zero.2 fun c hc hs => Bool.eq_false_iff.1 (h c hc) (Call.isWrite_of_makes hs)

/-- Calls that make no market and settle at most one, and if they settle one then `P` holds. -/
structure SettlesOnce (calls : List Call) (P : Prop) : Prop where
  makings : makings calls = 0
  once : settlements calls ≤ 1
  holds : 0 < settlements calls → P

theorem Harmless.settlesOnce {calls : List Call} (h : Harmless calls) (P : Prop) : SettlesOnce calls P where
  makings := h.makings
  once := h.settlements ▸ Nat.zero_le 1
  holds hpos := absurd h.settlements (Nat.ne_of_gt hpos)

namespace SettlesOnce

variable {calls more : List Call} {P Q : Prop}

theorem mono (h : SettlesOnce calls P) (hpq : P → Q) : SettlesOnce calls Q :=
  ⟨h.makings, h.once, fun hs => hpq (h.holds hs)⟩

/-- More calls, none of them a write. -/
theorem append (h : SettlesOnce calls P) (hq : Harmless more) : SettlesOnce (calls ++ more) P := by
  have hs : settlements (calls ++ more) = settlements calls := by
    rw [settlements_append, hq.settlements, Nat.add_zero]
  exact ⟨by rw [makings_append, h.makings, hq.makings], hs ▸ h.once, fun hpos => h.holds (hs ▸ hpos)⟩

/-- Other calls before, none of them a write. -/
theorem after (h : SettlesOnce calls P) (hq : Harmless more) : SettlesOnce (more ++ calls) P := by
  have hs : settlements (more ++ calls) = settlements calls := by
    rw [settlements_append, hq.settlements, Nat.zero_add]
  exact ⟨by rw [makings_append, h.makings, hq.makings], hs ▸ h.once, fun hpos => h.holds (hs ▸ hpos)⟩

end SettlesOnce

section

variable {w : World} {past : List Call} {store : Store}

/-- A write that settles its market has succeeded. -/
theorem settlesOnce_write {c : Call} {answer : Except Failure Unit} (hm : c.makes = false) (hs : c.settles = answer.isOk) :
    SettlesOnce [c] (answer = .ok ()) := by
  have hsettled : settlements [c] = if answer.isOk then 1 else 0 := by
    rw [settlements, List.countP_singleton, hs]
  refine ⟨by rw [makings, List.countP_singleton, hm]; rfl, ?_, fun h => ?_⟩
  · rw [hsettled]
    split
    · exact Nat.le_refl 1
    · exact Nat.zero_le 1
  · rw [hsettled] at h
    cases answer with
    | ok _ => rfl
    | error _ => exact absurd h (Nat.lt_irrefl 0)

/-- A decision that settles the market has been applied. -/
theorem applyDecision_settles (journal dryRun : Bool) (market : Market) (proposal : Proposal) (decision : Decision) :
    (applyDecision (services journal) dryRun market proposal decision).Leads w past store fun applied calls _ =>
      SettlesOnce calls (applied = .ok () ∧ dryRun = false ∧ decision ≠ .skip) := by
  cases decision with
  | skip => exact harmless_nil.settlesOnce _
  | resolve =>
    cases dryRun with
    | true => exact harmless_nil.settlesOnce _
    | false =>
      have h := settlesOnce_write
        (c := ⟨.resolve market.snapshot proposal.value, w.answer past (.resolve market.snapshot proposal.value)⟩) rfl rfl
      exact Course.leads_ask.2 (h.mono fun ha => ⟨ha, rfl, Decision.noConfusion⟩)
  | cancel =>
    cases dryRun with
    | true => exact harmless_nil.settlesOnce _
    | false =>
      have h := settlesOnce_write (c := ⟨.cancel market.snapshot, w.answer past (.cancel market.snapshot)⟩) rfl rfl
      exact Course.leads_ask.2 (h.mono fun ha => ⟨ha, rfl, Decision.noConfusion⟩)

/-- A check that ended with a market that needs no further care. -/
def Finished (dryRun : Bool) : Except Failure CheckState × Market → Prop
  | (.ok state, market) => isFinished dryRun market state = true
  | (.error _, _) => False

theorem isFinished_ofDecision {decision : Decision} (h : decision ≠ .skip) (market : Market) :
    isFinished false market (CheckState.ofDecision decision) = true := by
  cases decision with
  | skip => exact absurd rfl h
  | resolve | cancel => rfl

/-- A person's decision settles the market only if the check ends with it. -/
theorem settle_settles (journal dryRun : Bool) (market : Market) (now : Instant) (proposal : Proposal) :
    (settle (services journal) dryRun market now proposal).Leads w past store fun result calls _ =>
      SettlesOnce calls (Finished dryRun result) := by
  unfold settle
  rw [Course.leads_notify]
  refine Course.leads_bind.2 (Course.leads_ask.2 ?_)
  generalize w.answer past (.confirm market.snapshot proposal) = answer
  have hasked : Harmless [⟨.confirm market.snapshot proposal, answer⟩] := List.forall_mem_singleton.2 rfl
  cases answer with
  | error failure => exact (harmless_nil.settlesOnce _).after hasked
  | ok answer =>
    refine (applyDecision_settles journal dryRun market proposal _).bind fun applied calls _ h => ?_
    cases applied with
    | error failure => exact ((h.append harmless_nil).after hasked).mono fun ⟨hok, _⟩ => by cases hok
    | ok _ =>
      refine (recordDecision_leads journal market now proposal _ _).bind fun _ recorded _ ⟨hq, _⟩ => ?_
      refine ((h.append (hq.harmless.append harmless_nil)).after hasked).mono fun ⟨_, hd, hskip⟩ => ?_
      subst hd
      exact isFinished_ofDecision hskip _

theorem checkFresh_settles (journal dryRun : Bool) (market : Market) (now : Instant) :
    (checkFresh (services journal) dryRun market now).Leads w past store fun result calls _ =>
      SettlesOnce calls (∃ ended, result = .ok ended ∧ Finished dryRun ended) := by
  unfold checkFresh
  split
  · exact harmless_nil.settlesOnce _
  · refine (propose_leads journal market now).bind (fun proposed reading store' h => ?_) fun _ reading _ h =>
      h.1.quiet.harmless.settlesOnce _
    have hread := h.1.quiet.harmless
    match proposed with
    | .error fault => exact (harmless_nil.settlesOnce _).after hread
    | .ok none => exact (harmless_nil.settlesOnce _).after hread
    | .ok (some proposal) =>
      rw [CycleM.leads_call]
      refine (settle_settles journal dryRun market now proposal).mono fun ended calls _ h => ?_
      exact (h.after hread).mono fun hf => ⟨ended, rfl, hf⟩

/-- A check settles its market only if it ends with a market that needs no further care. It begins with a fetch. -/
theorem checkMarket_settles (journal dryRun refresh : Bool) (market : Market) (now : Instant)
    (hw : isWanted market refresh now = (pure true : CycleM Course Bool)) :
    (checkMarket (services journal) dryRun market refresh now).Leads w past store fun result calls _ =>
      SettlesOnce calls (∃ ended, result = .ok ended ∧ Finished dryRun ended) ∧ calls.any Call.fetches = true := by
  unfold checkMarket
  rw [hw, pure_bind, if_pos rfl, CycleM.leads_bind, CycleM.leads_call]
  refine Course.leads_ask.2 ?_
  generalize w.answer past (.snapshot market.snapshot.id) = fetched
  have hfetch : Harmless [⟨.snapshot market.snapshot.id, fetched⟩] := List.forall_mem_singleton.2 rfl
  cases fetched with
  | error fault => exact ⟨(harmless_nil.settlesOnce _).after hfetch, rfl⟩
  | ok fresh =>
    exact (checkFresh_settles journal dryRun (market.refresh fresh) now).mono fun _ _ _ h => ⟨h.after hfetch, rfl⟩

/-! ## Visits -/

/-- What the visit of a market does to its row, which it reads as this market, and to nothing else: it makes no market, and
if it settles one then the row is gone. The market is fetched exactly if it is wanted. -/
structure VisitsRow (w : World) (journal dryRun : Bool) (row : Int) (refresh : Bool) (now : Instant) (market : Market)
    (past calls : List Call) (before after : Store) : Prop where
  read : (row, market) ∈ before.readable
  settles : SettlesOnce calls (after.row? row = none)
  fetches : calls.any Call.fetches = ((if refresh then some true else market.isDue now) == some true)
  effect : match visit w journal dryRun refresh now past market with
    | .error _ => after = before
    | .ok (effect, _) => after = effect.apply row before

/-- A market can be read from its row. -/
theorem Store.mem_readable {row : Int} {market : Market} : (row, market) ∈ store.readable ↔
    ∃ kept, store.row? row = some kept ∧ decodeText Market.shape Market.decode kept.text = .ok market := by
  unfold readable row?
  cases store.markets with
  | none => simp
  | some table => simp only [Option.elim_some, decodedMarkets, mem_found_decodeRows, Table.mem_toList, Option.bind_some]

/-- The calls of a visit: a check, if the market is wanted. -/
theorem processMarket_settles (hopen : ∀ past, w.answer past .access = none) {table : Table MarketRow}
    (hm : store.markets = some table) (journal dryRun refresh : Bool) (now : Instant) (summary : CycleSummary) (row : Int)
    (market : Market) :
    (processMarket (services journal) dryRun refresh now summary row market).Leads w past store fun _ calls store' =>
      SettlesOnce calls (store'.row? row = none) ∧
        calls.any Call.fetches = ((if refresh then some true else market.isDue now) == some true) := by
  unfold processMarket
  rw [isWanted_eq]
  cases hd : (if refresh then some true else market.isDue now) with
  | none => exact ⟨harmless_nil.settlesOnce _, rfl⟩
  | some due =>
    cases due with
    | false => exact ⟨harmless_nil.settlesOnce _, rfl⟩
    | true =>
      have hw : isWanted market refresh now = (pure true : CycleM Course Bool) := by
        rw [isWanted_eq, hd]
        rfl
      change CycleM.Leads (pure true >>= _) w past store _
      rw [pure_bind, if_pos rfl]
      have hkept := @checkMarket_comesTo w past store journal dryRun refresh now market
      have hcheck := @checkMarket_settles w past store journal dryRun refresh market now hw
      refine (hcheck.and hkept).bind (fun ended calls store' h => ?_) fun _ calls _ h => ?_
      · obtain ⟨⟨hs, hf⟩, -, rfl⟩ := h
        have hmore : ∀ more, (calls ++ (more ++ [])).any Call.fetches = true := fun more => by
          rw [List.any_append, hf, Bool.true_or]
        match ended with
        | (.error failure, market') =>
          dsimp only
          rw [CycleM.leads_call_bind]
          refine (reportFailure_leads journal market' failure).mono fun _ more _ ⟨hq, _⟩ => ⟨?_, hmore more⟩
          exact (hs.append (hq.harmless.append harmless_nil)).mono fun ⟨_, he, hend⟩ => by cases he; cases hend
        | (.ok state, market') =>
          dsimp only
          rw [CycleM.leads_call_bind]
          have hq := @storeChecked_leads w (past ++ calls) store' journal dryRun row market' state
          have hstored := @storeChecked_stores w (past ++ calls) store' hopen table hm journal dryRun row market' state
          refine (hq.and hstored).mono fun stored more store'' h => ?_
          obtain ⟨hq, rfl, rfl⟩ := h
          refine ⟨(hs.append (hq.harmless.append harmless_nil)).mono fun ⟨_, he, hend⟩ => ?_, hmore more⟩
          cases he
          have hend : isFinished dryRun market' state = true := hend
          change ((if isFinished dryRun market' state then RowEffect.remove else .rewrite market').apply row store').row?
            row = none
          rw [if_pos hend, RowEffect.row?_apply, if_pos rfl]
          exact Option.bind_fun_none _
      · exact ⟨h.1.1.mono fun ⟨_, he, _⟩ => (by cases he), h.1.2⟩

/-- Dealing with a market is a visit of it. -/
theorem processMarket_visit (hopen : ∀ past, w.answer past .access = none) (journal dryRun refresh : Bool) (now : Instant)
    (summary : CycleSummary) {row : Int} {market : Market} (hread : (row, market) ∈ store.readable) :
    (processMarket (services journal) dryRun refresh now summary row market).Leads w past store fun _ calls store' =>
      VisitsRow w journal dryRun row refresh now market past calls store store' := by
  obtain ⟨kept, hrow, -⟩ := Store.mem_readable.1 hread
  obtain ⟨table, hm, -⟩ := Option.bind_eq_some_iff.1 hrow
  have hcalls := @processMarket_settles w past store hopen table hm journal dryRun refresh now summary row market
  have heffect := processMarket_visits hopen hm journal dryRun refresh now past summary row market
  refine (hcalls.and heffect).mono fun result calls store' h => ⟨hread, h.1.1, h.1.2, ?_⟩
  revert h
  cases visit w journal dryRun refresh now past market with
  | error _ => exact fun h => h.2.2
  | ok _ => exact fun h => h.2.2

/-! ## Turns -/

/-- What the turn of a queued request does: it settles nothing and makes one market at most, and if it makes one then the
request is gone. No other request is touched, and no more than one market is stored. -/
structure Serves (row : Int) (calls : List Call) (before after : Store) : Prop where
  settlements : settlements calls = 0
  makes_once : makings calls ≤ 1
  gone : 0 < makings calls → after.queued? row = none
  pending : after.pending = before.pending ∨ after.pending = before.pending.map fun table => table.remove row
  markets : after.markets = before.markets ∨ ∃ kept, after.markets = before.markets.map fun table => (table.add kept).2

/-- Work on the store while it can be worked on. -/
theorem store_leads_open (hopen : ∀ past, w.answer past .access = none) {α : Type} (journal : Bool) (work : StoreM α) :
    ((services journal).store work).Leads w past store fun _ calls store' =>
      Quiet calls ∧ store' = (Store.run work store).2 := by
  rw [Course.leads_store, hopen]
  exact ⟨quiet_access none, rfl⟩

theorem removePending_serves (hopen : ∀ past, w.answer past .access = none) (journal : Bool) (row : Int) :
    ((services journal).store (Store.removePending row)).Leads w past store fun _ calls store' =>
      Quiet calls ∧ store' = { store with pending := store.pending.map fun table => table.remove row } :=
  (store_leads_open hopen journal _).mono fun _ _ _ ⟨hq, hs⟩ => ⟨hq, by rw [hs, Store.run_removePending]⟩

theorem storeCreated_serves (hopen : ∀ past, w.answer past .access = none) (journal : Bool) (request : CreationRequest)
    (snapshot : Snapshot) :
    (storeCreated (services journal) request snapshot).Leads w past store fun _ calls store' =>
      Quiet calls ∧ store'.pending = store.pending ∧
        (store'.markets = store.markets ∨
          ∃ kept, store'.markets = store.markets.map fun table => (table.add kept).2) := by
  have hinsert : (insertCreated (services journal) request snapshot).Leads w past store fun _ calls store' =>
      Quiet calls ∧ store'.pending = store.pending ∧
        (store'.markets = store.markets ∨
          ∃ kept, store'.markets = store.markets.map fun table => (table.add kept).2) := by
    unfold insertCreated
    split
    · exact ⟨quiet_nil, rfl, .inl rfl⟩
    · rename_i market _
      refine (store_leads_open hopen journal _).mono fun _ _ _ ⟨hq, hs⟩ => ?_
      rw [Store.run_insertMarket] at hs
      subst hs
      exact ⟨hq, rfl, .inr ⟨Store.rowOfMarket market, rfl⟩⟩
  refine hinsert.bind fun inserted calls _ ⟨hq, h⟩ => ?_
  cases inserted with
  | ok _ => exact ⟨hq.append quiet_nil, h⟩
  | error _ => exact ⟨hq.append quiet_nil, h⟩

/-- A turn in which nothing is written to the platform. -/
theorem serves_of_quiet {row : Int} {calls : List Call} {store' : Store} (hq : Quiet calls)
    (hp : store'.pending = store.pending ∨ store'.pending = store.pending.map fun table => table.remove row)
    (hm : store'.markets = store.markets) : Serves row calls store store' where
  settlements := hq.harmless.settlements
  makes_once := hq.harmless.makings ▸ Nat.zero_le 1
  gone hpos := absurd hq.harmless.makings (Nat.ne_of_gt hpos)
  pending := hp
  markets := .inl hm

theorem dropInvalid_serves (hopen : ∀ past, w.answer past .access = none) (journal : Bool) (pending : PendingRequest)
    (fault : MarketFault) : (dropInvalid (services journal) pending fault).Leads w past store fun _ calls store' =>
      Quiet calls ∧ store' = { store with pending := store.pending.map fun table => table.remove pending.row } := by
  unfold dropInvalid
  rw [Course.leads_notify]
  refine (removePending_serves hopen journal pending.row).bind fun removed calls _ ⟨hq, hs⟩ => ?_
  cases removed with
  | ok _ => exact ⟨hq.append quiet_nil, hs⟩
  | error _ => exact ⟨hq.append quiet_nil, hs⟩

/-- A market that was made leaves the queue before it is stored. -/
theorem createPending_serves (hopen : ∀ past, w.answer past .access = none) (journal : Bool) (pending : PendingRequest) :
    (createPending (services journal) pending).Leads w past store fun _ calls store' =>
      Serves pending.row calls store store' := by
  refine Course.leads_bind.2 (Course.leads_ask.2 ?_)
  generalize w.answer past (.create pending.request) = answer
  cases answer with
  | error failure => exact ⟨rfl, Nat.zero_le 1, nofun, .inl rfl, .inl rfl⟩
  | ok snapshot =>
    have hrest : ∀ calls, Quiet calls → ∀ past',
        (storeCreated (services journal) pending.request snapshot).Leads w past'
          { store with pending := store.pending.map fun table => table.remove pending.row } fun _ more store' =>
            Serves pending.row ([⟨.create pending.request, .ok snapshot⟩] ++ (calls ++ more)) store store' :=
      fun calls hq past' => (storeCreated_serves hopen journal pending.request snapshot).mono
        fun _ more store' ⟨hmore, hpending, hmarkets⟩ => by
          have hafter := hq.harmless.append hmore.harmless
          refine ⟨?_, ?_, fun _ => ?_, .inr hpending, hmarkets⟩
          · rw [settlements_append, hafter.settlements]
            rfl
          · rw [makings_append, hafter.makings]
            exact Nat.le_refl 1
          · have hq := store.queued?_removePending pending.row pending.row
            rw [Store.run_removePending, if_pos rfl] at hq
            unfold Store.queued?
            rw [hpending]
            exact hq
    refine (removePending_serves hopen journal pending.row).bind fun removed calls _ ⟨hq, hs⟩ => ?_
    subst hs
    cases removed with
    | ok _ => exact hrest calls hq _
    | error _ => exact Course.leads_bind.2 (Course.leads_pure.2 (hrest calls hq _))

/-- Dealing with a request is a turn of it. -/
theorem processRequest_serves (hopen : ∀ past, w.answer past .access = none) (journal dryRun : Bool)
    (pending : PendingRequest) :
    (processRequest (services journal) dryRun pending).Leads w past store fun _ calls store' =>
      Serves pending.row calls store store' := by
  unfold processRequest
  split
  · refine (dropInvalid_serves hopen journal pending _).bind fun _ calls _ ⟨hq, hs⟩ => ?_
    subst hs
    exact serves_of_quiet (hq.append quiet_nil) (.inr rfl) rfl
  · cases dryRun with
    | true => exact serves_of_quiet quiet_nil (.inl rfl) rfl
    | false => exact createPending_serves hopen journal pending

end

end Arbiter
