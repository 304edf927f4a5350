import Arbiter.Proofs.Cycle.Independent
import Arbiter.Proofs.Cycle.Rehearsal

/-!
# A cycle and its rehearsal

The checks of a cycle and their rehearsal go side by side where the world does not heed what is applied or recorded:
each market is checked to the same state. A row goes in the one and stays in the other exactly if its market was to be
resolved or cancelled, while the platform has it open.

* `Course.Accord`: two pieces of work side by side. `processMarket_accord`: a step of the loop.
  `processMarkets_accord`: the loop.
* `Ended`: a check that came to a state. `Store.writeBack_real`: the stores after the loop compared.
* `rehearsal_faithful`: checks and cycles with their rehearsals.
-/

namespace Arbiter

/-! ## Work side by side -/

/-- The world answers inquiries by the inquiries before them: it does not heed what is applied or recorded. -/
def World.Unheeding (w : World) : Prop :=
  ∀ past past' q, q.isInquiry = true → inquiries past = inquiries past' → w.answer past q = w.answer past' q

theorem World.Unheeding.alike {w : World} (hu : w.Unheeding) (hw : w.Applies) {past past' : List Call}
    (h : inquiries past = inquiries past') : Alike w w past past' := by
  intro more q hq
  have hmore : inquiries (past ++ more) = inquiries (past' ++ more) := by
    rw [inquiries_append, inquiries_append, h]
  rcases Question.isInquiry_of_bears hq with hq | hq
  · exact hu _ _ q hq hmore
  · cases q with
    | resolve market value => rw [hw.resolve, hw.resolve]
    | cancel market => rw [hw.cancel, hw.cancel]
    | _ => cases hq

/-- Calls after calls inquire the same. -/
theorem Rehearses.inquiries_after {past past' calls calls' : List Call} (h : inquiries past = inquiries past')
    (hc : Rehearses calls calls') : inquiries (past ++ calls) = inquiries (past' ++ calls') := by
  rw [inquiries_append, inquiries_append, h, hc.inquiries_eq]

namespace Course

variable {α β : Type} {w : World} {past past' : List Call} {store store' : Store}

/-- Two pieces of work, each after its own calls and on its own store, come to the same result, the second with a
rehearsal of the calls of the first, and `Q` holds of the result, of the calls and of the stores that they leave. -/
def Accord (x x' : Course α) (w : World) (past past' : List Call) (store store' : Store)
    (Q : α → List Call → List Call → Store → Store → Prop) : Prop :=
  x.Leads w past store fun a calls s => x'.Leads w past' store' fun a' calls' s' =>
    a' = a ∧ Rehearses calls calls' ∧ Q a calls calls' s s'

theorem accord_pure {a : α} {Q : α → List Call → List Call → Store → Store → Prop} (h : Q a [] [] store store') :
    Accord (pure a) (pure a) w past past' store store' Q := ⟨rfl, .stop, h⟩

theorem Accord.mono {x x' : Course α} {P Q : α → List Call → List Call → Store → Store → Prop}
    (hx : Accord x x' w past past' store store' P)
    (h : ∀ a calls calls' s s', P a calls calls' s s' → Q a calls calls' s s') :
    Accord x x' w past past' store store' Q := ⟨hx.1, hx.2.1, h _ _ _ _ _ hx.2.2⟩

/-- Work side by side, followed by work side by side. -/
theorem Accord.bind {x x' : Course α} {f f' : α → Course β} {P : α → List Call → List Call → Store → Store → Prop}
    {Q : β → List Call → List Call → Store → Store → Prop} (hx : Accord x x' w past past' store store' P)
    (hf : ∀ a calls calls' s s', Rehearses calls calls' → P a calls calls' s s' →
      Accord (f a) (f' a) w (past ++ calls) (past' ++ calls') s s' fun b more more' =>
        Q b (calls ++ more) (calls' ++ more')) :
    Accord (x >>= f) (x' >>= f') w past past' store store' Q := by
  obtain ⟨hresult, hcalls, hp⟩ := hx
  have hnext := hf _ _ _ _ _ hcalls hp
  have hsecond : (x' >>= f').Leads w past' store' fun b' calls' s' =>
      b' = ((x >>= f).upshot w past store).result ∧ Rehearses ((x >>= f).upshot w past store).calls calls' ∧
        Q ((x >>= f).upshot w past store).result ((x >>= f).upshot w past store).calls calls'
          ((x >>= f).upshot w past store).store s' := by
    refine leads_bind.2 (leads_of_upshot fun a' calls' s' hu => ?_)
    rw [hu] at hresult hcalls hnext
    dsimp only at hresult
    subst hresult
    exact ⟨hnext.1, hcalls.append hnext.2.1, hnext.2.2⟩
  exact hsecond

/-- An inquiry is answered the same where the same was inquired. -/
theorem accord_ask (hu : w.Unheeding) (h : inquiries past = inquiries past') {q : Question} (hq : q.isInquiry = true) :
    Accord (ask q) (ask q) w past past' store store' fun _ _ _ s s' => s = store ∧ s' = store' := by
  have hanswer : w.answer past q = w.answer past' q := hu past past' q hq h
  refine ⟨hanswer.symm, ?_, rfl, rfl⟩
  change Rehearses [⟨q, w.answer past q⟩] [⟨q, w.answer past' q⟩]
  rw [hanswer]
  exact .inquire hq .stop

theorem Accord.of_gives {x x' : Course α} {a : α} {calls calls' : List Call} (hx : x.Gives w past a calls)
    (hx' : x'.Gives w past' a calls') (hc : Rehearses calls calls')
    {Q : α → List Call → List Call → Store → Store → Prop} (h : Q a calls calls' store store') :
    Accord x x' w past past' store store' Q := hx.leads (hx'.leads ⟨rfl, hc, h⟩)

end Course

namespace CycleM

variable {α β : Type} {w : World} {past past' : List Call} {store store' : Store}

/-- Like `Course.Accord`; both may crash. -/
def Accord (x x' : CycleM Course α) (w : World) (past past' : List Call) (store store' : Store)
    (Q : Except Crash α → List Call → List Call → Store → Store → Prop) : Prop :=
  Course.Accord (ExceptT.run x) (ExceptT.run x') w past past' store store' Q

theorem accord_pure {a : α} {Q : Except Crash α → List Call → List Call → Store → Store → Prop}
    (h : Q (.ok a) [] [] store store') :
    Accord (pure a : CycleM Course α) (pure a) w past past' store store' Q := ⟨rfl, .stop, h⟩

theorem Accord.bind {x x' : CycleM Course α} {f f' : α → CycleM Course β}
    {P : Except Crash α → List Call → List Call → Store → Store → Prop}
    {Q : Except Crash β → List Call → List Call → Store → Store → Prop} (hx : Accord x x' w past past' store store' P)
    (hf : ∀ a calls calls' s s', Rehearses calls calls' → P (.ok a) calls calls' s s' →
      Accord (f a) (f' a) w (past ++ calls) (past' ++ calls') s s' fun b more more' =>
        Q b (calls ++ more) (calls' ++ more'))
    (he : ∀ e calls calls' s s', P (.error e) calls calls' s s' → Q (.error e) calls calls' s s') :
    Accord (x >>= f) (x' >>= f') w past past' store store' Q := by
  refine Course.Accord.bind hx fun
    | .ok a, calls, calls', s, s', hc, hp => hf a calls calls' s s' hc hp
    | .error e, calls, calls', s, s', _, hp => Course.accord_pure ?_
  rw [List.append_nil, List.append_nil]
  exact he e calls calls' s s' hp

theorem accord_call {x x' : Course α} {Q : α → List Call → List Call → Store → Store → Prop}
    (hx : Course.Accord x x' w past past' store store' Q) :
    Accord (CycleM.call x) (CycleM.call x') w past past' store store' fun a calls calls' s s' =>
      ∃ a', a = .ok a' ∧ Q a' calls calls' s s' := by
  refine Course.Accord.bind hx fun a calls calls' s s' _ hq => Course.accord_pure ⟨a, rfl, ?_⟩
  rw [List.append_nil, List.append_nil]
  exact hq

/-- Work of collaborators side by side, followed by work side by side. -/
theorem accord_call_bind {x x' : Course α} {f f' : α → CycleM Course β}
    {P : α → List Call → List Call → Store → Store → Prop}
    {Q : Except Crash β → List Call → List Call → Store → Store → Prop}
    (hx : Course.Accord x x' w past past' store store' P)
    (hf : ∀ a calls calls' s s', Rehearses calls calls' → P a calls calls' s s' →
      Accord (f a) (f' a) w (past ++ calls) (past' ++ calls') s s' fun b more more' =>
        Q b (calls ++ more) (calls' ++ more')) :
    Accord (CycleM.call x >>= f) (CycleM.call x' >>= f') w past past' store store' Q := by
  refine (accord_call hx).bind (fun a calls calls' s s' hc hp => ?_) fun e _ _ _ _ hp => ?_
  · obtain ⟨a', ha, hp⟩ := hp
    cases ha
    exact hf a calls calls' s s' hc hp
  · obtain ⟨a', ha, -⟩ := hp
    cases ha

end CycleM

/-! ## Checks that came to a state -/

/-- A check of a stored market that came to a state, with the market after it. -/
structure Ended where
  row : Int
  market : Market
  state : CheckState

namespace Ended

/-- What is done to the row of the market. -/
def effect (dryRun : Bool) (e : Ended) : RowEffect :=
  if isFinished dryRun e.market e.state then .remove else .rewrite e.market

/-- Whether a rehearsal keeps a row that goes otherwise: its market was to be resolved or cancelled, and the platform
has it open. -/
def kept (e : Ended) : Bool :=
  (e.state == .resolved || e.state == .cancelled) && !e.market.snapshot.isResolved

/-- The check of a market of some rows at its place in a run, and at its place in the rehearsal of it. -/
def Of (w : World) (journal refresh : Bool) (now : Instant) (rows : List (Int × Market)) (run rehearsal : List Call)
    (e : Ended) : Prop :=
  ∃ market place place', (e.row, market) ∈ rows ∧ place <+: run ∧ place' <+: rehearsal ∧
    inquiries place = inquiries place' ∧
    checkOutcome w journal false refresh now place market = .ok (.ok e.state, e.market) ∧
    checkOutcome w journal true refresh now place' market = .ok (.ok e.state, e.market)

variable {e : Ended}

theorem effect_of_kept (h : e.kept = true) : e.effect false = .remove ∧ e.effect true = .rewrite e.market := by
  obtain ⟨hstate, hopen⟩ := Bool.and_eq_true_iff.1 h
  have hopen : e.market.snapshot.isResolved = false := by simpa using hopen
  constructor
  · simp [effect, isFinished, hstate]
  · simp [effect, isFinished, hopen]

/-- Otherwise the same is done to the row in both. -/
theorem effect_of_not_kept (h : e.kept = false) : e.effect false = e.effect true := by
  unfold effect isFinished
  unfold kept at h
  cases hstate : e.state == .resolved || e.state == .cancelled with
  | false => rfl
  | true =>
    rw [hstate] at h
    have hresolved : e.market.snapshot.isResolved = true := by simpa using h
    rw [hresolved]
    rfl

end Ended

namespace Store

/-- The store after the markets of some checks are stored, or removed once they are finished. -/
def writeBack (dryRun : Bool) (store : Store) (ended : List Ended) : Store :=
  ended.foldl (fun store e => (e.effect dryRun).apply e.row store) store

/-- The store without some of its rows of markets. -/
def without (store : Store) (rows : List Int) : Store :=
  rows.foldl (fun store row => RowEffect.remove.apply row store) store

/-- A row may be removed before something is done to a row. -/
theorem remove_apply (effect : RowEffect) (row other : Int) (store : Store) :
    RowEffect.remove.apply other (effect.apply row store) = effect.apply row (RowEffect.remove.apply other store) := by
  obtain ⟨markets, pending⟩ := store
  cases markets with
  | none => cases effect <;> rfl
  | some table =>
    cases effect with
    | keep => rfl
    | remove => exact congrArg (Store.mk · pending) (congrArg some (table.remove_comm row other))
    | rewrite market => exact congrArg (Store.mk · pending) (congrArg some (table.remove_modify row other _))

theorem remove_writeBack (dryRun : Bool) (row : Int) : ∀ (ended : List Ended) (store : Store),
    RowEffect.remove.apply row (store.writeBack dryRun ended) =
      (RowEffect.remove.apply row store).writeBack dryRun ended
  | [], _ => rfl
  | e :: rest, store => by
    have hrest := remove_writeBack dryRun row rest ((e.effect dryRun).apply e.row store)
    rw [remove_apply] at hrest
    exact hrest

/-- Nothing is done to a row that was removed. -/
theorem rewrite_remove (market : Market) (row : Int) (store : Store) :
    (RowEffect.rewrite market).apply row (RowEffect.remove.apply row store) = RowEffect.remove.apply row store := by
  obtain ⟨markets, pending⟩ := store
  cases markets with
  | none => rfl
  | some table => exact congrArg (Store.mk · pending) (congrArg some (table.modify_remove row _))

/-- The store after some checks is the one after their rehearsal without the rows that the rehearsal keeps. -/
theorem writeBack_real : ∀ (ended : List Ended) (store : Store),
    store.writeBack false ended = (store.writeBack true ended).without ((ended.filter (·.kept)).map (·.row))
  | [], _ => rfl
  | e :: rest, store => by
    have hstep : ∀ dryRun, store.writeBack dryRun (e :: rest) =
        ((e.effect dryRun).apply e.row store).writeBack dryRun rest := fun _ => rfl
    rw [hstep, hstep]
    cases hkept : e.kept with
    | false =>
      rw [Ended.effect_of_not_kept hkept, writeBack_real rest, List.filter_cons_of_neg (by simp [hkept])]
    | true =>
      obtain ⟨hreal, hrehearsal⟩ := Ended.effect_of_kept hkept
      have hgone : RowEffect.remove.apply e.row ((RowEffect.rewrite e.market).apply e.row store) =
          RowEffect.remove.apply e.row store := by rw [remove_apply, rewrite_remove]
      rw [hreal, hrehearsal, writeBack_real rest, List.filter_cons_of_pos hkept, ← hgone, ← remove_writeBack]
      rfl

end Store

/-! ## The loop -/

section

variable {w : World} {past past' : List Call} {store store' : Store}

/-- A failure is reported in the same words. -/
theorem reportFailure_accord (hu : w.Unheeding) (h : inquiries past = inquiries past') (journal : Bool)
    (market : Market) (failure : Failure) :
    Course.Accord (reportFailure (services journal) market failure) (reportFailure (services journal) market failure)
      w past past' store store' fun _ _ _ s s' => s = store ∧ s' = store' := by
  unfold reportFailure
  have hnotice : Course.Accord (pure ()) (pure ()) w past past' store store' fun _ _ _ s s' => s = store ∧ s' = store' :=
    Course.accord_pure ⟨rfl, rfl⟩
  refine hnotice.bind fun () calls calls' s s' hc hs => ?_
  obtain ⟨rfl, rfl⟩ := hs
  cases journal with
  | false => exact Course.accord_pure ⟨rfl, rfl⟩
  | true =>
    refine (Course.accord_ask hu (hc.inquiries_after h) (q := .clock) rfl).bind fun time _ _ s s' _ hs => ?_
    obtain ⟨rfl, rfl⟩ := hs
    refine Course.Accord.of_gives (record_gives w _ _ fun result => ?_) (record_gives w _ _ fun result => ?_)
      (.record _ _ .stop) ⟨rfl, rfl⟩
    · match result with
      | .ok () => rfl
      | .error _ => rfl
    · match result with
      | .ok () => rfl
      | .error _ => rfl

/-- What comes of work on one row as far as the world lets the store be worked on: whether it was done, the calls, and
the store after it. -/
def RowDone (w : World) (past : List Call) (store : Store) (effect : RowEffect) (row : Int) (done : Bool)
    (calls : List Call) (s : Store) : Prop :=
  calls = [⟨.access, w.answer past .access⟩] ∧
    if (w.answer past .access).isSome then done = false ∧ s = store
    else done = store.markets.isSome ∧ s = effect.apply row store

theorem store_leads_rowDone {α : Type} {work : StoreM α} {effect : RowEffect} {row : Int} (journal : Bool)
    (hdone : (Store.run work store).1.isOk = store.markets.isSome)
    (hstore : (Store.run work store).2 = effect.apply row store) :
    ((services journal).store work).Leads w past store fun result calls s =>
      RowDone w past store effect row result.isOk calls s := by
  unfold RowDone
  rw [Course.leads_store]
  generalize w.answer past .access = access
  match access with
  | some fault => cases fault <;> exact ⟨rfl, rfl, rfl⟩
  | none =>
    refine ⟨rfl, ?_, hstore⟩
    rw [← hdone]
    cases (Store.run work store).1 with
    | ok _ => rfl
    | error fault => cases fault <;> rfl

/-- A checked market is written back as far as the world lets the store be worked on. -/
theorem storeChecked_rowDone (journal dryRun : Bool) (e : Ended) :
    (storeChecked (services journal) dryRun e.row e.market e.state).Leads w past store fun stored calls s =>
      RowDone w past store (e.effect dryRun) e.row stored calls s := by
  have hremove : ((services journal).store (Store.removeMarket e.row)).Leads w past store fun result calls s =>
      RowDone w past store .remove e.row result.isOk calls s := by
    refine store_leads_rowDone journal ?_ ?_
    · rw [Store.run_removeMarket]
      cases store.markets <;> rfl
    · rw [Store.run_removeMarket]
      rfl
  have hupdate : ((services journal).store (Store.updateMarket e.row e.market)).Leads w past store
      fun result calls s => RowDone w past store (.rewrite e.market) e.row result.isOk calls s := by
    refine store_leads_rowDone journal ?_ ?_
    · rw [Store.run_updateMarket]
      cases store.markets <;> rfl
    · rw [Store.run_updateMarket]
      rfl
  have hwrite : (writeChecked (services journal) dryRun e.row e.market e.state).Leads w past store
      fun written calls s => RowDone w past store (e.effect dryRun) e.row written.isOk calls s := by
    unfold writeChecked Ended.effect
    split
    · refine hremove.bind fun removed calls s h => ?_
      match removed with
      | .ok _ => exact Course.leads_pure.2 (by rwa [List.append_nil])
      | .error _ => exact Course.leads_pure.2 (by rwa [List.append_nil])
    · exact hupdate
  refine hwrite.bind fun written calls s h => ?_
  match written with
  | .ok () => exact Course.leads_pure.2 (by rwa [List.append_nil])
  | .error _ => exact Course.leads_pure.2 (by rwa [List.append_nil])

theorem storeChecked_accord (hu : w.Unheeding) (h : inquiries past = inquiries past')
    (hsome : store.markets.isSome = store'.markets.isSome) (journal : Bool) (e : Ended) :
    Course.Accord (storeChecked (services journal) false e.row e.market e.state)
      (storeChecked (services journal) true e.row e.market e.state) w past past' store store' fun _ _ _ s s' =>
        s = store ∧ s' = store' ∨
          s = (e.effect false).apply e.row store ∧ s' = (e.effect true).apply e.row store' := by
  have hanswer : w.answer past .access = w.answer past' .access := hu past past' .access rfl h
  refine (storeChecked_rowDone journal false e).mono fun stored calls s hdone => ?_
  refine (storeChecked_rowDone journal true e).mono fun stored' calls' s' hdone' => ?_
  obtain ⟨rfl, hdone⟩ := hdone
  obtain ⟨rfl, hdone'⟩ := hdone'
  rw [← hanswer] at hdone' ⊢
  cases haccess : (w.answer past .access).isSome with
  | true =>
    rw [haccess, if_pos rfl] at hdone hdone'
    exact ⟨hdone'.1.trans hdone.1.symm, .inquire rfl .stop, .inl ⟨hdone.2, hdone'.2⟩⟩
  | false =>
    rw [haccess, if_neg nofun] at hdone hdone'
    exact ⟨hdone'.1.trans (hsome.symm.trans hdone.1.symm), .inquire rfl .stop, .inr ⟨hdone.2, hdone'.2⟩⟩

/-- A check comes to the same as its rehearsal. -/
theorem checkMarket_accord (hw : w.Applies) (hu : w.Unheeding) (h : inquiries past = inquiries past')
    (journal refresh : Bool) (now : Instant) (market : Market) :
    CycleM.Accord (checkMarket (services journal) false market refresh now)
      (checkMarket (services journal) true market refresh now) w past past' store store' fun result _ _ s s' =>
        (s = store ∧ s' = store') ∧ checkOutcome w journal false refresh now past market = result ∧
          checkOutcome w journal true refresh now past' market = result := by
  obtain ⟨a, calls, calls', ha, ha', hc⟩ :=
    checkMarket_rehearsal journal market refresh now w past past' hw (hu.alike hw h)
  refine Course.Accord.of_gives ha ha' hc ⟨⟨rfl, rfl⟩, ?_, ?_⟩
  · unfold checkOutcome
    rw [ha]
  · unfold checkOutcome
    rw [ha']

/-- The market of a row is checked to the same, and written back each in its way. -/
theorem processMarket_accord (hw : w.Applies) (hu : w.Unheeding) (h : inquiries past = inquiries past')
    (hsome : store.markets.isSome = store'.markets.isSome) (journal refresh : Bool) (now : Instant)
    (summary : CycleSummary) (row : Int) (market : Market) :
    CycleM.Accord (processMarket (services journal) false refresh now summary row market)
      (processMarket (services journal) true refresh now summary row market) w past past' store store'
      fun _ _ _ s s' => s = store ∧ s' = store' ∨ ∃ e : Ended, e.row = row ∧
        checkOutcome w journal false refresh now past market = .ok (.ok e.state, e.market) ∧
        checkOutcome w journal true refresh now past' market = .ok (.ok e.state, e.market) ∧
        s = (e.effect false).apply row store ∧ s' = (e.effect true).apply row store' := by
  unfold processMarket
  rw [isWanted_eq]
  match if refresh then some true else market.isDue now with
  | none => exact Course.accord_pure (.inl ⟨rfl, rfl⟩)
  | some false => exact Course.accord_pure (.inl ⟨rfl, rfl⟩)
  | some true =>
    change CycleM.Accord (pure true >>= _) (pure true >>= _) w past past' store store' _
    rw [pure_bind, pure_bind, if_pos rfl, if_pos rfl]
    refine (checkMarket_accord hw hu h journal refresh now market).bind (fun checked calls calls' s s' hc hp => ?_)
      fun _ _ _ _ _ hp => .inl hp.1
    obtain ⟨⟨rfl, rfl⟩, hreal, hrehearsal⟩ := hp
    match checked with
    | (.error failure, after) =>
      dsimp only
      refine CycleM.accord_call_bind (reportFailure_accord hu (hc.inquiries_after h) journal after failure)
        fun () _ _ s s' _ hs => Course.accord_pure (.inl hs)
    | (.ok state, after) =>
      dsimp only
      refine CycleM.accord_call_bind
        (storeChecked_accord hu (hc.inquiries_after h) hsome journal ⟨row, after, state⟩) fun stored _ _ s s' _ hs => ?_
      cases stored with
      | true => exact Course.accord_pure (hs.imp_right fun hs => ⟨_, rfl, hreal, hrehearsal, hs⟩)
      | false => exact Course.accord_pure (hs.imp_right fun hs => ⟨_, rfl, hreal, hrehearsal, hs⟩)

/-- How the stores after some rows compare: the same checks came to a state, and each is written back in its way. -/
def LoopAccord (w : World) (journal refresh : Bool) (now : Instant) (rows : List (Int × Market))
    (run rehearsal : List Call) (store store' s s' : Store) : Prop :=
  ∃ ended : List Ended, (ended.map (·.row)).Sublist (rows.map (·.1)) ∧
    (∀ e ∈ ended, e.Of w journal refresh now rows run rehearsal) ∧
    s = store.writeBack false ended ∧ s' = store'.writeBack true ended

theorem Ended.Of.mono {journal refresh : Bool} {now : Instant} {rows rows' : List (Int × Market)}
    {run rehearsal : List Call} {e : Ended} (h : e.Of w journal refresh now rows run rehearsal) (hrows : rows ⊆ rows') :
    e.Of w journal refresh now rows' run rehearsal := by
  obtain ⟨market, place, place', hmem, hrest⟩ := h
  exact ⟨market, place, place', hrows hmem, hrest⟩

section

variable {journal refresh : Bool} {now : Instant} {row : Int} {market : Market} {rest : List (Int × Market)}
  {run rehearsal : List Call} {s s' : Store}

/-- One row more whose store stays as it is. -/
theorem LoopAccord.leave (h : LoopAccord w journal refresh now rest run rehearsal store store' s s') :
    LoopAccord w journal refresh now ((row, market) :: rest) run rehearsal store store' s s' := by
  obtain ⟨ended, hrows, hof, hs⟩ := h
  exact ⟨ended, hrows.cons row, fun e he => (hof e he).mono (List.subset_cons_self _ _), hs⟩

/-- One row more whose market was checked to a state. -/
theorem LoopAccord.check {e : Ended} (hrow : e.row = row)
    (hof : e.Of w journal refresh now ((row, market) :: rest) run rehearsal)
    (h : LoopAccord w journal refresh now rest run rehearsal ((e.effect false).apply row store)
      ((e.effect true).apply row store') s s') :
    LoopAccord w journal refresh now ((row, market) :: rest) run rehearsal store store' s s' := by
  subst hrow
  obtain ⟨ended, hrows, hrest, hs⟩ := h
  refine ⟨e :: ended, hrows.cons_cons e.row, List.forall_mem_cons.2 ⟨hof, fun e he => ?_⟩, hs⟩
  exact (hrest e he).mono (List.subset_cons_self _ _)

end

theorem RowEffect.isSome_markets_apply (effect : RowEffect) (row : Int) (store : Store) :
    (effect.apply row store).markets.isSome = store.markets.isSome := by
  cases effect with
  | keep => rfl
  | remove => exact Option.isSome_map
  | rewrite market => exact Option.isSome_map

/-- The loop goes over the rows side by side with its rehearsal. -/
theorem processMarkets_accord (hw : w.Applies) (hu : w.Unheeding) (journal refresh : Bool) (now : Instant)
    (rows : List (Int × Market)) (h : inquiries past = inquiries past')
    (hsome : store.markets.isSome = store'.markets.isSome) (summary : CycleSummary) :
    CycleM.Accord (processMarkets (services journal) false refresh now summary rows)
      (processMarkets (services journal) true refresh now summary rows) w past past' store store'
      fun _ calls calls' s s' =>
        LoopAccord w journal refresh now rows (past ++ calls) (past' ++ calls') store store' s s' := by
  induction rows generalizing past past' store store' summary with
  | nil =>
    unfold processMarkets
    exact CycleM.accord_pure ⟨[], .slnil, List.forall_mem_nil _, rfl, rfl⟩
  | cons head rest ih =>
    obtain ⟨row, market⟩ := head
    unfold processMarkets
    have hfirst := processMarket_accord hw hu h hsome journal refresh now summary row market
    have hnone : ∀ run rehearsal store store',
        LoopAccord w journal refresh now rest run rehearsal store store' store store' := fun _ _ _ _ =>
      ⟨[], List.nil_sublist _, List.forall_mem_nil _, rfl, rfl⟩
    have hof : ∀ (e : Ended) (calls calls' : List Call), e.row = row →
        checkOutcome w journal false refresh now past market = .ok (.ok e.state, e.market) →
        checkOutcome w journal true refresh now past' market = .ok (.ok e.state, e.market) →
        e.Of w journal refresh now ((row, market) :: rest) (past ++ calls) (past' ++ calls') := by
      intro e calls calls' hrow hreal hrehearsal
      refine ⟨market, past, past', ?_, List.prefix_append _ _, List.prefix_append _ _, h, hreal, hrehearsal⟩
      rw [hrow]
      exact List.mem_cons_self
    refine hfirst.bind (fun summary calls calls' s s' hc hp => ?_) fun _ calls calls' s s' hp => ?_
    · rcases hp with ⟨rfl, rfl⟩ | ⟨e, hrow, hreal, hrehearsal, rfl, rfl⟩
      · refine (ih (hc.inquiries_after h) hsome summary).mono
          fun _ more more' _ _ hrest => ?_
        rw [List.append_assoc, List.append_assoc] at hrest
        exact hrest.leave
      · have hsome : ((e.effect false).apply row store).markets.isSome =
            ((e.effect true).apply row store').markets.isSome := by
          rw [RowEffect.isSome_markets_apply, RowEffect.isSome_markets_apply, hsome]
        refine (ih (hc.inquiries_after h) hsome summary).mono
          fun _ more more' _ _ hrest => ?_
        rw [List.append_assoc, List.append_assoc] at hrest
        exact hrest.check hrow (hof e _ _ hrow hreal hrehearsal)
    · rcases hp with ⟨rfl, rfl⟩ | ⟨e, hrow, hreal, hrehearsal, rfl, rfl⟩
      · exact (hnone _ _ s s').leave
      · exact (hnone _ _ _ _).check hrow (hof e _ _ hrow hreal hrehearsal)

/-- The markets are loaded as far as the world lets the store be worked on. -/
theorem load_accord (hu : w.Unheeding) (h : inquiries past = inquiries past') (journal : Bool) :
    Course.Accord ((services journal).load .markets Store.loadMarkets)
      ((services journal).load .markets Store.loadMarkets) w past past' store store fun result _ _ s s' =>
        s = store ∧ s' = store ∧ ∀ rows, result = .ok rows → rows = store.readable := by
  have hanswer : w.answer past .access = w.answer past' .access := hu past past' .access rfl h
  unfold Course.Accord
  rw [Course.leads_load, hanswer]
  cases haccess : w.answer past' .access with
  | some fault =>
    dsimp only
    rw [Course.leads_load, haccess]
    refine ⟨rfl, .inquire rfl .stop, rfl, rfl, fun rows hrows => ?_⟩
    cases fault <;> cases hrows
  | none =>
    dsimp only
    rw [Course.leads_load, haccess, Store.run_loadMarkets]
    refine ⟨rfl, .inquire rfl .stop, rfl, rfl, fun rows hrows => ?_⟩
    unfold Store.readable
    cases hm : store.markets with
    | none =>
      rw [hm] at hrows
      cases hrows
    | some table =>
      rw [hm] at hrows
      exact (Except.ok.inj hrows).symm

/-- The checks of a cycle go side by side with their rehearsal. -/
theorem checkAll_accord (hw : w.Applies) (hu : w.Unheeding) (h : inquiries past = inquiries past')
    (journal refresh : Bool) (now : Instant) (created : Nat) :
    CycleM.Accord (checkAll (services journal) false refresh now created)
      (checkAll (services journal) true refresh now created) w past past' store store fun _ calls calls' s s' =>
        LoopAccord w journal refresh now store.readable (past ++ calls) (past' ++ calls') store store s s' := by
  unfold checkAll
  refine CycleM.accord_call_bind (load_accord hu h journal) fun loaded calls calls' s s' hc hp => ?_
  obtain ⟨hs, hs', hrows⟩ := hp
  rw [hs, hs']
  match loaded with
  | .error _ => exact CycleM.accord_pure ⟨[], List.nil_sublist _, List.forall_mem_nil _, rfl, rfl⟩
  | .ok rows =>
    rw [← hrows rows rfl]
    have hloop : CycleM.Accord (processMarkets (services journal) false refresh now { created } rows)
        (processMarkets (services journal) true refresh now { created } rows) w (past ++ calls) (past' ++ calls') store
        store _ := processMarkets_accord hw hu journal refresh now rows (hc.inquiries_after h) rfl { created }
    simp only [List.append_assoc] at hloop
    refine hloop.bind (fun summary more more' s s' _ hp => CycleM.accord_pure ?_) fun _ _ _ _ _ hp => hp
    rw [List.append_nil, List.append_nil]
    exact hp

end

/-! ## Faithful rehearsals -/

/-- A rehearsal writes back as otherwise, except for a market that was to be resolved or cancelled while the platform
has it open. -/
theorem writeChecked_rehearsal {m : Type → Type} [Monad m] (s : Services m) (row : Int) (market : Market)
    (state : CheckState) :
    writeChecked s true row market state =
      if (state = .resolved ∨ state = .cancelled) ∧ market.snapshot.isResolved = false then
        s.store (Store.updateMarket row market)
      else writeChecked s false row market state := by
  have hfinished := isFinished_iff false market state
  have hfinished' := isFinished_iff true market state
  by_cases hkeep : (state = .resolved ∨ state = .cancelled) ∧ market.snapshot.isResolved = false
  · have hno : isFinished true market state = false := by
      rw [Bool.eq_false_iff, Ne, hfinished', hkeep.2]
      simp
    rw [if_pos hkeep]
    unfold writeChecked
    rw [hno, if_neg nofun]
  · have hsame : isFinished true market state = isFinished false market state := by
      rw [Bool.eq_iff_iff, hfinished, hfinished']
      have hresolved : state = .resolved ∨ state = .cancelled → market.snapshot.isResolved = true := fun hstate => by
        simpa using fun hopen => hkeep ⟨hstate, hopen⟩
      constructor
      · exact fun ⟨hstate, _⟩ => ⟨hstate, .inl rfl⟩
      · exact fun ⟨hstate, _⟩ => ⟨hstate, .inr (hresolved hstate)⟩
    rw [if_neg hkeep]
    unfold writeChecked
    rw [hsame]

/-- A rehearsal is faithful where what is applied succeeds. A check and its rehearsal come to the same state of the same
market, or to the same failure; they inquire the same in the same order and get the same answers, so the same proposal
is confirmed. The rehearsal writes nothing to the platform, and its entry in the journal says so. A rehearsal keeps the
row of a market that was to be resolved or cancelled while the platform has it open, and writes back as otherwise in all
other cases. So in a world that does not heed what is applied, the checks of a whole cycle leave the store that their
rehearsal leaves, without the rows that the rehearsal keeps. -/
theorem rehearsal_faithful {w : World} (hw : w.Applies) (journal : Bool) :
    (∀ (market : Market) (refresh : Bool) (now : Instant) (past : List Call), ∃ result calls calls',
      Course.Gives (ExceptT.run (checkMarket (services journal) false market refresh now)) w past result calls ∧
      Course.Gives (ExceptT.run (checkMarket (services journal) true market refresh now)) w past result calls' ∧
      Rehearses calls calls' ∧ inquiries calls = inquiries calls' ∧ ∀ c ∈ calls', c.question.isWrite = false) ∧
    (∀ {m : Type → Type} [Monad m] (s : Services m) (row : Int) (market : Market) (state : CheckState),
      writeChecked s true row market state =
        if (state = .resolved ∨ state = .cancelled) ∧ market.snapshot.isResolved = false then
          s.store (Store.updateMarket row market)
        else writeChecked s false row market state) ∧
    (w.Unheeding → ∀ (refresh : Bool) (now : Instant) (created : Nat) (past : List Call) (store : Store),
      CycleM.Accord (checkAll (services journal) false refresh now created)
        (checkAll (services journal) true refresh now created) w past past store store fun _ calls calls' s s' =>
          ∃ ended : List Ended, (ended.map (·.row)).Sublist (store.readable.map (·.1)) ∧
            (∀ e ∈ ended, e.Of w journal refresh now store.readable (past ++ calls) (past ++ calls')) ∧
            s = store.writeBack false ended ∧ s' = store.writeBack true ended ∧
            s = s'.without ((ended.filter (·.kept)).map (·.row))) := by
  refine ⟨fun market refresh now past => ?_, fun {m} _ s row market state => ?_,
    fun hu refresh now created past store => ?_⟩
  · obtain ⟨result, calls, calls', hreal, hrehearsal, hc⟩ :=
      checkMarket_rehearsal journal market refresh now w past past hw (alike_refl w past)
    exact ⟨result, calls, calls', hreal, hrehearsal, hc, hc.inquiries_eq, hc.unwritten⟩
  · exact writeChecked_rehearsal s row market state
  · refine (checkAll_accord hw hu rfl journal refresh now created).mono fun _ calls calls' s s' h => ?_
    obtain ⟨ended, hrows, hof, rfl, rfl⟩ := h
    exact ⟨ended, hrows, hof, rfl, rfl, Store.writeBack_real ended store⟩

/-- A world with a market that is resolved to whatever is proposed for it. -/
def obligingWorld : World where
  answer _
    | .clock => ⟨1, 0⟩
    | .access => none
    | .entropy => (0 : UInt64)
    | .snapshot _ => .ok ⟨"a", "", "A?", .binary, none, none, false, [], none, false⟩
    | .confirm _ _ => .ok .resolve
    | .resolve _ _ | .cancel _ | .record _ => .ok ()
    | .currentValue _ | .otherMarket _ | .user _ | .pullRequest _ => .error (.request "")
    | .create _ => .error (.ofText "")
    | .send _ => .failed []

/-- A market that resolves to YES as soon as it is checked. -/
def dueMarket : Market where
  snapshot := ⟨"a", "", "A?", .binary, none, none, false, [], none, false⟩
  triggers := [.atTime ⟨0, 0⟩]
  values := [.constant (.bool true)]
  checkRate := 1
  lastChecked := none
  notes := ""
  initialValues := none

/-- A row with a market that resolves to YES if it is checked at a time or later. -/
def timedRow (time : String) : MarketRow where
  text := "[[\"a\",\"\",\"A?\",\"BINARY\",null,null,false,[],null,false]," ++
    ("[[\"generic.ResolveAtTime\",\x7b\"resolve_at\":\"" ++ (time ++ "\"\x7d]],") ++
      "[[\"generic.ResolveToValue\",\x7b\"resolve_value\":true\x7d]],1]")
  lastChecked := none

theorem obligingWorld_applies : obligingWorld.Applies := ⟨fun _ _ _ => rfl, fun _ _ => rfl⟩

theorem obligingWorld_unheeding : obligingWorld.Unheeding := by
  intro _ _ q _ _
  cases q <;> rfl

/-- A market is resolved with one call to the platform. The rehearsal comes to the same without it. -/
theorem rehearsal_resolves :
    obligingWorld.Applies ∧ obligingWorld.Unheeding ∧
    (∃ calls calls',
      Course.Gives (ExceptT.run (checkMarket (services true) false dueMarket true ⟨1, 0⟩)) obligingWorld []
        (.ok (.ok .resolved, dueMarket.markChecked ⟨1, 0⟩)) calls ∧
      Course.Gives (ExceptT.run (checkMarket (services true) true dueMarket true ⟨1, 0⟩)) obligingWorld []
        (.ok (.ok .resolved, dueMarket.markChecked ⟨1, 0⟩)) calls' ∧
      Rehearses calls calls' ∧ calls.countP (·.question.isApplication) = 1 ∧
        calls'.countP (·.question.isApplication) = 0) ∧
    CycleM.Accord (checkAll (services true) false true ⟨1, 0⟩ 0) (checkAll (services true) true true ⟨1, 0⟩ 0)
      obligingWorld [] [] (twoRows (rowAtRate "1") (rowAtRate "2")) (twoRows (rowAtRate "1") (rowAtRate "2"))
      fun _ _ _ s s' => ∃ kept, s = s'.without kept := by
  obtain ⟨hcheck, -, hcycle⟩ := rehearsal_faithful obligingWorld_applies true
  refine ⟨obligingWorld_applies, obligingWorld_unheeding, ?_, ?_⟩
  · obtain ⟨result, calls, calls', hreal, hrehearsal, hc, -⟩ := hcheck dueMarket true ⟨1, 0⟩ []
    have hresult : result = .ok (.ok .resolved, dueMarket.markChecked ⟨1, 0⟩) :=
      (congrArg Upshot.result (hreal Store.empty)).symm
    have hcalls : _ = calls := congrArg Upshot.calls (hreal Store.empty)
    have hcalls' : _ = calls' := congrArg Upshot.calls (hrehearsal Store.empty)
    rw [hresult] at hreal hrehearsal
    refine ⟨calls, calls', hreal, hrehearsal, hc, ?_, ?_⟩
    · rw [← hcalls]
      rfl
    · rw [← hcalls']
      rfl
  · refine (hcycle obligingWorld_unheeding true ⟨1, 0⟩ 0 [] _).mono fun _ _ _ s s' h => ?_
    obtain ⟨ended, -, -, -, -, hs⟩ := h
    exact ⟨_, hs⟩

end Arbiter
