import Arbiter.Proofs.Cycle.Creations
import Arbiter.Proofs.Cycle.Told
import Arbiter.Proofs.Store.Ledger

/-!
# What becomes of queued requests

While the store can be worked on every request that can be read is dealt with once, in the order of the queue, and what is
done for it depends on nothing but itself and the answer of the platform. Nothing is lost on the way and nothing is there
twice. The queue has an order because no priority in it is no number, and no run changes that.

* `Store.Ranked`: every priority is a number. `runSteps_ranked`: it is so after a run if it was before.
* `Store.Lines`: the order of the queue. `lines_waiting`: the requests of a store stand in it.
* `CreationRequest.managed`: the market that is stored for a request. `intoMarket_of_valid`: a valid request has one.
* `Fate`, `Dealing`: what becomes of a request. `Dealing.Fits`: why. `Dealing.calls`, `Dealing.settle`: what is asked of the
  platform for it, and what the store is after it.
* `processRequest_deals`: one request. `processRequests_deals`: any number of them.
* `queue_conserved`: what becomes of the whole queue.
-/

namespace Arbiter

/-! ## The order of the queue -/

namespace Store

/-- No request has a priority that is no number. Nothing else is ever queued. -/
def Ranked (store : Store) : Prop := ∀ row kept, store.queued? row = some kept → kept.priority.isNaN = false

theorem ranked_empty : empty.Ranked := nofun

namespace Ranked

variable {store store' : Store} (h : store.Ranked)

include h

/-- Requests may leave the queue. -/
theorem of_pending (hp : store'.pending = store.pending ∨
    ∃ row, store'.pending = store.pending.map fun table => table.remove row) : store'.Ranked := by
  intro row kept hrow
  refine h row kept ?_
  rcases hp with hp | ⟨gone, hp⟩
  · rw [queued?, hp] at hrow
    exact hrow
  · rw [queued?, hp] at hrow
    cases hqueue : store.pending with
    | none =>
      rw [hqueue] at hrow
      cases hrow
    | some table =>
      rw [hqueue] at hrow
      have hrow : (table.remove gone).get? row = some kept := hrow
      rw [Table.get?_remove] at hrow
      split at hrow
      · cases hrow
      · rw [queued?, hqueue]
        exact hrow

/-- Any request whose priority is a number may come to it. -/
theorem add {kept : PendingRow} (hn : kept.priority.isNaN = false) :
    Ranked { store with pending := store.pending.map fun table => (table.add kept).2 } := by
  obtain ⟨markets, queue⟩ := store
  cases queue with
  | none => exact h
  | some table =>
    intro row other hrow
    have hrow : (table.add kept).2.get? row = some other := hrow
    by_cases hnew : row = table.last + 1
    · subst hnew
      cases (SortedMap.lookup_insert_self table.rows (table.last + 1) kept).symm.trans hrow
      exact hn
    · exact h row other ((table.get?_add _ hnew).symm.trans hrow)

/-- To queue a request keeps that. -/
theorem queueRequest (request : CreationRequest) (priority : Float) (cost : Int) :
    (run (queueRequest request priority cost) store).2.Ranked := by
  rw [run_queueRequest]
  cases hn : priority.isNaN with
  | true => exact h
  | false => exact h.add ((isNaN_unsignedZero priority).trans hn)

end Ranked

/-- An edit keeps that. -/
theorem Ranked.edit {store : Store} (h : store.Ranked) (edit : StoreEdit) : (run edit.work store).2.Ranked := by
  cases edit with
  | insert market =>
    rw [StoreEdit.work, run_then_pure, run_insertMarket]
    exact h.of_pending (.inl rfl)
  | update row market =>
    rw [StoreEdit.work, run_updateMarket]
    exact h.of_pending (.inl rfl)
  | remove row =>
    rw [StoreEdit.work, run_then_pure, run_removeMarket]
    exact h.of_pending (.inl rfl)
  | queue request priority cost =>
    rw [StoreEdit.work, run_then_pure]
    exact h.queueRequest request priority cost
  | dequeue row =>
    rw [StoreEdit.work, run_then_pure, run_removePending]
    exact h.of_pending (.inr ⟨row, rfl⟩)

/-- The list has the requests that can be read and nothing else, the greatest priority first; with one priority the smaller
row number comes first. -/
structure Lines (store : Store) (l : List PendingRequest) : Prop where
  mem_iff : ∀ p, p ∈ l ↔ ∃ kept, store.queued? p.row = some kept ∧ kept.priority = p.priority ∧ kept.cost = p.cost ∧
    decodeText CreationRequest.shape CreationRequest.decode kept.text = .ok p.request
  ordered : l.Pairwise fun p q => q.priority < p.priority ∨ (p.priority == q.priority) = true ∧ p.row < q.row

theorem decodePending_eq_ok_iff {kept : PendingRow} {e : PendingRow × CreationRequest} : decodePending kept = .ok e ↔
    e.1 = kept ∧ decodeText CreationRequest.shape CreationRequest.decode kept.text = .ok e.2 := by
  unfold decodePending
  cases decodeText CreationRequest.shape CreationRequest.decode kept.text with
  | error fault => exact ⟨nofun, fun h => nomatch h.2⟩
  | ok request =>
    obtain ⟨kept', request'⟩ := e
    constructor
    · intro h
      cases h
      exact ⟨rfl, rfl⟩
    · rintro ⟨rfl, h⟩
      cases h
      rfl

/-- Requests that can be read stand as their rows do. -/
theorem found_decodePending_sublist : ∀ rows : List (Int × PendingRow),
    ((decodeRows decodePending rows).found.map fun e => (e.1, e.2.1)).Sublist rows
  | [] => .slnil
  | (row, kept) :: rest => by
    have ih := found_decodePending_sublist rest
    cases hd : decodePending kept with
    | ok e =>
      obtain ⟨rfl, -⟩ := decodePending_eq_ok_iff.1 hd
      simp only [decodeRows, hd]
      exact ih.cons_cons _
    | error fault =>
      simp only [decodeRows, hd]
      exact ih.cons _

/-- What waits in a store stands in the order of the queue. -/
theorem lines_waiting {store : Store} (h : store.Ranked) : store.Lines store.waiting := by
  obtain ⟨markets, queue⟩ := store
  cases queue with
  | none => exact ⟨fun p => ⟨nofun, fun ⟨_, hrow, _⟩ => nomatch hrow⟩, .nil⟩
  | some table =>
    have hmem : ∀ row kept, (row, kept) ∈ byPriority table.toList ↔ table.get? row = some kept := fun row kept =>
      List.mem_mergeSort.trans Table.mem_toList
    have hnumbers : ∀ e ∈ table.toList, e.2.priority.isNaN = false := fun e he => h e.1 e.2 (Table.mem_toList.1 he)
    refine ⟨fun p => List.mem_map.trans ?_, List.pairwise_map.2 ?_⟩
    · constructor
      · rintro ⟨⟨row, kept, request⟩, hin, rfl⟩
        obtain ⟨kept', hrow, hd⟩ := mem_found_decodeRows.1 hin
        obtain ⟨rfl, hd⟩ := decodePending_eq_ok_iff.1 hd
        exact ⟨kept, (hmem _ _).1 hrow, rfl, rfl, hd⟩
      · obtain ⟨row, priority, cost, request⟩ := p
        rintro ⟨kept, hrow, rfl, rfl, hd⟩
        exact ⟨(row, kept, request),
          mem_found_decodeRows.2 ⟨kept, (hmem _ _).2 hrow, decodePending_eq_ok_iff.2 ⟨rfl, hd⟩⟩, rfl⟩
    · have hdistinct : (byPriority table.toList).Pairwise fun a b => a.1 ≠ b.1 :=
        List.pairwise_map.1 (((List.mergeSort_perm _ _).map _).nodup_iff.2 table.nodup_toList)
      have hordered := (byPriority_ordered hnumbers).and hdistinct
      have hrows : (byPriority table.toList).Pairwise fun a b =>
          b.2.priority < a.2.priority ∨ (a.2.priority == b.2.priority) = true ∧ a.1 < b.1 :=
        hordered.imp_of_mem fun {a b} ha hb ⟨hkey, hne⟩ => ordered_of_rowKey (hnumbers a (List.mem_mergeSort.1 ha))
          (hnumbers b (List.mem_mergeSort.1 hb)) hkey hne
      exact List.pairwise_map.1 (hrows.sublist (found_decodePending_sublist _))

end Store

/-! ## Created markets -/

namespace CreationRequest

/-- The market that is stored once the platform created it: never checked, with all that the request says of it. -/
def managed (r : CreationRequest) (created : Snapshot) : Market where
  snapshot := created
  triggers := r.triggers
  values := r.values
  checkRate := r.checkRate
  lastChecked := none
  notes := r.notes
  initialValues := if r.initialValues.isEmpty then none else some r.initialValues

/-- A valid request always has a managed market. -/
theorem intoMarket_of_valid {r : CreationRequest} (h : r.validate = .ok ()) (created : Snapshot) :
    r.intoMarket created = .ok (r.managed created) := by
  unfold validate at h
  unfold intoMarket Market.new
  cases hrules : validateRules r.triggers r.values r.checkRate with
  | error fault =>
    rw [hrules] at h
    cases h
  | ok _ => rfl

end CreationRequest

/-! ## Dealings -/

/-- What becomes of a queued request. -/
inductive Fate where
  | dropped (fault : MarketFault)
  /-- Nothing is done but to tell what would be. -/
  | rehearsed
  | refused (failure : Failure)
  | created (snapshot : Snapshot)

/-- A request, and what becomes of it. -/
structure Dealing where
  pending : PendingRequest
  fate : Fate

/-- A call that reaches beyond the store. -/
def Call.isOutside : Call → Bool
  | ⟨.access, _⟩ => false
  | _ => true

namespace Dealing

/-- Why it becomes of it: the request is invalid, or nothing is done at all, or this is what the platform answers. -/
inductive Fits (w : World) (dryRun : Bool) : Dealing → Prop where
  | dropped {pending : PendingRequest} {fault : MarketFault} (h : pending.request.validate = .error fault) :
      Fits w dryRun ⟨pending, .dropped fault⟩
  | rehearsed {pending : PendingRequest} (h : pending.request.validate = .ok ()) (hdry : dryRun = true) :
      Fits w dryRun ⟨pending, .rehearsed⟩
  | refused {pending : PendingRequest} {earlier : List Call} {failure : Failure} (h : pending.request.validate = .ok ())
      (hdry : dryRun = false) (hanswer : w.answer earlier (.create pending.request) = .error failure) :
      Fits w dryRun ⟨pending, .refused failure⟩
  | created {pending : PendingRequest} {earlier : List Call} {snapshot : Snapshot} (h : pending.request.validate = .ok ())
      (hdry : dryRun = false) (hanswer : w.answer earlier (.create pending.request) = .ok snapshot) :
      Fits w dryRun ⟨pending, .created snapshot⟩

/-- What is asked of the platform for a request. -/
def calls (d : Dealing) : List Call :=
  match d.fate with
  | .dropped _ | .rehearsed => []
  | .refused failure => [⟨.create d.pending.request, .error failure⟩]
  | .created snapshot => [⟨.create d.pending.request, .ok snapshot⟩]

/-- The market that is stored for a request, if any. -/
def stored (d : Dealing) : List Market :=
  match d.fate with
  | .created snapshot => [d.pending.request.managed snapshot]
  | .dropped _ | .rehearsed | .refused _ => []

/-- Whether the request leaves the queue. -/
def leaves (d : Dealing) : Bool :=
  match d.fate with
  | .dropped _ | .created _ => true
  | .rehearsed | .refused _ => false

/-- The store after it. -/
def settle (d : Dealing) (store : Store) : Store where
  markets := store.markets.map fun table => table.addAll (d.stored.map Store.rowOfMarket)
  pending := if d.leaves then store.pending.map fun table => table.remove d.pending.row else store.pending

end Dealing

/-- What is done for some requests: how many markets are stored, the calls, and the store before and after them. -/
structure Deals (w : World) (dryRun : Bool) (dealings : List Dealing) (count : Nat) (calls : List Call)
    (before after : Store) : Prop where
  fits : ∀ d ∈ dealings, d.Fits w dryRun
  count : count = (dealings.flatMap Dealing.stored).length
  asked : calls.filter Call.isOutside = dealings.flatMap Dealing.calls
  after : after = dealings.foldl (fun store d => d.settle store) before

section

variable {w : World} {past : List Call} {store : Store} {journal dryRun : Bool}

theorem deals_nil (store : Store) : Deals w dryRun [] 0 [] store store := ⟨List.forall_mem_nil _, rfl, rfl, rfl⟩

theorem Deals.append {dealings later : List Dealing} {count count' : Nat} {calls more : List Call}
    {before between after : Store} (h : Deals w dryRun dealings count calls before between)
    (h' : Deals w dryRun later count' more between after) :
    Deals w dryRun (dealings ++ later) (count + count') (calls ++ more) before after where
  fits := List.forall_mem_append.2 ⟨h.fits, h'.fits⟩
  count := by rw [List.flatMap_append, List.length_append, h.count, h'.count]
  asked := by rw [List.filter_append, List.flatMap_append, h.asked, h'.asked]
  after := by rw [List.foldl_append, ← h.after, h'.after]

/-- What is done for one request. -/
theorem Dealing.Fits.deals {d : Dealing} (h : d.Fits w dryRun) {calls : List Call}
    (hcalls : calls.filter Call.isOutside = d.calls) :
    Deals w dryRun [d] d.stored.length calls store (d.settle store) where
  fits := List.forall_mem_singleton.2 h
  count := by rw [List.flatMap_singleton]
  asked := by rw [List.flatMap_singleton, hcalls]
  after := rfl

/-! ## One request -/

/-- Both tables are there. -/
def Store.Whole (store : Store) : Prop := ∃ markets queue, store = ⟨some markets, some queue⟩

/-- Tables stay where they are. -/
theorem Store.Whole.of_follows {store' : Store} (h : store.Whole) (hf : store.Follows store') : store'.Whole := by
  obtain ⟨markets, queue, rfl⟩ := h
  obtain ⟨markets', queue'⟩ := store'
  obtain ⟨hm, hq⟩ := hf
  cases hm
  cases hq
  exact ⟨_, _, rfl⟩

theorem Dealing.whole_settle (d : Dealing) (h : store.Whole) : (d.settle store).Whole := by
  obtain ⟨markets, queue, rfl⟩ := h
  unfold settle
  split
  · exact ⟨_, _, rfl⟩
  · exact ⟨_, _, rfl⟩

theorem Deals.whole {dealings : List Dealing} {count : Nat} {calls : List Call} {after : Store}
    (h : Deals w dryRun dealings count calls store after) (hwhole : store.Whole) : after.Whole := by
  rw [h.after]
  exact List.foldlRecOn dealings _ hwhole fun _ hstore d _ => d.whole_settle hstore

variable (hopen : ∀ past, w.answer past .access = none)
include hopen

/-- An invalid request leaves the queue, and that is all. -/
theorem dropInvalid_deals (dryRun : Bool) (hwhole : store.Whole) {pending : PendingRequest} {fault : MarketFault}
    (hinvalid : pending.request.validate = .error fault) :
    (dropInvalid (services journal) pending fault).Leads w past store fun _ calls after =>
      Deals w dryRun [⟨pending, .dropped fault⟩] 0 calls store after := by
  obtain ⟨markets, queue, rfl⟩ := hwhole
  unfold dropInvalid
  rw [Course.leads_notify, Course.leads_bind, Course.leads_store, hopen, Store.run_removePending]
  exact (Dealing.Fits.dropped hinvalid).deals rfl

/-- A market that the platform created is stored as its request says. -/
theorem storeCreated_deals {markets : Table MarketRow} {queue : Option (Table PendingRow)} {request : CreationRequest}
    (hvalid : request.validate = .ok ()) (snapshot : Snapshot) :
    (storeCreated (services journal) request snapshot).Leads w past ⟨some markets, queue⟩ fun stored calls after =>
      stored = true ∧ calls.filter Call.isOutside = [] ∧
        after = ⟨some (markets.add (Store.rowOfMarket (request.managed snapshot))).2, queue⟩ := by
  unfold storeCreated insertCreated
  rw [request.intoMarket_of_valid hvalid snapshot, Course.leads_bind, Course.leads_store, hopen, Store.run_insertMarket]
  exact ⟨rfl, rfl, rfl⟩

/-- A valid request is asked of the platform once. -/
theorem createPending_deals (hwhole : store.Whole) {pending : PendingRequest} (hvalid : pending.request.validate = .ok ()) :
    (createPending (services journal) pending).Leads w past store fun stored calls after =>
      ∃ d : Dealing, d.pending = pending ∧ Deals w false [d] (if stored then 1 else 0) calls store after := by
  obtain ⟨markets, queue, rfl⟩ := hwhole
  unfold createPending
  refine Course.leads_bind.2 (Course.leads_ask.2 ?_)
  cases hanswer : w.answer past (.create pending.request) with
  | error failure =>
    exact ⟨⟨pending, .refused failure⟩, rfl, (Dealing.Fits.refused hvalid rfl hanswer).deals rfl⟩
  | ok snapshot =>
    -- the request goes first, and then the market is stored
    rw [Course.leads_bind, Course.leads_store, hopen, Store.run_removePending]
    refine (storeCreated_deals hopen hvalid snapshot).mono fun stored calls after h => ?_
    obtain ⟨rfl, hcalls, rfl⟩ := h
    refine ⟨⟨pending, .created snapshot⟩, rfl, (Dealing.Fits.created hvalid rfl hanswer).deals ?_⟩
    rw [List.filter_append, List.filter_append, hcalls]
    rfl

/-- Every request is dealt with. -/
theorem processRequest_deals (hwhole : store.Whole) (pending : PendingRequest) :
    (processRequest (services journal) dryRun pending).Leads w past store fun stored calls after =>
      ∃ d : Dealing, d.pending = pending ∧ Deals w dryRun [d] (if stored then 1 else 0) calls store after := by
  unfold processRequest
  split
  case h_1 fault hinvalid =>
    refine (dropInvalid_deals hopen dryRun hwhole hinvalid).bind fun _ calls after h => ?_
    refine ⟨⟨pending, .dropped fault⟩, rfl, ?_⟩
    change Deals w dryRun _ 0 (calls ++ []) store after
    rwa [List.append_nil]
  case h_2 hvalid =>
    cases dryRun with
    | true =>
      obtain ⟨markets, queue, rfl⟩ := hwhole
      exact ⟨⟨pending, .rehearsed⟩, rfl, (Dealing.Fits.rehearsed hvalid rfl).deals rfl⟩
    | false => exact createPending_deals hopen hwhole hvalid

/-! ## The whole queue -/

/-- One request after another is dealt with. -/
theorem processRequests_deals : ∀ (requests : List PendingRequest) (created : Nat) (past : List Call) (store : Store),
    store.Whole → (processRequests (services journal) dryRun created requests).Leads w past store fun total calls after =>
      ∃ dealings count, dealings.map Dealing.pending = requests ∧ total = created + count ∧
        Deals w dryRun dealings count calls store after
  | [], created, _, store, _ => ⟨[], 0, rfl, rfl, deals_nil store⟩
  | pending :: rest, created, past, store, hwhole => by
    refine (processRequest_deals hopen hwhole pending).bind fun stored calls between h => ?_
    obtain ⟨d, rfl, hd⟩ := h
    refine (processRequests_deals rest _ _ between (hd.whole hwhole)).mono fun total more after hrest => ?_
    obtain ⟨dealings, count, rfl, rfl, hdealings⟩ := hrest
    refine ⟨d :: dealings, (if stored then 1 else 0) + count, rfl, ?_, hd.append hdealings⟩
    split
    · omega
    · omega

end

/-! ## Stores of a run -/

/-- No event queues a request whose priority is no number. -/
theorem Event.Lawful.ranked {w : World} {journal dryRun : Bool} {e : Event} (h : e.Lawful w journal dryRun)
    (hranked : e.before.Ranked) : e.after.Ranked := by
  unfold Event.Lawful at h
  cases hs : e.subject with
  | edit =>
    rw [hs] at h
    obtain ⟨-, edit, hafter⟩ := h
    exact hafter ▸ hranked.edit edit
  | request row =>
    rw [hs] at h
    exact hranked.of_pending (h.2.pending.imp_right fun hp => ⟨row, hp⟩)
  | market row refresh now =>
    rw [hs] at h
    obtain ⟨market, h⟩ := h
    exact hranked.of_pending (.inl h.pending)

/-- No run loses a table or queues a request whose priority is no number. -/
theorem runSteps_ranked {w : World} (hopen : ∀ past, w.answer past .access = none) (journal dryRun : Bool)
    (steps : List RunStep) (past : List Call) {store : Store} (hwhole : store.Whole) (hranked : store.Ranked) :
    (runSteps (services journal) dryRun steps).Leads w past store fun _ _ later => later.Whole ∧ later.Ranked :=
  (runSteps_tells hopen journal dryRun steps past store).mono fun _ _ _ h =>
    ⟨hwhole.of_follows h.follows, h.keeps (fun _ he => he.ranked) hranked⟩

/-! ## The rows of the queue -/

/-- The rows that leave the queue. -/
def leaving (dealings : List Dealing) : List Int := (dealings.filter Dealing.leaves).map fun d => d.pending.row

theorem Dealing.queued?_settle (d : Dealing) (store : Store) (row : Int) :
    (d.settle store).queued? row = if row ∈ leaving [d] then none else store.queued? row := by
  obtain ⟨markets, queue⟩ := store
  unfold settle leaving
  cases hl : d.leaves with
  | false => simp [Store.queued?, hl]
  | true =>
    cases queue with
    | none => simp [Store.queued?]
    | some table => simp [Store.queued?, hl, Table.get?_remove]

section

variable {w : World} {dryRun : Bool} {dealings : List Dealing} {count : Nat} {calls : List Call} {before after : Store}

/-- The rows that are left are those that did not leave. -/
theorem Deals.queued? (h : Deals w dryRun dealings count calls before after) (row : Int) :
    after.queued? row = if row ∈ leaving dealings then none else before.queued? row := by
  rw [h.after]
  clear h
  induction dealings generalizing before with
  | nil => rfl
  | cons d rest ih =>
    have hsplit : leaving (d :: rest) = leaving [d] ++ leaving rest := by
      unfold leaving
      rw [← List.map_append, ← List.filter_append]
      rfl
    rw [List.foldl_cons, ih, d.queued?_settle, hsplit]
    by_cases hd : row ∈ leaving [d] <;> by_cases hr : row ∈ leaving rest <;> simp [hd, hr]

/-- New markets come after the others. -/
theorem Deals.markets (h : Deals w dryRun dealings count calls before after) : after.markets =
    before.markets.map fun table => table.addAll ((dealings.flatMap Dealing.stored).map Store.rowOfMarket) := by
  rw [h.after]
  clear h
  induction dealings generalizing before with
  | nil => exact Option.map_id'.symm
  | cons d rest ih =>
    rw [List.foldl_cons, ih, List.flatMap_cons, List.map_append]
    unfold Dealing.settle
    rw [Option.map_map]
    refine congrArg (fun f => before.markets.map f) (funext fun table => ?_)
    exact (table.addAll_append _ _).symm

/-- Only calls beyond the store make markets. -/
theorem makings_outside (calls : List Call) : makings (calls.filter Call.isOutside) = makings calls := by
  have houtside : ∀ c : Call, c.makes = true → c.isOutside = true := by
    rintro ⟨question, answer⟩ hc
    cases question <;> first | rfl | cases hc
  unfold makings
  rw [List.countP_filter]
  exact List.countP_congr fun c _ => by simpa using houtside c

/-- As many markets are stored as the platform made. -/
theorem Deals.count_eq (h : Deals w dryRun dealings count calls before after) : count = makings calls := by
  have hone : ∀ d : Dealing, makings d.calls = d.stored.length := by
    rintro ⟨pending, fate⟩
    cases fate <;> rfl
  rw [h.count, ← makings_outside, h.asked]
  clear h
  induction dealings with
  | nil => rfl
  | cons d rest ih => rw [List.flatMap_cons, List.flatMap_cons, List.length_append, makings_append, ih, hone]

end

/-! ## What is kept -/

/-- What is known of a queue that was dealt with: the dealing of each request, the calls, the count, and the tables. -/
structure Conserved (w : World) (dryRun : Bool) (dealings : List Dealing) (result : Except Failure Nat) (calls : List Call)
    (before after : Store) : Prop where
  /-- Each request that can be read has one dealing, in the order of the queue. -/
  each : dealings.map Dealing.pending = before.waiting
  fits : ∀ d ∈ dealings, d.Fits w dryRun
  /-- Nothing but the store is asked for anything else, and nothing is asked twice. -/
  asked : calls.filter Call.isOutside = dealings.flatMap Dealing.calls
  result : result = .ok (makings calls)
  gone : ∀ d ∈ dealings, d.leaves = true → after.queued? d.pending.row = none
  stays : ∀ d ∈ dealings, d.leaves = false → after.queued? d.pending.row = before.queued? d.pending.row
  others : ∀ row, (∀ d ∈ dealings, d.pending.row ≠ row) → after.queued? row = before.queued? row
  unreadable : ∀ row kept, before.queued? row = some kept →
    (∀ request, decodeText CreationRequest.shape CreationRequest.decode kept.text ≠ .ok request) →
    after.queued? row = some kept
  /-- The old markets are as they were, and each market that was created has one new row. -/
  markets : ∃ old new, before.markets = some old ∧ after.markets = some new ∧ new.toList =
    old.toList ++ Table.numbered (old.last + 1) ((dealings.flatMap Dealing.stored).map Store.rowOfMarket)
  rehearsed : dryRun = true → after.markets = before.markets ∧
    ∀ d ∈ dealings, d.leaves = true → ∃ fault, d.pending.request.validate = .error fault

section

variable {w : World} {dryRun : Bool} {dealings : List Dealing} {count : Nat} {calls : List Call} {before after : Store}

theorem mem_leaving {row : Int} : row ∈ leaving dealings ↔ ∃ d ∈ dealings, d.leaves = true ∧ d.pending.row = row := by
  simp [leaving, and_assoc]

/-- In a rehearsal only invalid requests leave the queue, and no market is stored. -/
theorem Dealing.Fits.rehearsal {d : Dealing} (h : d.Fits w true) :
    d.stored = [] ∧ (d.leaves = true → ∃ fault, d.pending.request.validate = .error fault) := by
  cases h with
  | dropped h => exact ⟨rfl, fun _ => ⟨_, h⟩⟩
  | rehearsed => exact ⟨rfl, nofun⟩
  | refused _ hdry | created _ hdry => cases hdry

/-- A queue that was dealt with has lost nothing. -/
theorem Deals.conserved (h : Deals w dryRun dealings count calls before after) (hwhole : before.Whole)
    (hlines : before.Lines before.waiting) (heach : dealings.map Dealing.pending = before.waiting) :
    Conserved w dryRun dealings (.ok count) calls before after := by
  have hothers : ∀ row, (∀ d ∈ dealings, d.pending.row ≠ row) → after.queued? row = before.queued? row := by
    intro row hrow
    rw [h.queued? row, if_neg]
    rintro hin
    obtain ⟨d, hd, -, heq⟩ := mem_leaving.1 hin
    exact hrow d hd heq
  have hrows : (dealings.map fun d => d.pending.row).Nodup := by
    have hnodup := before.nodup_waiting
    rwa [← heach, List.map_map] at hnodup
  refine ⟨heach, h.fits, h.asked, congrArg _ h.count_eq, fun d hd hl => ?_, fun d hd hl => ?_, hothers, ?_, ?_, ?_⟩
  · rw [h.queued?, if_pos (mem_leaving.2 ⟨d, hd, hl, rfl⟩)]
  · rw [h.queued?, if_neg]
    intro hin
    obtain ⟨d', hd', hl', heq⟩ := mem_leaving.1 hin
    obtain rfl := List.inj_on_of_nodup_map hrows hd' hd heq
    rw [hl] at hl'
    cases hl'
  · intro row kept hrow hunreadable
    rw [hothers row, hrow]
    rintro d hd rfl
    have hin : d.pending ∈ before.waiting := heach ▸ List.mem_map_of_mem hd
    obtain ⟨kept', hrow', -, -, hread⟩ := (hlines.mem_iff _).1 hin
    cases hrow.symm.trans hrow'
    exact hunreadable _ hread
  · obtain ⟨old, queue, rfl⟩ := hwhole
    exact ⟨old, _, rfl, h.markets, old.toList_addAll _⟩
  · rintro rfl
    refine ⟨?_, fun d hd hl => (h.fits d hd).rehearsal.2 hl⟩
    have hnone : dealings.flatMap Dealing.stored = [] := List.flatMap_eq_nil_iff.2 fun d hd => (h.fits d hd).rehearsal.1
    rw [h.markets, hnone]
    exact Option.map_id'

end

/-- A queue in order is dealt with, and has lost nothing. -/
theorem processPending_conserves {w : World} (hopen : ∀ past, w.answer past .access = none) (journal dryRun : Bool)
    (past : List Call) {store : Store} (hwhole : store.Whole) (hranked : store.Ranked) :
    (processPending (services journal) dryRun).Leads w past store fun result calls after =>
      ∃ dealings, Conserved w dryRun dealings result calls store after := by
  have hlines := Store.lines_waiting hranked
  have hload : ((services journal).load .pending Store.loadPending).Leads w past store fun loaded calls after =>
      loaded = .ok store.waiting ∧ calls = [⟨.access, none⟩] ∧ after = store := by
    obtain ⟨markets, queue, rfl⟩ := hwhole
    rw [Course.leads_load, hopen, Store.run_loadPending]
    exact ⟨rfl, rfl, rfl⟩
  refine hload.bind fun loaded calls after h => ?_
  obtain ⟨rfl, rfl, rfl⟩ := h
  refine Course.leads_bind.2 ((processRequests_deals hopen after.waiting 0 _ after hwhole).mono fun total more last h => ?_)
  obtain ⟨dealings, count, heach, rfl, hdeals⟩ := h
  refine ⟨dealings, ?_⟩
  change Conserved w dryRun dealings (.ok (0 + count)) ([⟨.access, none⟩] ++ (more ++ [])) after last
  rw [List.append_nil]
  have hload : Deals w dryRun [] 0 [⟨.access, none⟩] after after := ⟨List.forall_mem_nil _, rfl, rfl, rfl⟩
  exact (hload.append hdeals).conserved hwhole hlines heach

/-- **The queue loses and duplicates nothing.** While the store can be worked on, the requests that can be read are dealt
with one after another in the order of the queue, and what the platform created for one of them is always stored. Both
tables have to be there and every priority has to be a number. This is so in the empty store, and no run changes it, so the
queue is dealt with in this way after every run. -/
theorem queue_conserved {w : World} (hopen : ∀ past, w.answer past .access = none) (journal dryRun : Bool)
    (past : List Call) {store : Store} (hwhole : store.Whole) (hranked : store.Ranked) :
    store.Lines store.waiting ∧
      (∀ (request : CreationRequest) (created : Snapshot), request.validate = .ok () →
        request.intoMarket created = .ok (request.managed created)) ∧
      (processPending (services journal) dryRun).Leads w past store (fun result calls after =>
        ∃ dealings, Conserved w dryRun dealings result calls store after) ∧
      ∀ steps : List RunStep,
        (runSteps (services journal) dryRun steps).Leads w past store fun _ earlier later =>
          later.Lines later.waiting ∧
            (processPending (services journal) dryRun).Leads w (past ++ earlier) later fun result calls after =>
              ∃ dealings, Conserved w dryRun dealings result calls later after := by
  refine ⟨Store.lines_waiting hranked, fun request created h => request.intoMarket_of_valid h created,
    processPending_conserves hopen journal dryRun past hwhole hranked, fun steps => ?_⟩
  exact (runSteps_ranked hopen journal dryRun steps past hwhole hranked).mono fun _ earlier later h =>
    ⟨Store.lines_waiting h.2, processPending_conserves hopen journal dryRun (past ++ earlier) h.1 h.2⟩

/-- A world that stands still, where every market is created. -/
def creatingWorld : World where
  answer past
    | .create _ => .ok ⟨"m", "", "Q?", .binary, none, none, false, [], none, false⟩
    | q => (World.still ⟨1709298000, 0⟩).answer past q

/-- A request whose market is created leaves the queue, and one market is stored. -/
theorem requestRow_dealt : (∀ past, creatingWorld.answer past .access = none) ∧ (oneRequest requestRow).Whole ∧
    (oneRequest requestRow).Ranked ∧
    (processPending (services false) false).Leads creatingWorld [] (oneRequest requestRow) fun result calls after =>
      result = .ok 1 ∧ makings calls = 1 ∧ after.queued? 1 = none := by
  have hopen : ∀ past, creatingWorld.answer past .access = none := fun _ => rfl
  have hwhole : (oneRequest requestRow).Whole := ⟨_, _, rfl⟩
  have hranked : (oneRequest requestRow).Ranked := Store.ranked_empty.add (by decide)
  obtain ⟨request, hread, hvalid⟩ := requestRow_valid
  obtain ⟨-, -, hdealt, -⟩ := queue_conserved hopen false false [] hwhole hranked
  refine ⟨hopen, hwhole, hranked, hdealt.mono fun result calls after h => ?_⟩
  obtain ⟨dealings, h⟩ := h
  have heach := h.each
  rw [waiting_oneRequest hread] at heach
  obtain ⟨⟨pending, fate⟩, rfl, rfl⟩ := List.map_eq_singleton_iff.1 heach
  have hasked := h.asked
  have hgone := h.gone _ (List.mem_singleton_self _)
  cases h.fits _ (List.mem_singleton_self _) with
  | dropped hinvalid =>
    cases hvalid.symm.trans hinvalid
  | rehearsed _ hdry => cases hdry
  | refused _ _ hanswer => cases hanswer
  | created _ _ hanswer =>
    have hone : makings calls = 1 := by
      rw [← makings_outside, hasked]
      rfl
    exact ⟨by rw [h.result, hone], hone, hgone rfl⟩

end Arbiter
