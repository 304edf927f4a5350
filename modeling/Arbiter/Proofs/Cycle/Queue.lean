import Arbiter.Proofs.Cycle.Law
import Arbiter.Proofs.Platform.Creation

/-!
# The queue during a cycle

A request is taken off the queue when its market was created to the end, or when it is invalid. Nothing else touches the
queue: the checks of a cycle leave it alone, and create nothing.

* `processMarkets_leavesQueue`: the checks leave the queue alone.
* `Store.queued?`: the request of a row. `Store.Sheds`: no request is put back.
-/

namespace Arbiter

variable {w : World} {past : List Call} {store : Store}

/-! ## Checks leave the queue alone -/

theorem Readings.creations {baseUrl : String} {calls : List Call} (h : Readings calls) : creations baseUrl calls = 0 :=
  List.countP_eq_zero.2 fun c hc => by
    obtain ⟨question, answer⟩ := c
    have := h _ hc
    cases question <;> first | exact Bool.false_ne_true | cases this

theorem Course.leavesQueueLaw (baseUrl : String) : CourseLaw fun x => x.LeavesQueue baseUrl where
  pure a := leavesQueue_pure a
  bind hx hf := hx.bind hf
  reads hx w past store := by
    obtain ⟨a, calls, hg, hr⟩ := hx.gives w past
    exact hg.leads ⟨hr.creations, rfl⟩

section

variable (journal dryRun : Bool) (baseUrl : String) (apiKey : Option String)

theorem store_leavesQueue {α : Type} {work : StoreM α} (h : ∀ store, (Store.run work store).2.pending = store.pending) :
    ((clientServices journal baseUrl apiKey).store work).LeavesQueue baseUrl :=
  (Course.leavesQueue_accessStore h).bind fun _ => Course.leavesQueue_pure _

theorem load_leavesQueue {α : Type} (table : TableName) {work : StoreM (Loaded α)}
    (h : ∀ store, (Store.run work store).2.pending = store.pending) :
    ((clientServices journal baseUrl apiKey).load table work).LeavesQueue baseUrl := by
  change ((services journal).load table work).LeavesQueue baseUrl
  rw [Course.load_eq]
  exact (store_leavesQueue journal baseUrl apiKey h).bind fun _ => Course.leavesQueue_pure _

theorem applyDecision_leavesQueue (market : Market) (proposal : Proposal) (decision : Decision) :
    (applyDecision (clientServices journal baseUrl apiKey) dryRun market proposal decision).LeavesQueue baseUrl := by
  have law := Course.leavesQueueLaw baseUrl
  cases decision with
  | skip => exact law.bind (law.pure ()) fun _ => law.pure _
  | resolve =>
    cases dryRun with
    | true => exact law.bind (law.pure ()) fun _ => law.pure _
    | false => exact PlatformClient.resolve_leavesQueue baseUrl apiKey market.snapshot proposal.value
  | cancel =>
    cases dryRun with
    | true => exact law.bind (law.pure ()) fun _ => law.pure _
    | false => exact PlatformClient.cancel_leavesQueue baseUrl apiKey market.snapshot

theorem recordDecision_leavesQueue (market : Market) (now : Instant) (proposal : Proposal) (decision : Decision)
    (applied : Bool) :
    (recordDecision (clientServices journal baseUrl apiKey) market now proposal decision applied).LeavesQueue baseUrl := by
  have law := Course.leavesQueueLaw baseUrl
  cases journal with
  | false => exact law.pure ()
  | true => exact law.bind (Course.leavesQueue_ask fun _ => rfl) fun
      | .ok () => law.pure ()
      | .error _ => law.pure ()

theorem settle_leavesQueue (market : Market) (now : Instant) (proposal : Proposal) :
    (settle (clientServices journal baseUrl apiKey) dryRun market now proposal).LeavesQueue baseUrl := by
  have law := Course.leavesQueueLaw baseUrl
  refine law.bind (law.pure ()) fun _ => law.bind (Course.leavesQueue_ask fun _ => rfl) fun
    | .error _ => law.pure _
    | .ok _ => law.bind (applyDecision_leavesQueue journal dryRun baseUrl apiKey market proposal _) fun
      | .error _ => law.pure _
      | .ok () => law.bind (recordDecision_leavesQueue journal baseUrl apiKey market now proposal _ _) fun _ => law.pure _

theorem checkMarket_leavesQueue (market : Market) (refresh : Bool) (now : Instant) :
    (ExceptT.run (checkMarket (clientServices journal baseUrl apiKey) dryRun market refresh now)).LeavesQueue baseUrl := by
  have law := Course.leavesQueueLaw baseUrl
  have hfresh : ∀ market, (ExceptT.run (checkFresh (clientServices journal baseUrl apiKey) dryRun market now)).LeavesQueue
      baseUrl := fun market => by
    unfold checkFresh
    split
    · exact law.followed (law.call (law.pure ())) fun _ => law.ok _
    · exact law.followed (law.propose journal market now) fun
        | .error fault => law.ok _
        | .ok none => law.ok _
        | .ok (some proposal) => law.call (settle_leavesQueue journal dryRun baseUrl apiKey market now proposal)
  exact law.followed (law.isWanted market refresh now) fun
    | false => law.ok _
    | true => law.followed (law.call (Course.leavesQueue_ask fun _ => rfl)) fun
      | .error _ => law.ok _
      | .ok snapshot => hfresh (market.refresh snapshot)

theorem reportFailure_leavesQueue (market : Market) (failure : Failure) :
    (reportFailure (clientServices journal baseUrl apiKey) market failure).LeavesQueue baseUrl := by
  have law := Course.leavesQueueLaw baseUrl
  refine law.bind (law.pure ()) fun _ => ?_
  cases journal with
  | false => exact law.pure ()
  | true => exact law.bind (Course.leavesQueue_ask fun _ => rfl) fun _ =>
      law.bind (Course.leavesQueue_ask fun _ => rfl) fun
        | .ok () => law.pure ()
        | .error _ => law.pure ()

theorem storeChecked_leavesQueue (row : Int) (market : Market) (state : CheckState) :
    (storeChecked (clientServices journal baseUrl apiKey) dryRun row market state).LeavesQueue baseUrl := by
  have law := Course.leavesQueueLaw baseUrl
  have hw : (writeChecked (clientServices journal baseUrl apiKey) dryRun row market state).LeavesQueue baseUrl := by
    unfold writeChecked
    split
    · refine law.bind (store_leavesQueue journal baseUrl apiKey fun store => ?_) fun
        | .ok _ => law.bind (law.pure ()) fun _ => law.pure _
        | .error _ => law.pure _
      rw [Store.run_removeMarket]
    · refine store_leavesQueue journal baseUrl apiKey fun store => ?_
      rw [Store.run_updateMarket]
  exact law.bind hw fun
    | .ok () => law.pure _
    | .error _ => law.bind (law.pure ()) fun _ => law.pure _

theorem processMarket_leavesQueue (refresh : Bool) (now : Instant) (summary : CycleSummary) (row : Int)
    (market : Market) : (ExceptT.run
      (processMarket (clientServices journal baseUrl apiKey) dryRun refresh now summary row market)).LeavesQueue
        baseUrl := by
  have law := Course.leavesQueueLaw baseUrl
  exact law.followed (law.isWanted market refresh now) fun
    | false => law.ok _
    | true => law.followed (checkMarket_leavesQueue journal dryRun baseUrl apiKey market refresh now) fun
      | (.error failure, market') =>
        law.followed (law.call (reportFailure_leavesQueue journal baseUrl apiKey market' failure)) fun _ => law.ok _
      | (.ok state, market') =>
        law.followed (law.call (storeChecked_leavesQueue journal dryRun baseUrl apiKey row market' state)) fun
          | true => law.ok _
          | false => law.ok _

/-- The checks of a cycle leave the queue alone. -/
theorem processMarkets_leavesQueue (refresh : Bool) (now : Instant) :
    ∀ (rows : List (Int × Market)) (summary : CycleSummary), (ExceptT.run
      (processMarkets (clientServices journal baseUrl apiKey) dryRun refresh now summary rows)).LeavesQueue baseUrl
  | [], summary => (Course.leavesQueueLaw baseUrl).ok summary
  | (row, market) :: rest, summary =>
    (Course.leavesQueueLaw baseUrl).followed
      (processMarket_leavesQueue journal dryRun baseUrl apiKey refresh now summary row market) fun summary =>
        processMarkets_leavesQueue refresh now rest summary

end

/-! ## Rows of the queue -/

namespace Store

/-- The request of a row, readable or not. -/
def queued? (store : Store) (row : Int) : Option PendingRow := store.pending.bind fun table => table.get? row

/-- No row is put back on the queue. -/
def Sheds (store store' : Store) : Prop := ∀ row, store.queued? row = none → store'.queued? row = none

theorem Sheds.trans {store store' store'' : Store} (h : store.Sheds store') (h' : store'.Sheds store'') :
    store.Sheds store'' := fun row hrow => h' row (h row hrow)

theorem sheds_of_pending {store store' : Store} (h : store'.pending = store.pending) : store.Sheds store' :=
  fun row hrow => by
    rw [queued?, h]
    exact hrow

theorem queued?_removePending (store : Store) (row other : Int) :
    (run (removePending row) store).2.queued? other = if other = row then none else store.queued? other := by
  rw [run_removePending]
  obtain ⟨markets, pending⟩ := store
  cases pending with
  | none => simp [queued?]
  | some table => exact table.get?_remove row other

theorem sheds_removePending (store : Store) (row : Int) : store.Sheds (run (removePending row) store).2 := by
  intro other h
  rw [queued?_removePending, h, ite_self]

/-- What waits is on the queue. -/
theorem queued?_of_waiting {store : Store} {pending : PendingRequest} (h : pending ∈ store.waiting) :
    store.queued? pending.row ≠ none := by
  obtain ⟨markets, table⟩ := store
  cases table with
  | none => cases h
  | some table =>
    obtain ⟨⟨row, kept, request⟩, hin, rfl⟩ := List.mem_map.1 h
    obtain ⟨kept', hrow, -⟩ := mem_found_decodeRows.1 hin
    have hget : table.get? row = some kept' := Table.mem_toList.1 (List.mem_mergeSort.1 hrow)
    change table.get? row ≠ none
    rw [hget]
    exact Option.some_ne_none _

/-- No row waits twice. -/
theorem nodup_waiting (store : Store) : (store.waiting.map (·.row)).Nodup := by
  obtain ⟨markets, table⟩ := store
  cases table with
  | none => exact .nil
  | some table =>
    have hsorted : ((byPriority table.toList).map (·.1)).Nodup :=
      ((List.mergeSort_perm _ _).map _).nodup_iff.2 table.nodup_toList
    have hfound := (found_decodeRows_sublist decodePending (byPriority table.toList)).nodup hsorted
    change (((decodedPending table).found.map _).map _).Nodup
    rw [List.map_map]
    exact hfound

end Store

/-! ## One turn -/

/-- The turn of a request in a cycle: the calls made for it, and whether the client brings its creation to an end. -/
structure Turn where
  row : Int
  calls : List Call
  finished : Bool

namespace Turn

/-- A market was created for the request. -/
def Made (baseUrl : String) (turn : Turn) : Prop := 0 < creations baseUrl turn.calls

/-- A market was created for the request, but the creation failed afterwards. -/
def Abandoned (baseUrl : String) (turn : Turn) : Prop := turn.Made baseUrl ∧ turn.finished = false

/-- The store could be worked on. -/
def Undisturbed (turn : Turn) : Prop := ∀ fault : StoreFault, (⟨.access, some fault⟩ : Call) ∉ turn.calls

/-- What a turn may do: it creates at most one market and puts nothing back on the queue; and once a creation came to its
end the request is gone, unless the store could not be worked on. -/
structure Tidy (baseUrl : String) (turn : Turn) (store store' : Store) : Prop where
  once : creations baseUrl turn.calls ≤ 1
  sheds : store.Sheds store'
  gone : turn.Made baseUrl → turn.finished = true → turn.Undisturbed → store'.queued? turn.row = none

/-- A turn in which nothing is created. -/
theorem tidy_of_leavesQueue {baseUrl : String} {turn : Turn} {store store' : Store}
    (h : creations baseUrl turn.calls = 0) (hs : store.Sheds store') : turn.Tidy baseUrl store store' where
  once := h ▸ Nat.zero_le 1
  sheds := hs
  gone hmade := absurd h (Nat.ne_of_gt hmade)

end Turn

/-- The turn of a request. -/
def turnOf (s : Services Course) (dryRun : Bool) (w : World) (past : List Call) (store : Store)
    (pending : PendingRequest) : Turn where
  row := pending.row
  calls := ((processRequest s dryRun pending).upshot w past store).calls
  finished := ((s.create pending.request).upshot w past store).result.isOk

section

variable (journal dryRun : Bool) (baseUrl : String) (apiKey : Option String)

/-- A request leaves the queue where the store can be worked on. -/
theorem removePending_leads (row : Int) :
    ((clientServices journal baseUrl apiKey).store (Store.removePending row)).Leads w past store fun _ calls store' =>
      creations baseUrl calls = 0 ∧ store.Sheds store' ∧
        ((∀ fault : StoreFault, (⟨.access, some fault⟩ : Call) ∉ calls) → store'.queued? row = none) := by
  change ((services journal).store (Store.removePending row)).Leads _ _ _ _
  rw [Course.leads_store]
  split
  · rename_i fault _
    exact ⟨rfl, fun _ h => h, fun h => absurd (List.mem_singleton_self _) (h fault)⟩
  · refine ⟨rfl, store.sheds_removePending row, fun _ => ?_⟩
    rw [Store.queued?_removePending, if_pos rfl]

theorem storeCreated_leavesQueue (request : CreationRequest) (snapshot : Snapshot) :
    (storeCreated (clientServices journal baseUrl apiKey) request snapshot).LeavesQueue baseUrl := by
  have law := Course.leavesQueueLaw baseUrl
  have hi : (insertCreated (clientServices journal baseUrl apiKey) request snapshot).LeavesQueue baseUrl := by
    unfold insertCreated
    split
    · exact law.pure _
    · refine store_leavesQueue journal baseUrl apiKey fun store => ?_
      rw [Store.run_insertMarket]
  exact law.bind hi fun
    | .ok _ => law.bind (law.pure ()) fun _ => law.pure _
    | .error _ => law.bind (law.pure ()) fun _ => law.pure _

/-- If a creation comes to its end the request leaves the queue, unless the store cannot be worked on. -/
theorem createPending_tidy (pending : PendingRequest) :
    (createPending (clientServices journal baseUrl apiKey) pending).Leads w past store fun _ calls store' =>
      Turn.Tidy baseUrl ⟨pending.row, calls,
        (((clientServices journal baseUrl apiKey).create pending.request).upshot w past store).result.isOk⟩
        store store' := by
  refine Course.leads_bind.2 (Course.leads_of_upshot fun created calls store' hu => ?_)
  obtain ⟨hcount, -, hpending⟩ := Course.Leads.upshot (PlatformClient.create_leads baseUrl apiKey pending.request) hu
  rw [hu]
  match created with
  | .error failure =>
    refine Course.leads_bind.2 (Course.leads_pure.2 (Course.leads_pure.2 ?_))
    rw [List.append_nil, List.append_nil]
    exact ⟨hcount, Store.sheds_of_pending hpending, fun _ => nofun⟩
  | .ok snapshot =>
    -- the request goes before the market is stored, so what the store does then does not bring it back
    refine (removePending_leads journal baseUrl apiKey pending.row).bind fun removed more store'' h => ?_
    obtain ⟨hmore, hsheds, hgone⟩ := h
    have hrest : ∀ past', (storeCreated (clientServices journal baseUrl apiKey) pending.request snapshot).Leads w past'
        store'' fun _ last stored => Turn.Tidy baseUrl ⟨pending.row, calls ++ (more ++ last), true⟩ store stored := by
      intro past'
      refine (storeCreated_leavesQueue journal baseUrl apiKey pending.request snapshot w past' store'').mono
        fun _ last stored h => ?_
      obtain ⟨hlast, hkept⟩ := h
      have hstored := Store.sheds_of_pending hkept
      refine ⟨?_, (Store.sheds_of_pending hpending).trans (hsheds.trans hstored), fun _ _ hopen => ?_⟩
      · rw [creations_append, creations_append, hmore, hlast]
        exact hcount
      · refine hstored _ (hgone fun fault hin => hopen fault ?_)
        exact List.mem_append_right _ (List.mem_append_left _ hin)
    match removed with
    | .ok _ => exact hrest _
    | .error _ => exact Course.leads_bind.2 (Course.leads_pure.2 (hrest _))

/-- Every turn is tidy. -/
theorem processRequest_tidy (past : List Call) (store : Store) (pending : PendingRequest) :
    (turnOf (clientServices journal baseUrl apiKey) dryRun w past store pending).Tidy baseUrl store
      ((processRequest (clientServices journal baseUrl apiKey) dryRun pending).upshot w past store).store := by
  have hl : (processRequest (clientServices journal baseUrl apiKey) dryRun pending).Leads w past store
      fun _ calls store' => Turn.Tidy baseUrl ⟨pending.row, calls,
        (((clientServices journal baseUrl apiKey).create pending.request).upshot w past store).result.isOk⟩
        store store' := by
    unfold processRequest
    split
    · refine Course.leads_bind.2 (Course.leads_bind.2 (Course.leads_pure.2 ?_))
      refine (removePending_leads journal baseUrl apiKey pending.row).bind fun removed calls store' h => ?_
      have hcount : creations baseUrl ([] ++ (calls ++ []) ++ []) = 0 := by
        rw [List.append_nil, List.append_nil]
        exact h.1
      cases removed with
      | ok _ => exact Turn.tidy_of_leavesQueue hcount h.2.1
      | error _ => exact Turn.tidy_of_leavesQueue hcount h.2.1
    · cases dryRun with
      | true => exact Turn.tidy_of_leavesQueue rfl (Store.sheds_of_pending rfl)
      | false => exact createPending_tidy journal baseUrl apiKey pending
  exact hl

end

end Arbiter
