import Arbiter.Proofs.Cycle.Queue
import Mathlib.Algebra.GroupWithZero.Nat

/-!
# How often a request is created

A request leaves the queue only after the whole creation. So what the platform has created for it already is created
again in the next cycle if something failed after that, and never once a creation came to its end.

* `runTurns`: the turns of all requests in a run of cycles.
* `TidyTurns`, `TidyRun`: what all turns together may do, kept from turn to turn and from cycle to cycle.
* `creations_of_row`: a request is created at most once exactly if nothing is created for it after it was abandoned.
-/

namespace Arbiter

/-! ## The turns of a run -/

/-- The turns of some requests one after another. -/
def queueTurns (s : Services Course) (dryRun : Bool) (w : World) : List Call → Store → List PendingRequest → List Turn
  | _, _, [] => []
  | past, store, pending :: rest =>
    let turn := (processRequest s dryRun pending).upshot w past store
    turnOf s dryRun w past store pending :: queueTurns s dryRun w (past ++ turn.calls) turn.store rest

/-- The turns in a cycle: of all requests that can be read when it begins. -/
def cycleTurns (s : Services Course) (dryRun : Bool) (w : World) (past : List Call) (store : Store) : List Turn :=
  let loaded := (s.load .pending Store.loadPending).upshot w past store
  match loaded.result with
  | .error _ => []
  | .ok requests => queueTurns s dryRun w (past ++ loaded.calls) loaded.store requests

/-- The turns in a run of cycles, which ends with a crash. -/
def runTurns (s : Services Course) (dryRun : Bool) (w : World) : List Call → Store → List Bool → List Turn
  | _, _, [] => []
  | past, store, refresh :: rest =>
    let cycle := (ExceptT.run (runCycle s dryRun refresh)).upshot w past store
    cycleTurns s dryRun w past store ++
      match cycle.result with
      | .error _ => []
      | .ok _ => runTurns s dryRun w (past ++ cycle.calls) cycle.store rest

/-! ## What all turns do -/

section

variable {baseUrl : String} {w : World} {past : List Call} {store store' store'' : Store} {turns later : List Turn}
  {calls more : List Call}

/-- What turns may do one after another: each creates at most one market, nothing is created but in a turn, nothing is
put back on the queue, and a request whose creation came to its end is gone. -/
structure TidyTurns (baseUrl : String) (turns : List Turn) (calls : List Call) (store store' : Store) : Prop where
  once : ∀ turn ∈ turns, creations baseUrl turn.calls ≤ 1
  total : creations baseUrl calls = (turns.map fun turn => creations baseUrl turn.calls).sum
  sheds : store.Sheds store'
  gone : ∀ turn ∈ turns, turn.Made baseUrl → turn.finished = true → turn.Undisturbed → store'.queued? turn.row = none

theorem tidyTurns_nil (h : creations baseUrl calls = 0) (hs : store.Sheds store') :
    TidyTurns baseUrl [] calls store store' where
  once := by simp
  total := h
  sheds := hs
  gone := by simp

theorem Turn.Tidy.single {turn : Turn} (h : turn.Tidy baseUrl store store') :
    TidyTurns baseUrl [turn] turn.calls store store' where
  once := List.forall_mem_singleton.2 h.once
  total := (Nat.add_zero _).symm
  sheds := h.sheds
  gone := List.forall_mem_singleton.2 h.gone

theorem TidyTurns.append (h : TidyTurns baseUrl turns calls store store')
    (h' : TidyTurns baseUrl later more store' store'') :
    TidyTurns baseUrl (turns ++ later) (calls ++ more) store store'' where
  once := List.forall_mem_append.2 ⟨h.once, h'.once⟩
  total := by rw [creations_append, h.total, h'.total, List.map_append, List.sum_append]
  sheds := h.sheds.trans h'.sheds
  gone := List.forall_mem_append.2
    ⟨fun turn ht hmade hend hopen => h'.sheds _ (h.gone turn ht hmade hend hopen), h'.gone⟩

/-- What the turns of cycles may do: they are tidy, each is the turn of a request on the queue, and once a creation came
to its end its request has no turn any more. -/
structure TidyRun (baseUrl : String) (turns : List Turn) (calls : List Call) (store store' : Store) : Prop
    extends TidyTurns baseUrl turns calls store store' where
  queued : ∀ turn ∈ turns, store.queued? turn.row ≠ none
  last : turns.Pairwise fun turn turn' =>
    turn.row = turn'.row → turn.Made baseUrl → turn.finished = true → ¬turn.Undisturbed

theorem tidyRun_nil (h : creations baseUrl calls = 0) (hs : store.Sheds store') :
    TidyRun baseUrl [] calls store store' where
  toTidyTurns := tidyTurns_nil h hs
  queued := by simp
  last := .nil

theorem TidyRun.append (h : TidyRun baseUrl turns calls store store') (h' : TidyRun baseUrl later more store' store'') :
    TidyRun baseUrl (turns ++ later) (calls ++ more) store store'' where
  toTidyTurns := h.toTidyTurns.append h'.toTidyTurns
  queued := List.forall_mem_append.2
    ⟨h.queued, fun turn ht hnone => h'.queued turn ht (h.sheds turn.row hnone)⟩
  last := List.pairwise_append.2 ⟨h.last, h'.last, fun turn ht turn' ht' hrow hmade hend hopen =>
    h'.queued turn' ht' (hrow ▸ h.gone turn ht hmade hend hopen)⟩

/-- Work that leaves the queue alone follows. -/
theorem TidyRun.followed (h : TidyRun baseUrl turns calls store store') (hmore : creations baseUrl more = 0)
    (hs : store'.Sheds store'') : TidyRun baseUrl turns (calls ++ more) store store'' := by
  have := h.append (tidyRun_nil hmore hs)
  rwa [List.append_nil] at this

end

/-! ## From turn to turn -/

section

variable {w : World} {past : List Call} {store : Store}
  (journal dryRun : Bool) (baseUrl : String) (apiKey : Option String)

theorem queueTurns_rows (s : Services Course) : ∀ (requests : List PendingRequest) (past : List Call) (store : Store),
    (queueTurns s dryRun w past store requests).map (·.row) = requests.map (·.row)
  | [], _, _ => rfl
  | _ :: rest, _, _ => congrArg (_ :: ·) (queueTurns_rows s rest _ _)

theorem cycleTurns_of_load (s : Services Course) {requests : List PendingRequest} {calls : List Call} {store' : Store}
    (h : (s.load .pending Store.loadPending).upshot w past store = ⟨.ok requests, calls, store'⟩) :
    cycleTurns s dryRun w past store = queueTurns s dryRun w (past ++ calls) store' requests := by
  unfold cycleTurns
  rw [h]

/-- Dealing with requests is tidy. -/
theorem processRequests_turns : ∀ (requests : List PendingRequest) (past : List Call) (store : Store) (created : Nat),
    (processRequests (clientServices journal baseUrl apiKey) dryRun created requests).Leads w past store
      fun _ calls store' =>
        TidyTurns baseUrl (queueTurns (clientServices journal baseUrl apiKey) dryRun w past store requests) calls
          store store'
  | [], _, _, _ => tidyTurns_nil rfl fun _ h => h
  | pending :: rest, past, store, _ =>
    Course.leads_bind.2 ((processRequests_turns rest _ _ _).mono fun _ _ _ h =>
      (processRequest_tidy journal dryRun baseUrl apiKey past store pending).single.append h)

/-- The queue is read, or it cannot be read. -/
theorem loadPending_leads :
    ((clientServices journal baseUrl apiKey).load .pending Store.loadPending).Leads w past store
      fun result calls store' => store' = store ∧ creations baseUrl calls = 0 ∧ ∀ requests, result = .ok requests → requests = store.waiting := by
  change ((services journal).load .pending Store.loadPending).Leads _ _ _ _
  rw [Course.leads_load, Store.run_loadPending]
  split
  · rename_i fault _
    obtain ⟨failure, hf⟩ := Course.ofStore_error (Loaded PendingRequest) fault
    rw [hf]
    exact ⟨rfl, rfl, nofun⟩
  · cases hp : store.pending with
    | none => exact ⟨rfl, rfl, nofun⟩
    | some table => exact ⟨rfl, rfl, fun requests h => (Except.ok.inj h).symm⟩

/-- Dealing with the queue is tidy, and every turn is the turn of a request on it. -/
theorem processPending_turns :
    (processPending (clientServices journal baseUrl apiKey) dryRun).Leads w past store fun _ calls store' =>
      TidyRun baseUrl (cycleTurns (clientServices journal baseUrl apiKey) dryRun w past store) calls store store' := by
  refine Course.leads_bind.2 (Course.leads_of_upshot fun loaded calls store' hu => ?_)
  obtain ⟨rfl, hcalls, hwaiting⟩ := Course.Leads.upshot (loadPending_leads journal baseUrl apiKey) hu
  match loaded with
  | .error failure =>
    unfold cycleTurns
    rw [hu]
    exact Course.leads_pure.2 ((tidyRun_nil hcalls fun _ h => h).followed rfl fun _ h => h)
  | .ok requests =>
    rw [cycleTurns_of_load dryRun _ hu]
    have hrows := queueTurns_rows dryRun (w := w) (clientServices journal baseUrl apiKey) requests (past ++ calls) store'
    have hnodup := store'.nodup_waiting
    rw [← hwaiting requests rfl, ← hrows] at hnodup
    refine (processRequests_turns journal dryRun baseUrl apiKey requests (past ++ calls) store' 0).bind
      fun _ more _ h => ?_
    refine Course.leads_pure.2 ?_
    rw [List.append_nil]
    refine (tidyRun_nil hcalls fun _ h => h).append ⟨h, fun turn ht => ?_, ?_⟩
    · have hrow : turn.row ∈ requests.map (·.row) := hrows ▸ List.mem_map_of_mem ht
      obtain ⟨pending, hin, heq⟩ := List.mem_map.1 hrow
      rw [← heq]
      exact Store.queued?_of_waiting (hwaiting requests rfl ▸ hin)
    · -- no row waits twice, so no two turns of a cycle are of one row
      exact (List.pairwise_map.1 hnodup).imp fun hne heq => absurd heq hne

/-- A cycle is tidy. -/
theorem runCycle_turns (refresh : Bool) :
    (runCycle (clientServices journal baseUrl apiKey) dryRun refresh).Leads w past store fun _ calls store' =>
      TidyRun baseUrl (cycleTurns (clientServices journal baseUrl apiKey) dryRun w past store) calls store store' := by
  have law := Course.leavesQueueLaw baseUrl
  unfold runCycle
  rw [CycleM.leads_call_bind]
  refine (processPending_turns journal dryRun baseUrl apiKey).mono fun created calls store' h => ?_
  have hrest : ∀ {α : Type} {x : CycleM Course α}, (ExceptT.run x).LeavesQueue baseUrl →
      x.Leads w (past ++ calls) store' fun _ more store'' => TidyRun baseUrl
        (cycleTurns (clientServices journal baseUrl apiKey) dryRun w past store) (calls ++ more) store store'' :=
    fun hx => (hx w (past ++ calls) store').mono fun _ more store'' hl => h.followed hl.1 (Store.sheds_of_pending hl.2)
  match created with
  | .error failure => exact hrest (law.ok _)
  | .ok created =>
    have hmarkets := load_leavesQueue journal baseUrl apiKey .markets fun store =>
      congrArg (·.2.pending) (Store.run_loadMarkets store)
    have hchecks : ∀ now : Instant, (ExceptT.run (checkAll (clientServices journal baseUrl apiKey) dryRun refresh now
        created)).LeavesQueue baseUrl := fun now =>
      law.followed (law.call hmarkets) fun
        | .error _ => law.ok _
        | .ok markets => law.followed (processMarkets_leavesQueue journal dryRun baseUrl apiKey refresh now markets _)
            fun _ => law.ok _
    refine hrest (law.followed (law.call (Course.leavesQueue_ask fun _ => rfl)) fun now =>
      law.followed (hchecks now) fun
        | .error _ => law.ok _
        | .ok _ => law.followed (law.call (law.pure ())) fun _ => law.ok _)

/-- A run of cycles is tidy. -/
theorem runEach_turns : ∀ (cycles : List Bool) (past : List Call) (store : Store),
    (runEach (clientServices journal baseUrl apiKey) dryRun cycles).Leads w past store fun _ calls store' =>
      TidyRun baseUrl (runTurns (clientServices journal baseUrl apiKey) dryRun w past store cycles) calls store store'
  | [], _, _ => tidyRun_nil rfl fun _ h => h
  | refresh :: rest, past, store => by
    refine CycleM.leads_bind.2 (Course.leads_of_upshot fun result calls store' hu => ?_)
    have hcycle := Course.Leads.upshot (runCycle_turns (w := w) journal dryRun baseUrl apiKey refresh) hu
    unfold runTurns
    rw [hu]
    cases result with
    | error _ =>
      dsimp only
      rw [List.append_nil]
      exact hcycle
    | ok _ =>
      refine (runEach_turns rest (past ++ calls) store').bind (fun _ more _ h => ?_) fun _ more _ h => hcycle.append h
      rw [CycleM.leads_pure, List.append_nil]
      exact hcycle.append h

end

/-! ## Where no listing can be fetched -/

/-- The body of a reply that tells an identifier. -/
def createdBody : String := "\x7b\"id\":\"m\"\x7d"

/-- A world that stands still, where whatever is posted is accepted, but nothing can be fetched. -/
def unlistedWorld : World where
  answer past
    | .send request => if request.method = .post then .answered 200 createdBody else .failed []
    | q => (World.still ⟨1709298000, 0⟩).answer past q

theorem createdBody_tells : ∃ json, decodeText .whole .ok createdBody = .ok json ∧
    (PlatformClient.createdId? json == some "m") = true := Store.exists_decoded (by decide +kernel)

section

variable (journal : Bool) {past : List Call} {store : Store}

theorem unlistedWorld_post {request : HttpRequest} (h : request.method = .post) :
    unlistedWorld.answer past (.send request) = (.answered 200 createdBody : HttpReply) := if_pos h

/-- A creation creates a market and fails. -/
theorem create_unlisted (past : List Call) (store : Store) (request : CreationRequest) :
    ((worldClient "" (some "key")).create request).Leads unlistedWorld past store fun result calls store' =>
      (∃ failure, result = .error failure) ∧ creations "" calls = 1 ∧ store' = store ∧
        ∀ fault, ⟨.access, fault⟩ ∉ calls := by
  obtain ⟨json, hd, hid⟩ := createdBody_tells
  have hid := beq_iff_eq.1 hid
  have hpost : ((worldClient "" (some "key")).post "/v0/market" (creationMessage request)).Leads unlistedWorld past store
      fun result calls store' => result = .ok json ∧ creations "" calls = 1 ∧ store' = store ∧
        ∀ fault, ⟨.access, fault⟩ ∉ calls := by
    refine Course.leads_bind.2 (Course.leads_ask.2 ?_)
    rw [unlistedWorld_post rfl]
    change (pure (decodeBody _ _ _ createdBody) : Course _).Leads _ _ _ _
    unfold decodeBody
    rw [hd]
    refine Course.leads_pure.2 ⟨rfl, ?_, rfl, fun fault h => ?_⟩
    · rw [List.append_nil, creations, List.countP_singleton, Call.creates_send, HttpReply.createdId?_answered rfl, hd]
      have hsome : ((Except.ok json : Decoded Json).toOption.bind PlatformClient.createdId?).isSome = true := by
        change (PlatformClient.createdId? json).isSome = true
        rw [hid]
        rfl
      rw [hsome]
      simp [PlatformClient.address, worldClient]
    · cases List.mem_singleton.1 h
  refine hpost.bind fun answer calls store' h => ?_
  obtain ⟨rfl, hcount, rfl, haccess⟩ := h
  dsimp only
  rw [hid]
  have hopened := PlatformClient.openMarket_leavesQueue "" (some "key") request "m" unlistedWorld (past ++ calls ++ [])
    store'
  refine ⟨⟨_, rfl⟩, ?_, rfl, fun fault h => ?_⟩
  · rw [creations_append, hcount]
    exact congrArg (1 + ·) hopened.1
  · rcases List.mem_append.1 h with h | h
    · exact haccess fault h
    · cases List.mem_singleton.1 h

/-- A turn of this row in which one market was created, although the store could be worked on in vain. -/
structure Turn.Wasted (turn : Turn) (row : Int) : Prop where
  row : turn.row = row
  once : creations "" turn.calls = 1
  unfinished : turn.finished = false
  undisturbed : turn.Undisturbed

/-- Every turn of a valid request is wasted, and leaves the store as it was. -/
theorem turn_unlisted (past : List Call) (store : Store) {pending : PendingRequest}
    (hv : pending.request.validate = .ok ()) :
    (turnOf (clientServices journal "" (some "key")) false unlistedWorld past store pending).Wasted pending.row ∧
      ((processRequest (clientServices journal "" (some "key")) false pending).upshot unlistedWorld past store).store =
        store := by
  have hcreate := create_unlisted past store pending.request
  have hrun : (processRequest (clientServices journal "" (some "key")) false pending).Leads unlistedWorld past store
      fun _ calls store' => creations "" calls = 1 ∧ store' = store ∧ ∀ fault, ⟨.access, fault⟩ ∉ calls := by
    unfold processRequest
    rw [hv]
    refine hcreate.bind fun created calls store' h => ?_
    obtain ⟨⟨failure, rfl⟩, hcount, rfl, haccess⟩ := h
    refine Course.leads_bind.2 (Course.leads_pure.2 (Course.leads_pure.2 ?_))
    rw [List.append_nil, List.append_nil]
    exact ⟨hcount, rfl, haccess⟩
  obtain ⟨hcount, hstore, haccess⟩ := hrun
  obtain ⟨failure, hf⟩ := hcreate.1
  have hfin : (turnOf (clientServices journal "" (some "key")) false unlistedWorld past store pending).finished =
      false := by
    unfold turnOf
    dsimp only
    have hc : (clientServices journal "" (some "key")).create = (worldClient "" (some "key")).create := rfl
    rw [hc, hf]
    rfl
  exact ⟨⟨rfl, hcount, hfin, fun fault => haccess _⟩, hstore⟩

/-- So is every cycle over a queue with one valid request. -/
theorem cycle_unlisted (past : List Call) {pending : PendingRequest} (hv : pending.request.validate = .ok ())
    {table : Table PendingRow} (hp : store.pending = some table) (hw : store.waiting = [pending]) (hm : store.markets = some Table.empty)
    (refresh : Bool) :
    (∃ turn, cycleTurns (clientServices journal "" (some "key")) false unlistedWorld past store = [turn] ∧
      turn.Wasted pending.row) ∧
      (runCycle (clientServices journal "" (some "key")) false refresh).Leads unlistedWorld past store
        fun result _ store' => (∃ summary, result = .ok summary) ∧ store' = store := by
  have hload : ((clientServices journal "" (some "key")).load .pending Store.loadPending).upshot unlistedWorld past
      store = ⟨.ok [pending], [⟨.access, none⟩], store⟩ := by
    have hl : ((services journal).load .pending Store.loadPending).Leads unlistedWorld past store
        fun result calls store' => Upshot.mk result calls store' = ⟨.ok [pending], [⟨.access, none⟩], store⟩ := by
      rw [Course.leads_load, Store.run_loadPending, hp, ← hw]
      rfl
    exact hl
  constructor
  · exact ⟨_, cycleTurns_of_load _ _ hload, (turn_unlisted journal _ _ hv).1⟩
  · have hqueue : (processPending (clientServices journal "" (some "key")) false).Leads unlistedWorld past store
        fun result _ store' => (∃ created, result = .ok created) ∧ store' = store := by
      refine Course.leads_bind.2 (Course.leads_of_upshot fun loaded calls store' hu => ?_)
      rw [hload] at hu
      cases hu
      refine Course.leads_bind.2 (Course.leads_bind.2 ?_)
      exact ⟨⟨_, rfl⟩, (turn_unlisted journal _ _ hv).2⟩
    unfold runCycle
    rw [CycleM.leads_call_bind]
    refine hqueue.mono fun created calls store' h => ?_
    obtain ⟨⟨created, rfl⟩, rfl⟩ := h
    dsimp only
    rw [CycleM.leads_call_bind]
    refine Course.leads_ask.2 ?_
    unfold checkAll
    rw [bind_assoc, CycleM.leads_call_bind]
    change ((services journal).load .markets Store.loadMarkets).Leads _ _ _ _
    rw [Course.leads_load, Store.run_loadMarkets, hm]
    exact ⟨⟨_, rfl⟩, rfl⟩

/-- In every cycle the request is created once more. -/
theorem runTurns_unlisted {pending : PendingRequest} (hv : pending.request.validate = .ok ()) {table : Table PendingRow}
    (hp : store.pending = some table) (hw : store.waiting = [pending]) (hm : store.markets = some Table.empty) :
    ∀ (cycles : List Bool) (past : List Call), ∃ turns,
      runTurns (clientServices journal "" (some "key")) false unlistedWorld past store cycles = turns ∧
        turns.length = cycles.length ∧ ∀ turn ∈ turns, turn.Wasted pending.row
  | [], _ => ⟨[], rfl, rfl, by simp⟩
  | refresh :: rest, past => by
    obtain ⟨⟨turn, hturn, hwasted⟩, ⟨summary, hr⟩, hs⟩ := cycle_unlisted journal past hv hp hw hm refresh
    have ih := runTurns_unlisted hv hp hw hm rest
    obtain ⟨turns, hturns, hlength, hall⟩ := ih (past ++ (Course.upshot
      (ExceptT.run (runCycle (clientServices journal "" (some "key")) false refresh)) unlistedWorld past store).calls)
    refine ⟨turn :: turns, ?_, congrArg (· + 1) hlength, List.forall_mem_cons.2 ⟨hwasted, hall⟩⟩
    unfold runTurns
    dsimp only
    rw [hturn, hr, hs, hturns]
    rfl

end

/-- A request for a market of yes and no. -/
def requestRow : PendingRow where
  priority := 1
  cost := 50
  text := "\x7b\"question\":\"Q?\",\"outcome_type\":\"BINARY\",\"close_time\":\"2030-01-01T00:00:00Z\",\"time_rules\":" ++
    "[[\"manifold.this.ThisMarketClosed\",\x7b\x7d]],\"value_rules\":[[\"manifold.this.RoundValueRule\",\x7b\x7d]]\x7d"

/-- A store with one request. -/
def oneRequest (kept : PendingRow) : Store := ⟨some Table.empty, some (Table.empty.add kept).2⟩

theorem waiting_oneRequest {kept : PendingRow} {request : CreationRequest}
    (h : decodeText CreationRequest.shape CreationRequest.decode kept.text = .ok request) :
    (oneRequest kept).waiting = [⟨1, kept.priority, kept.cost, request⟩] := by
  have hd : Store.decodePending kept = .ok (kept, request) := by
    unfold Store.decodePending
    rw [h]
    rfl
  have hrows : Store.byPriority (Table.empty.add kept).2.toList = [(1, kept)] := List.mergeSort_singleton _
  change (Store.decodeRows Store.decodePending (Store.byPriority _)).found.map _ = _
  rw [hrows]
  simp only [Store.decodeRows, hd]
  rfl

set_option maxRecDepth 4000 in
theorem requestRow_valid : ∃ request,
    decodeText CreationRequest.shape CreationRequest.decode requestRow.text = .ok request ∧ request.validate = .ok () := by
  have ht : requestRow.text = String.ofList _ ++ String.ofList _ := rfl
  obtain ⟨request, hd, hv⟩ : ∃ request, decodeText CreationRequest.shape CreationRequest.decode requestRow.text =
      .ok request ∧ request.validate.isOk = true := by
    refine Store.exists_decoded ?_
    rw [decodeText, Json.readAs?, ht, String.toList_append, String.toList_ofList, String.toList_ofList]
    decide +kernel
  refine ⟨request, hd, ?_⟩
  cases hr : request.validate with
  | ok _ => rfl
  | error _ =>
    rw [hr] at hv
    cases hv

/-! ## How often -/

/-- Numbers that are at most one add up to at most one exactly if no two of them are one. -/
theorem sum_le_one_iff {α : Type} {f : α → Nat} : ∀ {l : List α}, (∀ a ∈ l, f a ≤ 1) →
    ((l.map f).sum ≤ 1 ↔ l.Pairwise fun a b => 0 < f a → ¬0 < f b)
  | [], _ => by simp
  | a :: rest, h => by
    obtain ⟨ha, hrest⟩ := List.forall_mem_cons.1 h
    have ih := sum_le_one_iff hrest
    have hzero : (rest.map f).sum = 0 ↔ ∀ b ∈ rest, ¬0 < f b := by
      simp [List.sum_eq_zero_iff_forall_eq_nat]
    rw [List.map_cons, List.sum_cons, List.pairwise_cons]
    rcases Nat.eq_zero_or_pos (f a) with h0 | h1
    · rw [h0, Nat.zero_add, ih]
      exact ⟨fun hp => ⟨fun _ _ hlt => absurd hlt (Nat.lt_irrefl 0), hp⟩, And.right⟩
    · have hone : f a = 1 := Nat.le_antisymm ha h1
      rw [hone]
      constructor
      · intro hsum
        have hnone : (rest.map f).sum = 0 := by omega
        exact ⟨fun b hb _ => hzero.1 hnone b hb, ih.1 (by omega)⟩
      · rintro ⟨hnone, -⟩
        exact Nat.le_of_eq (congrArg (1 + ·) (hzero.2 fun b hb => hnone b hb Nat.one_pos))

/-- How often a request is created. Every creation in a run is one of a request's turn. As long as the store can be
worked on in the turns of a row, at most one market is created for it exactly if none is created after its creation was
abandoned: after a market was created for it, but its listing could not be fetched, an answer to bet on was not found
there, or an opening bet was refused. -/
theorem creations_of_row (w : World) (journal dryRun : Bool) (baseUrl : String) (apiKey : Option String)
    (cycles : List Bool) (past : List Call) (store : Store) (row : Int)
    (hopen : ∀ turn ∈ runTurns (clientServices journal baseUrl apiKey) dryRun w past store cycles,
      turn.row = row → turn.Undisturbed) :
    let turns := runTurns (clientServices journal baseUrl apiKey) dryRun w past store cycles
    let ofRow := turns.filter fun turn => turn.row = row
    ((runEach (clientServices journal baseUrl apiKey) dryRun cycles).Leads w past store fun _ calls _ =>
      creations baseUrl calls = (turns.map fun turn => creations baseUrl turn.calls).sum) ∧
    ((ofRow.map fun turn => creations baseUrl turn.calls).sum ≤ 1 ↔
      ofRow.Pairwise fun turn turn' => turn.Abandoned baseUrl → ¬turn'.Made baseUrl) := by
  intro turns ofRow
  have htidy := runEach_turns (w := w) journal dryRun baseUrl apiKey cycles past store
  refine ⟨htidy.mono fun _ _ _ h => h.total, ?_⟩
  obtain ⟨⟨honce, -, -, -⟩, -, hlast⟩ := htidy
  -- a creation that came to its end is the last turn of its row, so only an abandoned one can be followed by another
  have hends : ofRow.Pairwise fun turn turn' => turn.Made baseUrl → turn.finished = false ∨ ¬turn'.Made baseUrl := by
    refine (hlast.filter _).imp_of_mem fun {turn turn'} ht ht' h hmade => ?_
    obtain ⟨hin, hrow⟩ := List.mem_filter.1 ht
    have hrow := of_decide_eq_true hrow
    have hrow' := of_decide_eq_true (List.mem_filter.1 ht').2
    cases hend : turn.finished with
    | false => exact .inl rfl
    | true => exact absurd (hopen turn hin hrow) (h (hrow.trans hrow'.symm) hmade hend)
  refine (sum_le_one_iff fun turn ht => honce turn (List.mem_filter.1 ht).1).trans ⟨fun h => ?_, fun h => ?_⟩
  · exact h.imp fun h' habandoned => h' habandoned.1
  · exact (h.and hends).imp fun ⟨h', hend⟩ hmade => (hend hmade).elim (fun hf => h' ⟨hmade, hf⟩) id

/-- In one cycle a request is created once. -/
theorem requestRow_created_once :
    let turns := runTurns (clientServices false "" (some "key")) false unlistedWorld [] (oneRequest requestRow) [false]
    (∀ turn ∈ turns, turn.row = 1 → turn.Undisturbed) ∧
      ((turns.filter fun turn => turn.row = 1).map fun turn => creations "" turn.calls).sum ≤ 1 := by
  intro turns
  obtain ⟨request, hd, hv⟩ := requestRow_valid
  obtain ⟨_, rfl, hlength, hwasted⟩ := runTurns_unlisted false hv rfl (waiting_oneRequest hd) rfl [false] []
  have hopen : ∀ turn ∈ turns, turn.row = 1 → turn.Undisturbed := fun turn ht _ => (hwasted turn ht).undisturbed
  refine ⟨hopen,
    (creations_of_row unlistedWorld false false "" (some "key") [false] [] (oneRequest requestRow) 1 hopen).2.2 ?_⟩
  obtain ⟨turn, hturn⟩ := List.length_eq_one_iff.1 hlength
  rw [hturn]
  exact (List.pairwise_singleton _ _).filter _

/-- A request is created in each of two cycles if its listing cannot be fetched, although the store can be worked on. -/
theorem requestRow_created_twice :
    let turns :=
      runTurns (clientServices false "" (some "key")) false unlistedWorld [] (oneRequest requestRow) [false, false]
    (∀ turn ∈ turns, turn.row = 1 ∧ turn.Undisturbed) ∧ (turns.map fun turn => creations "" turn.calls).sum = 2 := by
  intro turns
  obtain ⟨request, hd, hv⟩ := requestRow_valid
  obtain ⟨_, rfl, hlength, hwasted⟩ := runTurns_unlisted false hv rfl (waiting_oneRequest hd) rfl [false, false] []
  refine ⟨fun turn ht => ⟨(hwasted turn ht).row, (hwasted turn ht).undisturbed⟩, ?_⟩
  have hones : (turns.map fun turn => creations "" turn.calls) = List.replicate turns.length 1 :=
    List.map_eq_replicate_iff.2 fun turn ht => (hwasted turn ht).once
  rw [hones, hlength]
  rfl

end Arbiter
