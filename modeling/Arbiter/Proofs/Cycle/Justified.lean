import Arbiter.Proofs.Cycle.Warrant

/-!
# Every write is justified

* `ChecksOrderly`: what the loop over the stored markets may do (`processMarkets_leads`).
* `CycleOrderly`, `RunOrderly`: what a cycle and a run of cycles may do (`runCycle_leads`, `runEach_leads`).
* `writes_justified`: every run is orderly, and a rehearsal writes nothing.
-/

namespace Arbiter

variable {w : World} {past : List Call} {store : Store}

/-! ## The loop over the markets -/

/-- What the checks of a cycle at a moment may do: markets that are not due are left out, and the others are checked in
an orderly way. A crash ends them. -/
inductive ChecksOrderly (w : World) (dryRun refresh : Bool) (now : Instant) :
    (past : List Call) → List (Int × Market) → (calls : List Call) → Prop
  | stop {past : List Call} {rows : List (Int × Market)} : ChecksOrderly w dryRun refresh now past rows []
  | leave {past calls : List Call} {row : Int} {market : Market} {rest : List (Int × Market)}
      (hr : refresh = false) (hdue : market.isDue now = some false)
      (next : ChecksOrderly w dryRun refresh now past rest calls) :
      ChecksOrderly w dryRun refresh now past ((row, market) :: rest) calls
  | check {past calls more : List Call} {row : Int} {market : Market} {rest : List (Int × Market)}
      (hdue : refresh = true ∨ market.isDue now = some true)
      (hc : CheckOrderly w dryRun market now past calls)
      (next : ChecksOrderly w dryRun refresh now (past ++ calls) rest more) :
      ChecksOrderly w dryRun refresh now past ((row, market) :: rest) (calls ++ more)

/-- The loop over the stored markets is orderly. -/
theorem processMarkets_leads (journal dryRun refresh : Bool) (now : Instant) :
    ∀ (rows : List (Int × Market)) (past : List Call) (store : Store) (summary : CycleSummary),
      (processMarkets (services journal) dryRun refresh now summary rows).Leads w past store fun _ calls _ =>
        ChecksOrderly w dryRun refresh now past rows calls
  | [], _, _, _ => .stop
  | (row, market) :: rest, past, store, summary => by
    unfold processMarkets
    rw [CycleM.leads_bind]
    rcases isWanted_cases market refresh now with ⟨hw, hdue⟩ | ⟨hw, hr, hdue⟩ | hw
    · refine (processMarket_leads journal dryRun refresh now summary row market hw).mono fun result calls store' hc => ?_
      match result with
      | .ok summary =>
        exact (processMarkets_leads journal dryRun refresh now rest (past ++ calls) store' summary).mono
          fun _ _ _ h => .check hdue hc h
      | .error _ =>
        rw [← List.append_nil calls]
        exact .check hdue hc .stop
    · unfold processMarket
      rw [hw, pure_bind, if_neg Bool.false_ne_true, CycleM.leads_pure]
      dsimp only
      rw [List.append_nil]
      exact (processMarkets_leads journal dryRun refresh now rest past store summary).mono fun _ _ _ h => .leave hr hdue h
    · unfold processMarket
      rw [hw]
      exact .stop

/-! ## Cycles and runs -/

/-- What the part of a cycle before its checks may do: markets are created, and in a rehearsal not even that. -/
def QueueOrderly (dryRun : Bool) (calls : List Call) : Prop :=
  ∀ c ∈ calls, c.question.isConfirmation = false ∧
    (c.question.isWrite = true → dryRun = false ∧ ∃ request, c.question = .create request)

/-- What a cycle may do: it deals with the queue, and then it checks the markets that the store holds by now, all of them
at one moment. -/
inductive CycleOrderly (w : World) (journal dryRun refresh : Bool) (past : List Call) (store : Store) : List Call → Prop
  | unchecked {calls : List Call} (hq : QueueOrderly dryRun calls) :
      CycleOrderly w journal dryRun refresh past store calls
  | checked {queue checks : List Call} {created : Except Failure Nat} {stored : Store} {now : Instant}
      (hq : (processPending (services journal) dryRun).upshot w past store = ⟨created, queue, stored⟩)
      (ho : QueueOrderly dryRun queue)
      (hc : ChecksOrderly w dryRun refresh now (past ++ queue ++ [⟨.clock, now⟩, ⟨.access, none⟩]) stored.readable
        checks) :
      CycleOrderly w journal dryRun refresh past store (queue ++ ⟨.clock, now⟩ :: ⟨.access, none⟩ :: checks)

/-- What a run of cycles may do: each of them in an orderly way, on the store that the one before it left. A crash ends
the run. -/
inductive RunOrderly (w : World) (journal dryRun : Bool) : (past : List Call) → Store → List Bool → List Call → Prop
  | stop {past : List Call} {store : Store} {cycles : List Bool} : RunOrderly w journal dryRun past store cycles []
  | cycle {past calls more : List Call} {store : Store} {refresh : Bool} {cycles : List Bool}
      (hc : CycleOrderly w journal dryRun refresh past store calls)
      (next : RunOrderly w journal dryRun (past ++ calls)
        ((runCycle (services journal) dryRun refresh).run.upshot w past store).store cycles more) :
      RunOrderly w journal dryRun past store (refresh :: cycles) (calls ++ more)

theorem Quiet.queueOrderly {dryRun : Bool} {calls : List Call} (h : Quiet calls) : QueueOrderly dryRun calls :=
  fun c hc => ⟨(h c hc).1, fun hw => absurd hw (Bool.eq_false_iff.1 (h c hc).2)⟩

theorem QueueOrderly.append {dryRun : Bool} {calls more : List Call} (h : QueueOrderly dryRun calls)
    (h' : QueueOrderly dryRun more) : QueueOrderly dryRun (calls ++ more) := List.forall_mem_append.2 ⟨h, h'⟩

theorem dropInvalid_leads (journal : Bool) (pending : PendingRequest) (fault : MarketFault) :
    (dropInvalid (services journal) pending fault).Leads w past store fun _ calls _ => Quiet calls := by
  unfold dropInvalid
  rw [Course.leads_notify]
  refine (store_leads journal _).bind fun removed calls _ h => ?_
  cases removed with
  | ok _ => exact h.append quiet_nil
  | error _ => exact h.append quiet_nil

theorem storeCreated_leads (journal : Bool) (request : CreationRequest) (snapshot : Snapshot) :
    (storeCreated (services journal) request snapshot).Leads w past store fun _ calls _ => Quiet calls := by
  have hi : (insertCreated (services journal) request snapshot).Leads w past store fun _ calls _ => Quiet calls := by
    unfold insertCreated
    split
    · exact quiet_nil
    · exact store_leads journal _
  refine hi.bind fun inserted calls _ h => ?_
  cases inserted with
  | ok _ => exact h.append quiet_nil
  | error _ => exact h.append quiet_nil

/-- Outside a rehearsal one market is created. -/
theorem createPending_leads (journal : Bool) (pending : PendingRequest) :
    (createPending (services journal) pending).Leads w past store fun _ calls _ => QueueOrderly false calls := by
  have hc : ∀ a, QueueOrderly false [⟨.create pending.request, a⟩] := fun a =>
    List.forall_mem_singleton.2 ⟨rfl, fun _ => ⟨rfl, pending.request, rfl⟩⟩
  refine Course.leads_bind.2 (Course.leads_ask.2 ?_)
  split
  · exact (hc _).append quiet_nil.queueOrderly
  · rename_i snapshot _
    refine (store_leads journal _).bind fun removed calls _ h => ?_
    have hrest : ∀ a past' store', (storeCreated (services journal) pending.request snapshot).Leads w past' store'
        fun _ more _ => QueueOrderly false ([⟨.create pending.request, a⟩] ++ (calls ++ more)) := fun a _ _ =>
      (storeCreated_leads journal pending.request snapshot).mono fun _ _ _ h' =>
        (hc a).append (h.append h').queueOrderly
    cases removed with
    | ok _ => exact hrest _ _ _
    | error failure =>
      dsimp only
      rw [Course.leads_notify]
      exact hrest _ _ _

/-- Dealing with a request is orderly. -/
theorem processRequest_leads (journal dryRun : Bool) (pending : PendingRequest) :
    (processRequest (services journal) dryRun pending).Leads w past store fun _ calls _ => QueueOrderly dryRun calls := by
  unfold processRequest
  split
  · exact (dropInvalid_leads journal pending _).bind fun _ _ _ h => (h.append quiet_nil).queueOrderly
  · cases dryRun with
    | true => exact quiet_nil.queueOrderly
    | false => exact createPending_leads journal pending

theorem processRequests_leads (journal dryRun : Bool) :
    ∀ (requests : List PendingRequest) (past : List Call) (store : Store) (created : Nat),
      (processRequests (services journal) dryRun created requests).Leads w past store fun _ calls _ =>
        QueueOrderly dryRun calls
  | [], _, _, _ => quiet_nil.queueOrderly
  | pending :: rest, past, _, _ =>
    (processRequest_leads journal dryRun pending).bind fun _ calls store' h =>
      (processRequests_leads journal dryRun rest (past ++ calls) store' _).mono fun _ _ _ h' => h.append h'

theorem processPending_leads (journal dryRun : Bool) :
    (processPending (services journal) dryRun).Leads w past store fun _ calls _ => QueueOrderly dryRun calls := by
  refine (load_leads journal .pending Store.loadPending).bind fun loaded calls store' h => ?_
  cases loaded with
  | error failure => exact (h.append quiet_nil).queueOrderly
  | ok requests =>
    refine (processRequests_leads journal dryRun requests (past ++ calls) store' 0).bind fun _ _ _ h' => ?_
    exact h.queueOrderly.append (h'.append quiet_nil.queueOrderly)

/-- One cycle is orderly. -/
theorem runCycle_leads (journal dryRun refresh : Bool) :
    (runCycle (services journal) dryRun refresh).Leads w past store fun _ calls _ =>
      CycleOrderly w journal dryRun refresh past store calls := by
  unfold runCycle
  rw [CycleM.leads_call_bind]
  refine Course.leads_of_upshot fun created queue stored hu => ?_
  have ho : QueueOrderly dryRun queue := (processPending_leads journal dryRun).upshot hu
  cases created with
  | error failure => exact .unchecked (ho.append quiet_nil.queueOrderly)
  | ok created =>
    dsimp only
    rw [CycleM.leads_call_bind]
    refine Course.leads_ask.2 ?_
    generalize w.answer (past ++ queue) .clock = now
    have hquiet : ∀ fault, QueueOrderly dryRun (queue ++ ([⟨.clock, now⟩] ++ ([⟨.access, fault⟩] ++ []))) := fun fault =>
      ho.append ((quiet_access fault).cons ⟨rfl, rfl⟩).queueOrderly
    unfold checkAll
    rw [bind_assoc, CycleM.leads_call_bind, Course.leads_load, Store.run_loadMarkets]
    split
    · rename_i fault _
      obtain ⟨failure, hf⟩ := Course.ofStore_error (Loaded (Int × Market)) fault
      rw [hf]
      exact .unchecked (hquiet _)
    · cases hm : stored.markets with
      | none => exact .unchecked (hquiet none)
      | some table =>
        -- the checks find the rows of the store that was left when the queue was dealt with
        have hrows : stored.readable = (Store.decodedMarkets table).found := by rw [Store.readable, hm]; rfl
        have hcycle : ∀ checks, ChecksOrderly w dryRun refresh now (past ++ queue ++ [⟨.clock, now⟩] ++ [⟨.access, none⟩])
            (Store.decodedMarkets table).found checks →
            CycleOrderly w journal dryRun refresh past store
              (queue ++ ([⟨.clock, now⟩] ++ ([⟨.access, none⟩] ++ (checks ++ [])))) := fun checks hc => by
          rw [← hrows, List.append_assoc _ [_] [_]] at hc
          rw [List.append_nil]
          exact .checked hu ho hc
        change ((processMarkets _ _ _ _ _ _ >>= _) >>= _ : CycleM Course _).Leads _ _ _ _
        rw [bind_assoc]
        refine (processMarkets_leads journal dryRun refresh now _ _ _ _).bind (fun summary checks _ hc => ?_)
          fun _ checks _ hc => ?_
        · rw [pure_bind, CycleM.leads_call_bind]
          exact hcycle checks hc
        · rw [← List.append_nil checks]
          exact hcycle checks hc

/-- Every run of cycles is orderly. -/
theorem runEach_leads (journal dryRun : Bool) : ∀ (cycles : List Bool) (past : List Call) (store : Store),
    (runEach (services journal) dryRun cycles).Leads w past store fun _ calls _ =>
      RunOrderly w journal dryRun past store cycles calls
  | [], _, _ => .stop
  | refresh :: rest, past, store => by
    refine CycleM.leads_bind.2 (Course.leads_of_upshot fun result calls store' hu => ?_)
    have hc : CycleOrderly w journal dryRun refresh past store calls :=
      Course.Leads.upshot (runCycle_leads journal dryRun refresh) hu
    cases result with
    | error _ =>
      rw [← List.append_nil calls]
      exact .cycle hc .stop
    | ok _ =>
      refine (runEach_leads journal dryRun rest (past ++ calls) store').bind (fun _ more _ hn => ?_) fun _ more _ hn => ?_
      · rw [CycleM.leads_pure, List.append_nil]
        exact .cycle hc (by rw [hu]; exact hn)
      · exact .cycle hc (by rw [hu]; exact hn)

/-! ## Rehearsals -/

/-- A check in a rehearsal writes nothing. -/
theorem CheckOrderly.unwritten {market : Market} {now : Instant} {calls : List Call}
    (h : CheckOrderly w true market now past calls) : ∀ c ∈ calls, c.question.isWrite = false := by
  intro c hc
  obtain ⟨before, after, rfl⟩ := List.append_of_mem hc
  obtain ⟨question, answer⟩ := c
  cases question with
  | resolve m v => exact absurd (h.resolves before m v answer after rfl).1 Bool.noConfusion
  | cancel m => exact absurd (h.cancels before m answer after rfl).1 Bool.noConfusion
  | create request => exact absurd rfl (h.creates_nothing _ hc request)
  | _ => rfl

theorem ChecksOrderly.unwritten {refresh : Bool} {now : Instant} {rows : List (Int × Market)} {calls : List Call}
    (h : ChecksOrderly w true refresh now past rows calls) : ∀ c ∈ calls, c.question.isWrite = false := by
  induction h with
  | stop => simp
  | leave _ _ _ ih => exact ih
  | check _ hc _ ih => exact List.forall_mem_append.2 ⟨hc.unwritten, ih⟩

theorem QueueOrderly.unwritten {calls : List Call} (h : QueueOrderly true calls) :
    ∀ c ∈ calls, c.question.isWrite = false := fun c hc =>
  Bool.eq_false_iff.2 fun hw => absurd ((h c hc).2 hw).1 Bool.noConfusion

/-- A rehearsal writes nothing. -/
theorem RunOrderly.unwritten {journal : Bool} {cycles : List Bool} {calls : List Call}
    (h : RunOrderly w journal true past store cycles calls) : ∀ c ∈ calls, c.question.isWrite = false := by
  induction h with
  | stop => simp
  | cycle hc _ ih =>
    refine List.forall_mem_append.2 ⟨?_, ih⟩
    cases hc with
    | unchecked hq => exact hq.unwritten
    | checked _ ho hc =>
      exact List.forall_mem_append.2 ⟨ho.unwritten,
        List.forall_mem_cons.2 ⟨rfl, List.forall_mem_cons.2 ⟨rfl, hc.unwritten⟩⟩⟩

/-- Every write to the platform is justified. Whatever the world answers, a run of cycles goes cycle by cycle and check by
check: a resolution or a cancellation happens only in the check of a stored market that is due or checked in any case,
where it has its warrant, and creations happen only before the checks. A rehearsal writes nothing at all. -/
theorem writes_justified (w : World) (journal dryRun : Bool) (cycles : List Bool) (past : List Call) (store : Store) :
    (runEach (services journal) dryRun cycles).Leads w past store fun _ calls _ =>
      RunOrderly w journal dryRun past store cycles calls ∧
      (dryRun = true → ∀ c ∈ calls, c.question.isWrite = false) :=
  (runEach_leads journal dryRun cycles past store).mono fun _ _ _ h => ⟨h, fun hd => by
    subst hd
    exact h.unwritten⟩

end Arbiter
