import Arbiter.Proofs.Cycle.Events
import Arbiter.Proofs.Cycle.RehearsedCycle

/-!
# What a check leaves in the journal

A check that comes to a decision on a proposal leaves an entry of it. One that finds its market resolved, or of which no
trigger holds, leaves nothing, and one that fails leaves nothing itself.

* `entries`: the entries that some calls make. `applications`: the calls among them that settle a market.
* `Silent`: calls that do neither. `Course.Hushed`: work that makes only such calls.
* `decisionCalls`: the calls from the question to a person up to the entry of the decision. `Decided`: a check that came to
  them, because a trigger fired.
* `FreshAudit`, `CheckAudit`: how a check ends, and why (`checkFresh_audit`, `checkMarket_audit`).
-/

namespace Arbiter

/-! ## Entries and applications -/

namespace Call

/-- The entry that a call makes in the journal, if that succeeds. -/
def entry? : Call → Option JournalEntry
  | ⟨.record entry, (answer : Except Failure Unit)⟩ => if answer.isOk then some entry else none
  | _ => none

/-- Whether a call is to settle a market and fails. -/
def failsToSettle : Call → Bool
  | ⟨.resolve _ _, (answer : Except Failure Unit)⟩ | ⟨.cancel _, (answer : Except Failure Unit)⟩ => !answer.isOk
  | _ => false

/-- Whether a call neither makes an entry nor settles a market. -/
def isSilent (c : Call) : Bool := !c.settles && c.entry?.isNone

end Call

/-- The entries that some calls make in the journal, in their order. -/
def entries (calls : List Call) : List JournalEntry := calls.filterMap Call.entry?

/-- The calls that settle a market, in their order. -/
def applications (calls : List Call) : List Call := calls.filter Call.settles

@[simp] theorem entries_append (calls more : List Call) : entries (calls ++ more) = entries calls ++ entries more :=
  List.filterMap_append

@[simp] theorem applications_append (calls more : List Call) :
    applications (calls ++ more) = applications calls ++ applications more := List.filter_append ..

/-- No entry is made and no market is settled. -/
def Silent (calls : List Call) : Prop := ∀ c ∈ calls, c.isSilent = true

namespace Silent

variable {calls more : List Call}

theorem nil : Silent [] := by simp [Silent]

theorem single {c : Call} (h : c.isSilent = true) : Silent [c] := List.forall_mem_singleton.2 h

theorem append (h : Silent calls) (h' : Silent more) : Silent (calls ++ more) := List.forall_mem_append.2 ⟨h, h'⟩

theorem no_entries (h : Silent calls) : entries calls = [] := by
  refine List.filterMap_eq_nil_iff.2 fun c hc => ?_
  have hsilent := h c hc
  simp only [Call.isSilent, Bool.and_eq_true, Option.isNone_iff_eq_none] at hsilent
  exact hsilent.2

theorem no_applications (h : Silent calls) : applications calls = [] := by
  refine List.filter_eq_nil_iff.2 fun c hc => ?_
  have hsilent := h c hc
  simp only [Call.isSilent, Bool.and_eq_true, Bool.not_eq_true'] at hsilent
  simp [hsilent.1]

end Silent

theorem Call.isSilent_of_isReading {c : Call} (h : c.question.isReading = true) : c.isSilent = true := by
  obtain ⟨question, answer⟩ := c
  cases question <;> first | rfl | cases h

theorem Readings.silent {calls : List Call} (h : Readings calls) : Silent calls := fun c hc =>
  Call.isSilent_of_isReading (h c hc)

/-- Quiet calls do not even try to settle a market. -/
theorem Quiet.not_failsToSettle {calls : List Call} (h : Quiet calls) : ∀ c ∈ calls, c.failsToSettle = false := by
  intro c hc
  obtain ⟨question, answer⟩ := c
  have hwrite : question.isWrite = false := (h _ hc).2
  cases question <;> first | rfl | cases hwrite

/-- Nobody answers in quiet calls. -/
theorem Quiet.not_asked {calls : List Call} (h : Quiet calls) {seen : Snapshot} {proposal : Proposal}
    {answer : Except Failure Decision} : ⟨.confirm seen proposal, answer⟩ ∉ calls := fun hc => by
  have hconfirmation := (h _ hc).1
  cases hconfirmation

/-! ## Work without a trace -/

namespace Course

variable {α β : Type}

/-- Wherever it begins, the work makes no entry and settles no market. -/
def Hushed (x : Course α) : Prop := ∀ w past store, x.Leads w past store fun _ calls _ => Silent calls

theorem hushed_pure (a : α) : (pure a : Course α).Hushed := fun _ _ _ => Silent.nil

theorem Hushed.bind {x : Course α} {f : α → Course β} (hx : x.Hushed) (hf : ∀ a, (f a).Hushed) : (x >>= f).Hushed :=
  fun w past store => (hx w past store).bind fun a calls store' h =>
    (hf a w (past ++ calls) store').mono fun _ _ _ hmore => h.append hmore

theorem hushed_ask {q : Question} (hq : ∀ a, (⟨q, a⟩ : Call).isSilent = true) : (ask q).Hushed := fun w past _ =>
  Silent.single (hq (w.answer past q))

theorem hushed_store (journal : Bool) (work : StoreM α) : ((services journal).store work).Hushed := by
  intro w past store
  rw [leads_store]
  split
  · exact Silent.single rfl
  · exact Silent.single rfl

theorem hushed_load (journal : Bool) (table : TableName) (work : StoreM (Loaded α)) :
    ((services journal).load table work).Hushed := by
  rw [load_eq]
  exact (hushed_store journal work).bind fun _ => hushed_pure _

end Course

/-- Putting a checked market back leaves no trace. -/
theorem storeChecked_hushed (journal dryRun : Bool) (row : Int) (market : Market) (state : CheckState) :
    (storeChecked (services journal) dryRun row market state).Hushed := fun _ _ _ =>
  (storeChecked_rowDone journal dryRun ⟨row, market, state⟩).mono fun _ _ _ h => h.1 ▸ Silent.single rfl

/-- Nor does the turn of a request. -/
theorem processRequest_hushed (journal dryRun : Bool) (pending : PendingRequest) :
    (processRequest (services journal) dryRun pending).Hushed := by
  have hremove := Course.hushed_store journal (Store.removePending pending.row)
  have hdrop : ∀ fault, (dropInvalid (services journal) pending fault).Hushed := fun fault =>
    (Course.hushed_pure ()).bind fun () => hremove.bind fun
      | .ok _ => Course.hushed_pure ()
      | .error _ => Course.hushed_pure ()
  have hstore : ∀ snapshot, (storeCreated (services journal) pending.request snapshot).Hushed := by
    intro snapshot
    have hinsert : (insertCreated (services journal) pending.request snapshot).Hushed := by
      unfold insertCreated
      split
      · exact Course.hushed_pure _
      · exact Course.hushed_store journal _
    refine hinsert.bind fun
      | .ok _ => (Course.hushed_pure ()).bind fun () => Course.hushed_pure _
      | .error _ => (Course.hushed_pure ()).bind fun () => Course.hushed_pure _
  have hcreate : (createPending (services journal) pending).Hushed := by
    refine (Course.hushed_ask (q := .create pending.request) fun _ => rfl).bind fun
      | .error _ => (Course.hushed_pure ()).bind fun () => Course.hushed_pure _
      | .ok snapshot => hremove.bind fun
        | .ok _ => hstore snapshot
        | .error _ => (Course.hushed_pure ()).bind fun () => hstore snapshot
  unfold processRequest
  split
  · exact (hdrop _).bind fun () => Course.hushed_pure _
  · cases dryRun with
    | true => exact (Course.hushed_pure ()).bind fun () => Course.hushed_pure _
    | false => exact hcreate

/-! ## Decisions -/

/-- Every entry that is made in the journal is written. -/
def World.Journals (w : World) : Prop := ∀ past entry, w.answer past (.record entry) = .ok ()

/-- The calls from the question to a person, who answers, up to the entry of the decision. Between them the market is
settled as it was decided, but not in a rehearsal. The entry says that the decision was applied exactly if the market was
settled. -/
def decisionCalls (dryRun : Bool) (seen : Snapshot) (now : Instant) (proposal : Proposal) (answer : Decision) : List Call :=
  let decision := effectiveDecision answer proposal.value
  ⟨.confirm seen proposal, .ok answer⟩ ::
    ((if dryRun then [] else applicationCalls seen proposal.value decision) ++
      [⟨.record (.decision now proposal decision (!dryRun && decision != .skip)), .ok ()⟩])

section

variable (dryRun : Bool) (seen : Snapshot) (now : Instant) (proposal : Proposal) (answer : Decision)

theorem entries_decisionCalls : entries (decisionCalls dryRun seen now proposal answer) =
    [.decision now proposal (effectiveDecision answer proposal.value)
      (!dryRun && effectiveDecision answer proposal.value != .skip)] := by
  unfold decisionCalls
  cases dryRun with
  | true => rfl
  | false => cases effectiveDecision answer proposal.value <;> rfl

theorem applications_decisionCalls : applications (decisionCalls dryRun seen now proposal answer) =
    if dryRun then [] else applicationCalls seen proposal.value (effectiveDecision answer proposal.value) := by
  unfold decisionCalls
  cases dryRun with
  | true => rfl
  | false => cases effectiveDecision answer proposal.value <;> rfl

theorem not_failsToSettle_decisionCalls : ∀ c ∈ decisionCalls dryRun seen now proposal answer, c.failsToSettle = false := by
  unfold decisionCalls
  cases dryRun with
  | true => simp [Call.failsToSettle]
  | false =>
    cases effectiveDecision answer proposal.value <;>
      simp [applicationCalls, Call.failsToSettle, Except.isOk, Except.toBool]

variable {dryRun seen now proposal answer}

/-- One person is asked, about one proposal. -/
theorem confirm_mem_decisionCalls {seen' : Snapshot} {proposal' : Proposal} {answer' : Decision}
    (h : ⟨.confirm seen' proposal', .ok answer'⟩ ∈ decisionCalls dryRun seen now proposal answer) :
    seen' = seen ∧ proposal' = proposal ∧ answer' = answer := by
  rcases List.mem_cons.1 h with h | h
  · cases h
    exact ⟨rfl, rfl, rfl⟩
  · have hnone : ∀ c ∈ (decisionCalls dryRun seen now proposal answer).tail, c.question.isConfirmation = false := by
      unfold decisionCalls
      cases dryRun with
      | true => simp [Question.isConfirmation]
      | false => cases effectiveDecision answer proposal.value <;> simp [applicationCalls, Question.isConfirmation]
    have hconfirmation := hnone _ h
    cases hconfirmation

end

/-- What a check of `market` asks after `past` that comes to a decision, with what follows it without a trace. The market is
open, a trigger of it fires and its rules propose a value, the person who is asked about this proposal answers, and what
was decided is done and recorded. -/
inductive Decided (w : World) (dryRun : Bool) (market : Market) (now : Instant) (past : List Call) :
    CheckState → List Call → Prop
  | intro {reading rest : List Call} {proposal : Proposal} {answer : Decision}
      (hopen : market.snapshot.isResolved = false) (hread : Readings reading)
      (hproposes : Proposes w market now past reading proposal.value)
      (hid : proposal.marketId = market.snapshot.id) (hquestion : proposal.question = market.snapshot.question)
      (hquiet : Quiet rest) (hsilent : Silent rest) :
      Decided w dryRun market now past (CheckState.ofDecision (effectiveDecision answer proposal.value))
        (reading ++ (decisionCalls dryRun market.snapshot now proposal answer ++ rest))

namespace Decided

variable {w : World} {dryRun : Bool} {market : Market} {now : Instant} {past calls more : List Call} {state : CheckState}

/-- Work without a trace follows. -/
theorem followed (h : Decided w dryRun market now past state calls) (hquiet : Quiet more) (hsilent : Silent more) :
    Decided w dryRun market now past state (calls ++ more) := by
  obtain ⟨hopen, hread, hproposes, hid, hquestion, hq, hs⟩ := h
  rw [List.append_assoc, List.append_assoc]
  exact .intro hopen hread hproposes hid hquestion (hq.append hquiet) (hs.append hsilent)

/-- A decision is no idling. -/
theorem ne_idle (h : Decided w dryRun market now past state calls) : state ≠ .idle := by
  cases h with
  | @intro reading rest proposal answer => cases effectiveDecision answer proposal.value <;> nofun

theorem isOpen (h : Decided w dryRun market now past state calls) : market.snapshot.isResolved = false := by
  obtain ⟨hopen⟩ := h
  exact hopen

/-- Nothing that was to settle the market has failed. -/
theorem not_failsToSettle (h : Decided w dryRun market now past state calls) : ∀ c ∈ calls, c.failsToSettle = false := by
  obtain ⟨-, hread, -, -, -, hquiet, -⟩ := h
  exact List.forall_mem_append.2 ⟨hread.quiet.not_failsToSettle, List.forall_mem_append.2
    ⟨not_failsToSettle_decisionCalls _ _ _ _ _, hquiet.not_failsToSettle⟩⟩

/-- The person who answered was asked about a proposal that names the market. The decision is in one entry, and with it one
call at most has settled the market. -/
theorem leaves (h : Decided w dryRun market now past state calls) : ∃ proposal answer,
    proposal.marketId = market.snapshot.id ∧ proposal.question = market.snapshot.question ∧
    (∀ seen proposal' answer', ⟨.confirm seen proposal', .ok answer'⟩ ∈ calls →
      seen = market.snapshot ∧ proposal' = proposal ∧ answer' = answer) ∧
    entries calls = [.decision now proposal (effectiveDecision answer proposal.value)
      (!dryRun && effectiveDecision answer proposal.value != .skip)] ∧
    applications calls = if dryRun then [] else
      applicationCalls market.snapshot proposal.value (effectiveDecision answer proposal.value) := by
  obtain ⟨-, hread, -, hid, hquestion, hquiet, hsilent⟩ := h
  rename_i reading rest proposal answer
  refine ⟨proposal, answer, hid, hquestion, fun seen proposal' answer' hc => ?_, ?_, ?_⟩
  · rcases List.mem_append.1 hc with hc | hc
    · exact absurd hc hread.quiet.not_asked
    · rcases List.mem_append.1 hc with hc | hc
      · exact confirm_mem_decisionCalls hc
      · exact absurd hc hquiet.not_asked
  · rw [entries_append, entries_append, hread.silent.no_entries, hsilent.no_entries, entries_decisionCalls]
    rfl
  · rw [applications_append, applications_append, hread.silent.no_applications, hsilent.no_applications,
      applications_decisionCalls, List.nil_append, List.append_nil]

end Decided

/-! ## Checks -/

/-- Wherever a person has answered, what was decided then failed on the platform. -/
def Thwarted (calls : List Call) : Prop :=
  ∀ seen proposal answer, ⟨.confirm seen proposal, .ok answer⟩ ∈ calls → ∃ c ∈ calls, c.failsToSettle = true

theorem Quiet.thwarted {calls : List Call} (h : Quiet calls) : Thwarted calls := fun _ _ _ hc => absurd hc h.not_asked

/-- Reading comes before. -/
theorem Thwarted.preceded {calls reading : List Call} (h : Thwarted calls) (hread : Quiet reading) :
    Thwarted (reading ++ calls) := by
  intro seen proposal answer hc
  rcases List.mem_append.1 hc with hc | hc
  · exact absurd hc hread.not_asked
  · obtain ⟨c, hmem, hfails⟩ := h seen proposal answer hc
    exact ⟨c, List.mem_append_right _ hmem, hfails⟩

/-- Work that is quiet follows. -/
theorem Thwarted.followed {calls more : List Call} (h : Thwarted calls) (hmore : Quiet more) : Thwarted (calls ++ more) := by
  intro seen proposal answer hc
  rcases List.mem_append.1 hc with hc | hc
  · obtain ⟨c, hmem, hfails⟩ := h seen proposal answer hc
    exact ⟨c, List.mem_append_left _ hmem, hfails⟩
  · exact absurd hc hmore.not_asked

/-- How the check of a fetched market ends, and the calls it makes: it is found resolved, no trigger of it fires, there is a
decision, or something fails or crashes. -/
inductive FreshAudit (w : World) (dryRun : Bool) (market : Market) (now : Instant) (past : List Call) :
    Except Crash (Except Failure CheckState × Market) → List Call → Prop
  | crashed {crash : Crash} {calls : List Call} (hr : Readings calls) : FreshAudit w dryRun market now past (.error crash) calls
  | failed {failure : Failure} {calls : List Call} (hs : Silent calls) (ht : Thwarted calls) :
      FreshAudit w dryRun market now past (.ok (.error failure, market)) calls
  | resolved (hresolved : market.snapshot.isResolved = true) :
      FreshAudit w dryRun market now past (.ok (.ok .resolved, market)) []
  | untriggered {asked : List Call} {memory : Memory} (hopen : market.snapshot.isResolved = false) (hr : Readings asked)
      (hnone : NoneFires w (worldPass market.snapshot now) past Memory.empty market.triggers asked memory) :
      FreshAudit w dryRun market now past (.ok (.ok .idle, market.markChecked now)) asked
  | decided {state : CheckState} {calls : List Call} (hd : Decided w dryRun market now past state calls) :
      FreshAudit w dryRun market now past (.ok (.ok state, market.markChecked now)) calls

/-- How the check of a market that is wanted ends: it cannot be fetched, or it is and the check goes on from there. -/
inductive CheckAudit (w : World) (dryRun : Bool) (market : Market) (now : Instant) (past : List Call) :
    Except Crash (Except Failure CheckState × Market) → List Call → Prop
  | unread {fault : ReadFault} {failure : Failure} :
      CheckAudit w dryRun market now past (.ok (.error failure, market)) [⟨.snapshot market.snapshot.id, .error fault⟩]
  | fetched {fresh : Snapshot} {result : Except Crash (Except Failure CheckState × Market)} {calls : List Call}
      (hf : w.answer past (.snapshot market.snapshot.id) = .ok fresh)
      (h : FreshAudit w dryRun (market.refresh fresh) now (past ++ [⟨.snapshot market.snapshot.id, .ok fresh⟩]) result calls) :
      CheckAudit w dryRun market now past result (⟨.snapshot market.snapshot.id, .ok fresh⟩ :: calls)

section

variable {w : World} {past : List Call} {store : Store}

/-- A decision is done with the calls for it, or its call fails. -/
theorem applyDecision_audit (journal dryRun : Bool) (market : Market) (proposal : Proposal) (decision : Decision) :
    (applyDecision (services journal) dryRun market proposal decision).Leads w past store fun applied calls _ =>
      (applied = .ok () →
        calls = if dryRun then [] else applicationCalls market.snapshot proposal.value decision) ∧
      ∀ failure, applied = .error failure → Silent calls ∧ ∃ c ∈ calls, c.failsToSettle = true := by
  cases dryRun with
  | true =>
    refine (applyDecision_gives_rehearsal w journal market proposal decision past).leads ⟨fun _ => rfl, ?_⟩
    intro _ hfailed
    cases hfailed
  | false =>
    cases decision with
    | skip => exact ⟨fun _ => rfl, fun _ hfailed => by cases hfailed⟩
    | resolve =>
      refine Course.leads_ask.2 ?_
      generalize w.answer past (.resolve market.snapshot proposal.value) = answer
      refine ⟨fun hok => by rw [hok]; rfl, fun failure hfailed => ?_⟩
      rw [hfailed]
      exact ⟨Silent.single rfl, _, List.mem_singleton_self _, rfl⟩
    | cancel =>
      refine Course.leads_ask.2 ?_
      generalize w.answer past (.cancel market.snapshot) = answer
      refine ⟨fun hok => by rw [hok]; rfl, fun failure hfailed => ?_⟩
      rw [hfailed]
      exact ⟨Silent.single rfl, _, List.mem_singleton_self _, rfl⟩

/-- What comes of a proposal that was made after some reading: a decision, or a failure without a trace. -/
theorem settle_audit (hlog : w.Journals) (dryRun : Bool) {market : Market} {now : Instant} {proposal : Proposal}
    {reading : List Call} (hopen : market.snapshot.isResolved = false) (hread : Readings reading)
    (hproposes : Proposes w market now past reading proposal.value) (hid : proposal.marketId = market.snapshot.id)
    (hquestion : proposal.question = market.snapshot.question) :
    (settle (services true) dryRun market now proposal).Leads w (past ++ reading) store fun result calls _ =>
      FreshAudit w dryRun market now past (.ok result) (reading ++ calls) := by
  unfold settle
  rw [Course.leads_notify]
  refine Course.leads_bind.2 (Course.leads_ask.2 ?_)
  generalize w.answer (past ++ reading) (.confirm market.snapshot proposal) = answer
  have hasked : ∀ answer, Silent [⟨.confirm market.snapshot proposal, answer⟩] := fun _ => Silent.single rfl
  match answer with
  | .error failure =>
    refine .failed (hread.silent.append (hasked _)) ?_
    intro seen other answer hc
    rcases List.mem_append.1 hc with hc | hc
    · exact absurd hc hread.quiet.not_asked
    · cases List.mem_singleton.1 hc
  | .ok answer =>
    refine (applyDecision_audit true dryRun market proposal (effectiveDecision answer proposal.value)).bind
      fun applied calls store' h => ?_
    match applied with
    | .error failure =>
      obtain ⟨hsilent, c, hc, hfails⟩ := h.2 failure rfl
      refine .failed (hread.silent.append ((hasked _).append (hsilent.append Silent.nil))) fun _ _ _ _ => ⟨c, ?_, hfails⟩
      exact List.mem_append_right _ (List.mem_append_right _ (List.mem_append_left _ hc))
    | .ok () =>
      obtain rfl := h.1 rfl
      refine Course.leads_bind.2 ((recordDecision_gives true market now proposal _ _ w _).leads ?_)
      rw [hlog]
      have hdecided := @Decided.intro w dryRun market now past reading [] proposal answer hopen hread hproposes hid hquestion
        quiet_nil Silent.nil
      rw [List.append_nil] at hdecided
      exact .decided hdecided

/-- A proposal for a market names it. -/
theorem propose_names (journal : Bool) (market : Market) (now : Instant) :
    (propose (services journal) market now).Leads w past store fun result _ _ =>
      ∀ proposal, result = .ok (.ok (some proposal)) →
        proposal.marketId = market.snapshot.id ∧ proposal.question = market.snapshot.question := by
  unfold propose
  refine CycleM.leads_bind.2 (Course.leads_of_upshot fun fired _ _ _ => ?_)
  match fired with
  | .error _ => exact fun _ h => by cases h
  | .ok (.error _, _) => exact CycleM.leads_pure.2 fun _ h => by cases h
  | .ok (.ok false, _) => exact CycleM.leads_pure.2 fun _ h => by cases h
  | .ok (.ok true, memory) =>
    refine CycleM.leads_bind.2 (Course.leads_of_upshot fun valued _ _ _ => ?_)
    match valued with
    | .error _ => exact fun _ h => by cases h
    | .ok (.error _, _) => exact CycleM.leads_pure.2 fun _ h => by cases h
    | .ok (.ok value, memory) =>
      refine CycleM.leads_bind.2 (Course.leads_of_upshot fun explained _ _ _ => ?_)
      match explained with
      | .error _ => exact fun _ h => by cases h
      | .ok (.ok e, _) => exact CycleM.leads_pure.2 fun _ h => by cases h; exact ⟨rfl, rfl⟩
      | .ok (.error fault, _) =>
        dsimp only
        rw [CycleM.leads_bind, CycleM.leads_call]
        exact fun _ h => by cases h; exact ⟨rfl, rfl⟩

/-- How a check ends once the market is fresh. -/
theorem checkFresh_audit (hlog : w.Journals) (dryRun : Bool) (market : Market) (now : Instant) :
    (checkFresh (services true) dryRun market now).Leads w past store fun result calls _ =>
      FreshAudit w dryRun market now past result calls := by
  unfold checkFresh
  by_cases hresolved : market.snapshot.isResolved = true
  · rw [if_pos hresolved]
    exact .resolved hresolved
  · have hopen := eq_false_of_ne_true hresolved
    rw [if_neg hresolved]
    have hproposed := ((propose_leads true market now).and (propose_names true market now)).and
      (@propose_nothing w past store true market now)
    refine hproposed.bind (fun proposed reading store' h => ?_) fun _ reading _ h => .crashed h.1.1.1
    obtain ⟨⟨⟨hread, hproposes⟩, hnames⟩, hnothing⟩ := h
    match proposed with
    | .error fault =>
      refine CycleM.leads_pure.2 ?_
      rw [List.append_nil]
      exact .failed hread.silent hread.quiet.thwarted
    | .ok none =>
      refine CycleM.leads_pure.2 ?_
      rw [List.append_nil]
      obtain ⟨memory, hnone⟩ := (hnothing rfl).resolve_left hresolved
      exact .untriggered hopen hread hnone
    | .ok (some proposal) =>
      obtain ⟨hid, hquestion⟩ := hnames proposal rfl
      dsimp only
      rw [CycleM.leads_call]
      exact settle_audit hlog dryRun hopen hread (hproposes proposal rfl).2 hid hquestion

/-- How the check of a market ends that is wanted. -/
theorem checkMarket_audit (hlog : w.Journals) (dryRun refresh : Bool) (market : Market) (now : Instant)
    (hw : isWanted market refresh now = (pure true : CycleM Course Bool)) :
    (checkMarket (services true) dryRun market refresh now).Leads w past store fun result calls _ =>
      CheckAudit w dryRun market now past result calls := by
  unfold checkMarket
  rw [hw, pure_bind, if_pos rfl, CycleM.leads_call_bind]
  refine Course.leads_ask.2 ?_
  cases hf : w.answer past (.snapshot market.snapshot.id) with
  | error fault => exact CycleM.leads_pure.2 .unread
  | ok fresh => exact (checkFresh_audit hlog dryRun (market.refresh fresh) now).mono fun _ _ _ h => .fetched hf h

end

end Arbiter
