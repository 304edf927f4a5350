import Arbiter.Proofs.Cycle.Told
import Arbiter.Proofs.Cycle.VisitAudit
import Arbiter.Proofs.Journal
import Mathlib.Data.List.Forall2

/-!
# The journal as an audit trail

While the journal can be written, the entries of a run are those that its events leave, in their order. So the entries
of decisions that were applied correspond to the calls that resolved or cancelled a market, one to one and in order.

* `Spelled`: the trace of some calls is that of some events. `runSteps_spells`: the trace of a run is that of its
  events.
* `Event.Audited`: what each event leaves. `audited_of_mem_runEvents`: every event of a run is so.
* `Call.IsToldBy`: the entry that tells of a call. `journal_audits`: the journal of every run.
-/

namespace Arbiter

/-! ## The trace of events -/

/-- The entries of some calls, and the calls among them that settle a market, are those of some events in their
order. -/
structure Spelled (events : List Event) (calls : List Call) : Prop where
  entries : entries calls = events.flatMap fun e => Arbiter.entries e.calls
  applications : applications calls = events.flatMap fun e => Arbiter.applications e.calls

namespace Spelled

variable {events more : List Event} {calls later : List Call}

theorem nil (h : Silent calls) : Spelled [] calls := ⟨h.no_entries, h.no_applications⟩

theorem single (e : Event) : Spelled [e] e.calls where
  entries := by rw [List.flatMap_singleton]
  applications := by rw [List.flatMap_singleton]

theorem append (h : Spelled events calls) (h' : Spelled more later) : Spelled (events ++ more) (calls ++ later) where
  entries := by rw [entries_append, List.flatMap_append, h.entries, h'.entries]
  applications := by rw [applications_append, List.flatMap_append, h.applications, h'.applications]

/-- Work follows without a trace. -/
theorem followed (h : Spelled events calls) (hs : Silent later) : Spelled events (calls ++ later) := by
  have happend := h.append (nil hs)
  rwa [List.append_nil] at happend

/-- Work without a trace comes before. -/
theorem preceded (h : Spelled events calls) (hs : Silent later) : Spelled events (later ++ calls) := (nil hs).append h

end Spelled

section

variable {w : World} {past : List Call} {store : Store} (journal dryRun : Bool)

theorem requestEvents_spell : ∀ (requests : List PendingRequest) (past : List Call) (store : Store) (created : Nat),
    (processRequests (services journal) dryRun created requests).Leads w past store fun _ calls _ =>
      Spelled (requestEvents (services journal) dryRun w past store requests) calls
  | [], _, _, _ => .nil Silent.nil
  | pending :: rest, past, store, created => by
    have hturn := Spelled.single ((processRequest (services journal) dryRun pending).event (.request pending.row) w past
      store)
    exact Course.leads_bind.2 ((requestEvents_spell rest _ _ _).mono fun _ _ _ h => hturn.append h)

theorem marketEvents_spell (refresh : Bool) (now : Instant) :
    ∀ (rows : List (Int × Market)) (past : List Call) (store : Store) (summary : CycleSummary),
      (processMarkets (services journal) dryRun refresh now summary rows).Leads w past store fun _ calls _ =>
        Spelled (marketEvents (services journal) dryRun w refresh now past store summary rows) calls
  | [], _, _, _ => .nil Silent.nil
  | (row, market) :: rest, past, store, summary => by
    unfold processMarkets
    refine CycleM.leads_bind.2 (Course.leads_of_upshot fun result calls store' hu => ?_)
    have hvisit := Spelled.single ⟨.market row refresh now, past, calls, store, store'⟩
    rw [marketEvents_cons journal dryRun refresh now hu]
    cases result with
    | error _ => exact hvisit
    | ok summary =>
      exact (marketEvents_spell refresh now rest (past ++ calls) store' summary).mono fun _ _ _ h => hvisit.append h

theorem queueEvents_spell :
    (processPending (services journal) dryRun).Leads w past store fun _ calls _ =>
      Spelled (queueEvents (services journal) dryRun w past store) calls := by
  refine Course.leads_bind.2 (Course.leads_of_upshot fun loaded calls store' hu => ?_)
  have hload : Silent calls := Course.Leads.upshot (Course.hushed_load journal .pending _ w past store) hu
  unfold queueEvents
  rw [hu]
  cases loaded with
  | error failure => exact .nil (hload.append Silent.nil)
  | ok requests =>
    refine (requestEvents_spell journal dryRun requests (past ++ calls) store' 0).bind fun _ more _ h => ?_
    exact (h.followed Silent.nil).preceded hload

/-- The opening of a cycle leaves what the turns of the requests leave. -/
theorem openCycle_spells :
    (openCycle (services journal) dryRun).Leads w past store fun _ calls _ =>
      Spelled (queueEvents (services journal) dryRun w past store) calls := by
  refine (queueEvents_spell journal dryRun).bind fun created calls store' h => ?_
  cases created with
  | error _ => exact h.followed Silent.nil
  | ok created =>
    refine (Course.hushed_ask (q := .clock) (fun _ => rfl) w (past ++ calls) store').bind fun now clock s hclock => ?_
    refine (Course.hushed_load journal .markets _ w _ s).bind fun loaded more s' hload => ?_
    have hrest := h.followed (hclock.append (hload.append Silent.nil))
    cases loaded with
    | error _ => exact hrest
    | ok _ => exact hrest

/-- A cycle leaves what its events leave. -/
theorem runCycle_spells (refresh : Bool) :
    (runCycle (services journal) dryRun refresh).Leads w past store fun _ calls _ =>
      Spelled (queueEvents (services journal) dryRun w past store ++
        checkEvents (services journal) dryRun w refresh past store) calls := by
  rw [runCycle_opened, CycleM.leads_call_bind]
  refine Course.leads_of_upshot fun opened calls store' hu => ?_
  have hopened := Course.Leads.upshot (openCycle_spells journal dryRun) hu
  unfold checkEvents
  rw [hu]
  cases opened with
  | error _ => exact hopened.append (.nil Silent.nil)
  | ok opened =>
    obtain ⟨created, now, rows⟩ := opened
    refine (marketEvents_spell journal dryRun refresh now rows (past ++ calls) store' { created }).bind
      (fun summary more _ h => ?_) fun _ more _ h => hopened.append h
    exact hopened.append (h.followed Silent.nil)

theorem step_spells (step : RunStep) :
    (step.work (services journal) dryRun).Leads w past store fun _ calls _ =>
      Spelled (step.events (services journal) dryRun w past store) calls := by
  cases step with
  | cycle refresh =>
    refine Course.leads_bind.2 ((runCycle_spells journal dryRun refresh).mono fun _ calls store' h => ?_)
    exact h.followed Silent.nil
  | edit e =>
    refine Course.leads_bind.2 (Course.leads_of_upshot fun result calls store' hu => ?_)
    dsimp only [RunStep.events, Course.event]
    rw [hu]
    exact (Spelled.single ⟨.edit, past, calls, store, store'⟩).followed Silent.nil

/-- Every run leaves what its events leave. -/
theorem runSteps_spells : ∀ (steps : List RunStep) (past : List Call) (store : Store),
    (runSteps (services journal) dryRun steps).Leads w past store fun _ calls _ =>
      Spelled (runEvents (services journal) dryRun w past store steps) calls
  | [], _, _ => .nil Silent.nil
  | step :: rest, past, store =>
    have hstep := @step_spells w past store journal dryRun step
    Course.leads_bind.2 ((runSteps_spells rest _ _).mono fun _ _ _ h => Spelled.append hstep h)

end

/-! ## What each event leaves -/

/-- What an event leaves: nothing, unless it is the visit of a market that stands in its row. -/
def Event.Audited (w : World) (dryRun : Bool) (e : Event) : Prop :=
  match e.subject with
  | .edit | .request _ => Silent e.calls
  | .market row refresh now => ∃ (summary : CycleSummary) (market : Market), (row, market) ∈ e.before.readable ∧
      e = (ExceptT.run (processMarket (services true) dryRun refresh now summary row market)).event e.subject w e.past
        e.before ∧
      VisitAudit w dryRun refresh now market e.past e.calls

section

variable {w : World} {dryRun : Bool} {e : Event}

theorem audited_of_mem_requestEvents : ∀ {requests : List PendingRequest} {past : List Call} {store : Store},
    e ∈ requestEvents (services true) dryRun w past store requests → e.Audited w dryRun
  | pending :: rest, past, store, h => by
    rcases List.mem_cons.1 h with rfl | h
    · exact processRequest_hushed true dryRun pending w past store
    · exact audited_of_mem_requestEvents h

/-- Whether or not the store can be worked on, a visit does something to its row, or nothing at all. -/
theorem processMarket_effect {past : List Call} {store : Store} (journal dryRun refresh : Bool) (now : Instant)
    (summary : CycleSummary) (row : Int) (market : Market) :
    (processMarket (services journal) dryRun refresh now summary row market).Leads w past store fun _ _ store' =>
      ∃ effect : RowEffect, store' = effect.apply row store := by
  have hkeep : ∃ effect : RowEffect, store = effect.apply row store := ⟨.keep, rfl⟩
  unfold processMarket
  rcases isWanted_cases market refresh now with ⟨hw, -⟩ | ⟨hw, -, -⟩ | hw
  · rw [hw, pure_bind, if_pos rfl]
    have hcheck := @checkMarket_comesTo w past store journal dryRun refresh now market
    refine hcheck.bind (fun checked calls store' h => ?_) fun _ _ store' h => h.2 ▸ hkeep
    obtain ⟨-, rfl⟩ := h
    match checked with
    | (.error failure, after) =>
      dsimp only
      rw [CycleM.leads_call_bind]
      exact (reportFailure_leads journal after failure).mono fun _ _ _ h => ⟨.keep, h.2⟩
    | (.ok state, after) =>
      dsimp only
      rw [CycleM.leads_call_bind]
      refine (storeChecked_rowDone journal dryRun ⟨row, after, state⟩).mono fun stored _ after h => ?_
      have heffect : ∃ effect : RowEffect, after = effect.apply row store' := by
        have hdone := h.2
        split at hdone
        · exact ⟨.keep, hdone.2⟩
        · exact ⟨_, hdone.2⟩
      cases stored with
      | true => exact heffect
      | false => exact heffect
  · rw [hw, pure_bind, if_neg Bool.false_ne_true]
    exact CycleM.leads_pure.2 hkeep
  · rw [hw, CycleM.throw_bind]
    exact CycleM.leads_throw.2 hkeep

theorem audited_of_mem_marketEvents (hlog : w.Journals) {refresh : Bool} {now : Instant} :
    ∀ {rows : List (Int × Market)} {past : List Call} {store : Store} {summary : CycleSummary},
      (rows.map (·.1)).Nodup → (∀ r ∈ rows, r ∈ store.readable) →
      e ∈ marketEvents (services true) dryRun w refresh now past store summary rows → e.Audited w dryRun
  | (row, market) :: rest, past, store, summary, hn, hr, h => by
    obtain ⟨hnot, hn⟩ := List.nodup_cons.1 hn
    obtain ⟨hfirst, hrest⟩ := List.forall_mem_cons.1 hr
    rw [marketEvents] at h
    rcases List.mem_cons.1 h with rfl | h
    · have hends := @processMarket_ends w past store hlog dryRun refresh now summary row market
      exact ⟨summary, market, hfirst, rfl, VisitEnd.audit hends⟩
    · obtain ⟨effect, heffect⟩ := @processMarket_effect w past store true dryRun refresh now summary row market
      split at h
      · cases h
      · -- the visit of a row touches no other row, so the rest is read as before
        refine audited_of_mem_marketEvents hlog hn (fun r hmem => ?_) h
        have hne : r.1 ≠ row := fun heq => hnot (List.mem_map.2 ⟨r, hmem, heq⟩)
        dsimp only [Course.event]
        rw [heffect]
        exact (effect.mem_readable_apply store hne).2 (hrest r hmem)

theorem audited_of_mem_events (hlog : w.Journals) {step : RunStep} {past : List Call} {store : Store}
    (h : e ∈ step.events (services true) dryRun w past store) : e.Audited w dryRun := by
  cases step with
  | edit edit =>
    rw [List.mem_singleton.1 h]
    exact Course.hushed_store true edit.work w past store
  | cycle refresh =>
    rcases List.mem_append.1 h with h | h
    · unfold queueEvents at h
      dsimp only at h
      split at h
      · cases h
      · exact audited_of_mem_requestEvents h
    · unfold checkEvents at h
      dsimp only at h
      split at h
      · cases h
      · rename_i created now rows hopened
        obtain rfl := @openCycle_readable w past store true dryRun created now rows hopened
        exact audited_of_mem_marketEvents hlog (Store.nodup_readable _) (fun _ hr => hr) h

/-- Every event of a run is audited. -/
theorem audited_of_mem_runEvents (hlog : w.Journals) : ∀ {steps : List RunStep} {past : List Call} {store : Store},
    e ∈ runEvents (services true) dryRun w past store steps → e.Audited w dryRun
  | step :: rest, past, store, h => by
    rw [runEvents] at h
    rcases List.mem_append.1 h with h | h
    · exact audited_of_mem_events hlog h
    · exact audited_of_mem_runEvents hlog h

end

/-! ## Applications and their entries -/

/-- Whether an entry is one of a decision that was applied. -/
def JournalEntry.isApplied : JournalEntry → Bool
  | .decision _ _ _ applied => applied
  | .event _ _ _ => false

/-- The entry tells of the call: it names the market, the value and what was done. -/
def Call.IsToldBy : Call → JournalEntry → Prop
  | ⟨.resolve market value, _⟩, entry =>
    ∃ time, entry.fields = [Instant.text time, market.id, market.question, value.text, "resolve", "true"]
  | ⟨.cancel market, _⟩, entry =>
    ∃ time value, entry.fields = [Instant.text time, market.id, market.question, Outcome.text value, "cancel", "true"]
  | _, _ => False

section

variable {w : World} {dryRun : Bool}

theorem Silent.tells {calls : List Call} (h : Silent calls) :
    List.Forall₂ Call.IsToldBy (applications calls) ((entries calls).filter (·.isApplied)) := by
  rw [h.no_applications, h.no_entries]
  exact .nil

/-- The application of a decision is told by the entry of the decision. -/
theorem Decided.tells {market : Market} {now : Instant} {past calls : List Call} {state : CheckState}
    (h : Decided w dryRun market now past state calls) :
    List.Forall₂ Call.IsToldBy (applications calls) ((entries calls).filter (·.isApplied)) := by
  obtain ⟨proposal, answer, hid, hquestion, -, hentries, happlied⟩ := h.leaves
  rw [hentries, happlied]
  cases dryRun with
  | true => exact .nil
  | false =>
    cases effectiveDecision answer proposal.value with
    | skip => exact .nil
    | resolve => exact .cons ⟨now, by rw [← hid, ← hquestion]; rfl⟩ .nil
    | cancel => exact .cons ⟨now, proposal.value, by rw [← hid, ← hquestion]; rfl⟩ .nil

/-- In each visit the application is told by the entry. -/
theorem VisitEnd.tells {refresh : Bool} {now : Instant} {market : Market} {past calls : List Call}
    (h : VisitEnd w dryRun refresh now market past calls) :
    List.Forall₂ Call.IsToldBy (applications calls) ((entries calls).filter (·.isApplied)) := by
  cases h with
  | notDue _ _ hcalls => exact (Silent.of_eq_nil hcalls).tells
  | crashed _ _ hs => exact hs.tells
  | failed _ hentries happlied =>
    rw [hentries, happlied]
    exact .nil
  | resolved _ _ _ _ hs => exact hs.tells
  | untriggered _ _ _ _ _ hs => exact hs.tells
  | decided _ _ _ hd hcalls =>
    rw [hcalls]
    exact hd.tells

/-- In each event the applications are told by entries, one to one. -/
theorem Event.Audited.tells {e : Event} (h : e.Audited w dryRun) :
    List.Forall₂ Call.IsToldBy (applications e.calls) ((entries e.calls).filter (·.isApplied)) := by
  unfold Event.Audited at h
  split at h
  · exact h.tells
  · exact h.tells
  · obtain ⟨-, market, -, -, haudit⟩ := h
    exact haudit.ends.tells

/-- The journal is a faithful audit trail while it can be written. Its entries are those that the events of the run
leave, in their order, and so are the calls that settle a market. The visit of a market leaves one entry if its check came to
a decision, which it does only where the fetched market is open and a trigger of it fires, or if its check failed. It leaves
nothing if the market is not due, if it is found resolved or if none of its triggers fires. The entries of decisions that
were applied correspond to the calls that resolved or cancelled a market, one to one and in order: each names the market,
the value and what was done. -/
theorem journal_audits (hlog : w.Journals) (dryRun : Bool) (steps : List RunStep) (past : List Call) (store : Store) :
    (∀ e ∈ runEvents (services true) dryRun w past store steps, e.Audited w dryRun) ∧
    (runSteps (services true) dryRun steps).Leads w past store fun _ calls _ =>
      Spelled (runEvents (services true) dryRun w past store steps) calls ∧
      List.Forall₂ Call.IsToldBy (applications calls) ((entries calls).filter (·.isApplied)) := by
  have haudited : ∀ e ∈ runEvents (services true) dryRun w past store steps, e.Audited w dryRun := fun e =>
    audited_of_mem_runEvents hlog
  refine ⟨haudited, (runSteps_spells true dryRun steps past store).mono fun _ calls _ h => ⟨h, ?_⟩⟩
  rw [h.applications, h.entries, List.filter_flatMap]
  have hsame : List.Forall₂ (fun e e' => e = e' ∧ e.Audited w dryRun)
      (runEvents (services true) dryRun w past store steps) (runEvents (services true) dryRun w past store steps) :=
    List.forall₂_same.2 fun e he => ⟨rfl, haudited e he⟩
  refine List.rel_flatMap hsame fun e e' he => ?_
  obtain ⟨rfl, he⟩ := he
  exact he.tells

end

theorem obligingWorld_journals : obligingWorld.Journals := fun _ _ => rfl

/-- A market that is to be resolved, and one that is not yet. -/
def timedRows : Store :=
  ⟨some ((Table.empty.add (timedRow "1970-01-01T00:00:00Z")).2.add (timedRow "2100-01-01T00:00:00Z")).2, some Table.empty⟩

set_option maxRecDepth 4000 in
/-- One cycle checks both markets, resolves one of them, and one entry tells of that. The other one leaves nothing. -/
theorem timedRows_audited :
    obligingWorld.Journals ∧
      (runSteps (services true) false [.cycle true]).Leads obligingWorld [] timedRows fun _ calls _ =>
        calls.countP Call.fetches = 2 ∧ ∃ call entry, entries calls = [entry] ∧ applications calls = [call] ∧
          call.IsToldBy entry := by
  have htrail := (journal_audits obligingWorld_journals false [.cycle true] [] timedRows).2.2
  have hcounts :
      let calls := ((runSteps (services true) false [.cycle true]).upshot obligingWorld [] timedRows).calls
      calls.countP Call.fetches = 2 ∧ (entries calls).length = 1 ∧ (applications calls).length = 1 ∧
        (entries calls).all (·.isApplied) = true := by
    decide +kernel
  refine ⟨obligingWorld_journals, ?_⟩
  obtain ⟨hfetches, hone, hcall, happlied⟩ := hcounts
  obtain ⟨call, hcall⟩ := List.length_eq_one_iff.1 hcall
  obtain ⟨entry, hentry⟩ := List.length_eq_one_iff.1 hone
  rw [List.filter_eq_self.2 (List.all_eq_true.1 happlied), hcall, hentry] at htrail
  exact ⟨hfetches, call, entry, hentry, hcall, (List.forall₂_cons.1 htrail).1⟩

end Arbiter
