import Arbiter.Proofs.Cycle.Audit

/-!
# What a visit leaves in the journal

The visit of a stored market leaves one entry in the journal, or none. A check that fails leaves an event, a decision on
the proposal leaves an entry of its own, and nothing is left by a market that is not due, that is found resolved or of which
no trigger holds.

* `VisitEnd`: how a visit ends, and why. `processMarket_ends`: every visit ends in one of these ways.
* `VisitAudit`: what a visit leaves, by what is found on the way. `VisitEnd.audit`: every visit leaves that.
-/

namespace Arbiter

/-! ## Visits -/

/-- How a visit ends, and why. The market is not due and left alone. It is found resolved, or none of its triggers fires.
It comes to a decision, because one of them fires. Its check fails or crashes. -/
inductive VisitEnd (w : World) (dryRun refresh : Bool) (now : Instant) (market : Market) (past calls : List Call) : Prop
  | notDue (hr : refresh = false) (hd : market.isDue now = some false) (hcalls : calls = [])
  | crashed {crash : Crash} (hc : checkOutcome w true dryRun refresh now past market = .error crash) (hq : Quiet calls)
      (hs : Silent calls)
  | failed {failure : Failure} {after : Market} {time : Instant}
      (hc : checkOutcome w true dryRun refresh now past market = .ok (.error failure, after))
      (hentries : entries calls = [.event time after.snapshot.id ("check failed: " ++ failure.message)])
      (happlied : applications calls = []) (ht : Thwarted calls)
  | resolved {fresh : Snapshot} (hw : market.Wanted refresh now)
      (hf : w.answer past (.snapshot market.snapshot.id) = .ok fresh) (hresolved : fresh.isResolved = true)
      (hq : Quiet calls) (hs : Silent calls)
  | untriggered {fresh : Snapshot} {asked : List Call} {memory : Memory} (hw : market.Wanted refresh now)
      (hf : w.answer past (.snapshot market.snapshot.id) = .ok fresh) (hopen : fresh.isResolved = false)
      (hnone : NoneFires w (worldPass fresh now) (past ++ [⟨.snapshot market.snapshot.id, .ok fresh⟩]) Memory.empty
        market.triggers asked memory)
      (hq : Quiet calls) (hs : Silent calls)
  | decided {fresh : Snapshot} {state : CheckState} {more : List Call} (hw : market.Wanted refresh now)
      (hf : w.answer past (.snapshot market.snapshot.id) = .ok fresh)
      (hc : checkOutcome w true dryRun refresh now past market = .ok (.ok state, (market.refresh fresh).markChecked now))
      (hd : Decided w dryRun (market.refresh fresh) now (past ++ [⟨.snapshot market.snapshot.id, .ok fresh⟩]) state more)
      (hcalls : calls = ⟨.snapshot market.snapshot.id, .ok fresh⟩ :: more)

/-- What a visit leaves in the journal and on the platform, by what is found on the way. -/
structure VisitAudit (w : World) (dryRun refresh : Bool) (now : Instant) (market : Market) (past calls : List Call) :
    Prop where
  ends : VisitEnd w dryRun refresh now market past calls
  /-- A market that is not due leaves nothing. -/
  notDue : refresh = false → market.isDue now = some false → calls = []
  /-- Nor does one that is found resolved. -/
  resolved : ∀ fresh, market.Wanted refresh now → w.answer past (.snapshot market.snapshot.id) = .ok fresh →
    fresh.isResolved = true → entries calls = [] ∧ applications calls = []
  /-- Nor does one of which no trigger fires. -/
  untriggered : ∀ fresh asked memory, market.Wanted refresh now →
    w.answer past (.snapshot market.snapshot.id) = .ok fresh →
    NoneFires w (worldPass fresh now) (past ++ [⟨.snapshot market.snapshot.id, .ok fresh⟩]) Memory.empty market.triggers
      asked memory → entries calls = [] ∧ applications calls = []
  /-- A check that fails leaves one event and no decision. -/
  failed : ∀ failure after, checkOutcome w true dryRun refresh now past market = .ok (.error failure, after) →
    ∃ time, entries calls = [.event time after.snapshot.id ("check failed: " ++ failure.message)] ∧ applications calls = []
  /-- A check fails if the market cannot be settled. -/
  unapplied : ∀ c ∈ calls, c.failsToSettle = true →
    ∃ failure after, checkOutcome w true dryRun refresh now past market = .ok (.error failure, after)
  /-- A decision that does not fail on the platform leaves one entry. The market is settled as the entry says, unless this
  is a rehearsal. -/
  decided : ∀ seen proposal answer, ⟨.confirm seen proposal, .ok answer⟩ ∈ calls →
    (∀ c ∈ calls, c.failsToSettle = false) →
    entries calls = [.decision now proposal (effectiveDecision answer proposal.value)
      (!dryRun && effectiveDecision answer proposal.value != .skip)] ∧
    applications calls = if dryRun then [] else
      applicationCalls seen proposal.value (effectiveDecision answer proposal.value)

section

variable {w : World} {dryRun refresh : Bool} {now : Instant} {market : Market} {past calls : List Call}

theorem Silent.leaves_nothing (h : Silent calls) : entries calls = [] ∧ applications calls = [] :=
  ⟨h.no_entries, h.no_applications⟩

theorem Silent.of_eq_nil (h : calls = []) : Silent calls := by
  rw [h]
  exact Silent.nil

namespace VisitEnd

/-- A check that ends well leaves no trace, unless it came to a decision. -/
theorem silent_or_decided (h : VisitEnd w dryRun refresh now market past calls) {state : CheckState} {after : Market}
    (hc : checkOutcome w true dryRun refresh now past market = .ok (.ok state, after)) :
    Silent calls ∨ ∃ fresh more, w.answer past (.snapshot market.snapshot.id) = .ok fresh ∧
      Decided w dryRun (market.refresh fresh) now (past ++ [⟨.snapshot market.snapshot.id, .ok fresh⟩]) state more := by
  cases h with
  | notDue _ _ hcalls => exact .inl (Silent.of_eq_nil hcalls)
  | crashed _ _ hs => exact .inl hs
  | failed hfailed =>
    rw [hfailed] at hc
    cases hc
  | resolved _ _ _ _ hs => exact .inl hs
  | untriggered _ _ _ _ _ hs => exact .inl hs
  | @decided fresh state' more _ hf hdecided hd =>
    rw [hdecided] at hc
    cases hc
    exact .inr ⟨fresh, more, hf, hd⟩

/-- Nothing is left where the fresh market is resolved. -/
theorem silent_of_resolved (h : VisitEnd w dryRun refresh now market past calls) {fresh : Snapshot}
    (hw : market.Wanted refresh now) (hf : w.answer past (.snapshot market.snapshot.id) = .ok fresh)
    (hr : fresh.isResolved = true) : Silent calls := by
  refine (h.silent_or_decided (checkOutcome_resolved true dryRun hw hf hr)).resolve_right ?_
  rintro ⟨other, more, hother, hd⟩
  have hsame : other = fresh := Except.ok.inj (hother.symm.trans hf)
  have hopen : other.isResolved = false := hd.isOpen
  rw [hsame, hr] at hopen
  cases hopen

/-- Nothing is left where no trigger fires. -/
theorem silent_of_noneFires (h : VisitEnd w dryRun refresh now market past calls) {fresh : Snapshot} {asked : List Call}
    {memory : Memory} (hw : market.Wanted refresh now) (hf : w.answer past (.snapshot market.snapshot.id) = .ok fresh)
    (hnone : NoneFires w (worldPass fresh now) (past ++ [⟨.snapshot market.snapshot.id, .ok fresh⟩]) Memory.empty
      market.triggers asked memory) : Silent calls := by
  by_cases hr : fresh.isResolved = true
  · exact h.silent_of_resolved hw hf hr
  · have hopen := eq_false_of_ne_true hr
    refine (h.silent_or_decided (checkOutcome_untriggered true dryRun hw hf hopen hnone)).resolve_right ?_
    rintro ⟨_, _, _, hd⟩
    exact hd.ne_idle rfl

/-- A failure is left as one event. -/
theorem entries_of_failed (h : VisitEnd w dryRun refresh now market past calls) {failure : Failure} {after : Market}
    (hc : checkOutcome w true dryRun refresh now past market = .ok (.error failure, after)) :
    ∃ time, entries calls = [.event time after.snapshot.id ("check failed: " ++ failure.message)] ∧
      applications calls = [] := by
  have hother : ∀ {state other}, checkOutcome w true dryRun refresh now past market ≠ .ok (.ok state, other) := by
    intro state other ho
    rw [hc] at ho
    cases ho
  cases h with
  | notDue hr hd =>
    subst hr
    exact absurd (checkOutcome_notDue true dryRun hd) hother
  | crashed hcrash =>
    rw [hc] at hcrash
    cases hcrash
  | @failed _ _ time hfailed hentries happlied =>
    rw [hc] at hfailed
    cases hfailed
    exact ⟨time, hentries, happlied⟩
  | resolved hw hf hr => exact absurd (checkOutcome_resolved true dryRun hw hf hr) hother
  | untriggered hw hf hopen hnone => exact absurd (checkOutcome_untriggered true dryRun hw hf hopen hnone) hother
  | decided _ _ hdecided => exact absurd hdecided hother

/-- Where a person has answered, the check came to a decision, or it failed on the platform. -/
theorem decided_of_answered (h : VisitEnd w dryRun refresh now market past calls) {seen : Snapshot} {proposal : Proposal}
    {answer : Decision} (hc : ⟨.confirm seen proposal, .ok answer⟩ ∈ calls) : (∃ c ∈ calls, c.failsToSettle = true) ∨
      ∃ fresh state more, calls = ⟨.snapshot market.snapshot.id, .ok fresh⟩ :: more ∧
        Decided w dryRun (market.refresh fresh) now (past ++ [⟨.snapshot market.snapshot.id, .ok fresh⟩]) state more := by
  cases h with
  | notDue _ _ hcalls =>
    rw [hcalls] at hc
    cases hc
  | crashed _ hq => exact absurd hc hq.not_asked
  | failed _ _ _ ht => exact .inl (ht seen proposal answer hc)
  | resolved _ _ _ hq => exact absurd hc hq.not_asked
  | untriggered _ _ _ _ hq => exact absurd hc hq.not_asked
  | decided _ _ _ hd hcalls => exact .inr ⟨_, _, _, hcalls, hd⟩

/-- Only a check that fails tries to settle its market in vain. -/
theorem failed_of_failsToSettle (h : VisitEnd w dryRun refresh now market past calls) {c : Call} (hc : c ∈ calls)
    (hfails : c.failsToSettle = true) :
    ∃ failure after, checkOutcome w true dryRun refresh now past market = .ok (.error failure, after) := by
  have hnot : ¬∀ c ∈ calls, c.failsToSettle = false := fun hall => by
    rw [hall c hc] at hfails
    cases hfails
  cases h with
  | notDue _ _ hcalls =>
    rw [hcalls] at hc
    cases hc
  | crashed _ hq => exact absurd hq.not_failsToSettle hnot
  | failed hfailed => exact ⟨_, _, hfailed⟩
  | resolved _ _ _ hq => exact absurd hq.not_failsToSettle hnot
  | untriggered _ _ _ _ hq => exact absurd hq.not_failsToSettle hnot
  | decided _ _ _ hd hcalls =>
    refine absurd ?_ hnot
    rw [hcalls]
    exact List.forall_mem_cons.2 ⟨rfl, hd.not_failsToSettle⟩

/-- So every visit leaves what it should. -/
theorem audit (h : VisitEnd w dryRun refresh now market past calls) :
    VisitAudit w dryRun refresh now market past calls where
  ends := h
  notDue hr hd := by
    subst hr
    cases h with
    | notDue _ _ hcalls => exact hcalls
    | crashed hc => cases (checkOutcome_notDue true dryRun hd).symm.trans hc
    | failed hc => cases (checkOutcome_notDue true dryRun hd).symm.trans hc
    | resolved hw => exact absurd hw (Market.not_wanted hd)
    | untriggered hw => exact absurd hw (Market.not_wanted hd)
    | decided hw => exact absurd hw (Market.not_wanted hd)
  resolved fresh hw hf hr := (h.silent_of_resolved hw hf hr).leaves_nothing
  untriggered fresh asked memory hw hf hnone := (h.silent_of_noneFires hw hf hnone).leaves_nothing
  failed failure after hc := h.entries_of_failed hc
  unapplied c hc hfails := h.failed_of_failsToSettle hc hfails
  decided seen proposal answer hc hall := by
    have hnot : ¬∃ c ∈ calls, c.failsToSettle = true := by
      rintro ⟨c, hmem, hfails⟩
      rw [hall c hmem] at hfails
      cases hfails
    obtain ⟨fresh, state, more, rfl, hd⟩ := (h.decided_of_answered hc).resolve_left hnot
    obtain ⟨proposal', answer', -, -, hone, hentries, happlied⟩ := hd.leaves
    have hmore : ⟨.confirm seen proposal, .ok answer⟩ ∈ more := by
      rcases List.mem_cons.1 hc with hc | hc
      · cases hc
      · exact hc
    obtain ⟨rfl, rfl, rfl⟩ := hone seen proposal answer hmore
    exact ⟨hentries, happlied⟩

end VisitEnd

/-! ## The visit of a market -/

variable {store : Store}

/-- A failure leaves one event. -/
theorem reportFailure_audit (hlog : w.Journals) (market : Market) (failure : Failure) :
    (reportFailure (services true) market failure).Leads w past store fun _ calls _ =>
      Quiet calls ∧ ∃ time, entries calls = [.event time market.snapshot.id ("check failed: " ++ failure.message)] ∧
        applications calls = [] := by
  refine ((reportFailure_leads true market failure).mono fun _ _ _ h => h.1).and ?_
  unfold reportFailure
  rw [Course.leads_notify]
  refine Course.leads_bind.2 (Course.leads_ask.2 ?_)
  generalize w.answer past .clock = time
  refine Course.leads_bind.2 (Course.leads_ask.2 ?_)
  rw [hlog]
  exact ⟨time, rfl, rfl⟩

/-- A check that fails makes no entry itself, and does nothing about an answer. -/
theorem CheckAudit.of_failed {failure : Failure} {after : Market}
    (h : CheckAudit w dryRun market now past (.ok (.error failure, after)) calls) : Silent calls ∧ Thwarted calls := by
  cases h with
  | unread => exact ⟨Silent.single rfl, Quiet.thwarted (quiet_nil.cons ⟨rfl, rfl⟩)⟩
  | @fetched fresh _ more _ h =>
    have hquiet : Quiet [⟨.snapshot market.snapshot.id, .ok fresh⟩] := quiet_nil.cons ⟨rfl, rfl⟩
    cases h with
    | failed hs ht => exact ⟨(Silent.single rfl).append hs, ht.preceded hquiet⟩

/-- A check that ends well is all of the visit, but for the row that is written without a trace. -/
theorem CheckAudit.ends {state : CheckState} {after : Market} {more : List Call}
    (h : CheckAudit w dryRun market now past (.ok (.ok state, after)) calls) (hw : market.Wanted refresh now)
    (hc : checkOutcome w true dryRun refresh now past market = .ok (.ok state, after)) (hquiet : Quiet more)
    (hsilent : Silent more) : VisitEnd w dryRun refresh now market past (calls ++ more) := by
  cases h with
  | @fetched fresh _ made hf h =>
    have hq : Quiet [⟨.snapshot market.snapshot.id, .ok fresh⟩] := quiet_nil.cons ⟨rfl, rfl⟩
    have hs : Silent [⟨.snapshot market.snapshot.id, .ok fresh⟩] := Silent.single rfl
    cases h with
    | resolved hresolved => exact .resolved hw hf hresolved (hq.append hquiet) (hs.append hsilent)
    | untriggered hopen hr hnone =>
      exact .untriggered hw hf hopen hnone (hq.append (hr.quiet.append hquiet)) (hs.append (hr.silent.append hsilent))
    | decided hd => exact .decided hw hf hc (hd.followed hquiet hsilent) rfl

/-- Every visit ends in one of the ways. -/
theorem processMarket_ends (hlog : w.Journals) (dryRun refresh : Bool) (now : Instant) (summary : CycleSummary)
    (row : Int) (market : Market) :
    (processMarket (services true) dryRun refresh now summary row market).Leads w past store fun _ calls _ =>
      VisitEnd w dryRun refresh now market past calls := by
  unfold processMarket
  rcases isWanted_cases market refresh now with ⟨hw, hwanted⟩ | ⟨hw, hr, hd⟩ | hw
  · rw [hw, pure_bind, if_pos rfl]
    have houtcome := @checkMarket_comesTo w past store true dryRun refresh now market
    refine (houtcome.and (checkMarket_audit hlog dryRun refresh market now hw)).bind (fun checked calls store' h => ?_)
      fun crash calls _ h => ?_
    · obtain ⟨⟨hc, -⟩, haudit⟩ := h
      match checked with
      | (.error failure, after) =>
        dsimp only
        rw [CycleM.leads_call_bind]
        refine (reportFailure_audit hlog after failure).mono fun () more _ hevent => CycleM.leads_pure.2 ?_
        obtain ⟨hmore, time, hentries, happlied⟩ := hevent
        obtain ⟨hsilent, hthwarted⟩ := haudit.of_failed
        have hevents : entries (calls ++ more) = entries more := by
          rw [entries_append, hsilent.no_entries, List.nil_append]
        have hnone : applications (calls ++ more) = applications more := by
          rw [applications_append, hsilent.no_applications, List.nil_append]
        rw [List.append_nil]
        exact .failed hc.symm (hevents.trans hentries) (hnone.trans happlied) (hthwarted.followed hmore)
      | (.ok state, after) =>
        dsimp only
        rw [CycleM.leads_call_bind]
        have hstored := storeChecked_hushed true dryRun row after state w (past ++ calls) store'
        refine ((storeChecked_leads true dryRun row after state).and hstored).mono fun stored more _ h => ?_
        obtain ⟨hquiet, hsilent⟩ := h
        have hends : VisitEnd w dryRun refresh now market past (calls ++ (more ++ [])) := by
          rw [List.append_nil]
          exact haudit.ends hwanted hc.symm hquiet hsilent
        cases stored with
        | true => exact hends
        | false => exact hends
    · obtain ⟨⟨hc, -⟩, haudit⟩ := h
      cases haudit with
      | @fetched fresh _ more _ h =>
        cases h with
        | crashed hr =>
          have hquiet : Quiet [⟨.snapshot market.snapshot.id, .ok fresh⟩] := quiet_nil.cons ⟨rfl, rfl⟩
          exact .crashed hc.symm (hquiet.append hr.quiet) ((Silent.single rfl).append hr.silent)
  · rw [hw, pure_bind, if_neg Bool.false_ne_true]
    exact CycleM.leads_pure.2 (.notDue hr hd rfl)
  · rw [hw, CycleM.throw_bind]
    have hc : checkOutcome w true dryRun refresh now past market = .error .outOfRange := by
      unfold checkOutcome checkMarket
      rw [hw, CycleM.throw_bind]
      rfl
    exact CycleM.leads_throw.2 (.crashed hc quiet_nil Silent.nil)

end

end Arbiter
