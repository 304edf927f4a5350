import Arbiter.Proofs.Cycle.Told
import Arbiter.Proofs.Cycle.Independent
import Arbiter.Proofs.Market.RoundTrip

/-!
# Checks are paced

Between two checks of a row by cycles that only check what is due, nothing touches the row, so the second check waits for
the time that the first one left there. And a cycle checks all that is due, unless the rules of a due market crash.

* `Event.checkedRow?`: the row that an event checks.
* `Passes.keeps_reading`: a row that is not checked is read as before.
* `marketEvents_checks`: which rows a loop over due and other markets checks.
* `checks_paced`: when rows are checked, in every run.
-/

namespace Arbiter

variable {w : World} {journal dryRun : Bool} {past : List Call} {store store' : Store} {events : List Event}
  {row : Int} {market : Market}

/-! ## Checks -/

/-- The row whose market the event checks, which begins with a fetch. -/
def Event.checkedRow? (e : Event) : Option Int :=
  match e.subject with
  | .market row _ _ => if e.calls.any Call.fetches then some row else none
  | _ => none

theorem checkedRow?_of_fetches {refresh : Bool} {now : Instant} {calls : List Call} (h : calls.any Call.fetches = true) :
    (Event.mk (.market row refresh now) past calls store store').checkedRow? = some row := if_pos h

/-- The rows that events check, in their order. -/
def checkedRows (events : List Event) : List Int := events.filterMap Event.checkedRow?

theorem checkedRows_cons {e : Event} (h : e.checkedRow? = some row) : checkedRows (e :: events) = row :: checkedRows events :=
  List.filterMap_cons_some h

/-- An event of a cycle that checks only what is due. -/
def Event.Unforced (e : Event) : Prop :=
  match e.subject with
  | .edit => False
  | .request _ => True
  | .market _ refresh _ => refresh = false

/-- A row is read as one market. -/
theorem Store.readable_unique {m : Market} (h : (row, market) ∈ store.readable) (h' : (row, m) ∈ store.readable) :
    market = m := by
  obtain ⟨kept, hrow, hd⟩ := mem_readable.1 h
  obtain ⟨kept', hrow', hd'⟩ := mem_readable.1 h'
  rw [hrow] at hrow'
  cases hrow'
  rw [hd] at hd'
  cases hd'
  rfl

/-- A visit that does nothing to its row leaves the store as it is. -/
theorem VisitsRow.eq_of_keep {refresh : Bool} {now : Instant} {calls : List Call}
    (h : VisitsRow w journal dryRun row refresh now market past calls store store')
    (hk : ∀ effect count, visit w journal dryRun refresh now past market = .ok (effect, count) → effect = .keep) :
    store' = store := by
  have he := h.effect
  cases hv : visit w journal dryRun refresh now past market with
  | error _ => rw [hv] at he; exact he
  | ok done =>
    obtain ⟨effect, count⟩ := done
    obtain rfl := hk effect count hv
    rw [hv] at he
    exact he

/-- Nothing is done to the row of a market that is not due. -/
theorem keep_of_notDue {now : Instant} (hd : market.isDue now ≠ some true) {effect : RowEffect} {count : CycleSummary}
    (hv : visit w journal dryRun false now past market = .ok (effect, count)) : effect = .keep := by
  unfold visit at hv
  rw [if_neg Bool.false_ne_true] at hv
  match hdue : market.isDue now with
  | none => rw [hdue] at hv; cases hv
  | some false => rw [hdue] at hv; cases hv; rfl
  | some true => exact absurd hdue hd

/-- Nothing is done to the row of a market whose check comes to no state. -/
theorem keep_of_failed {now : Instant}
    (hf : ∀ state market', checkOutcome w journal dryRun false now past market ≠ .ok (.ok state, market'))
    {effect : RowEffect} {count : CycleSummary}
    (hv : visit w journal dryRun false now past market = .ok (effect, count)) : effect = .keep := by
  by_cases hd : market.isDue now = some true
  · unfold visit at hv
    rw [if_neg Bool.false_ne_true, hd] at hv
    match hc : checkOutcome w journal dryRun false now past market with
    | .error _ => rw [hc] at hv; cases hv
    | .ok (.error _, _) => rw [hc] at hv; cases hv; rfl
    | .ok (.ok state, market') => exact absurd hc (hf state market')
  · exact keep_of_notDue hd hv

/-- The visit of a due market crashes only in its check. -/
theorem checkOutcome_of_visit {now : Instant} (hd : market.isDue now = some true) {crash : Crash}
    (hv : visit w journal dryRun false now past market = .error crash) :
    checkOutcome w journal dryRun false now past market = .error .outOfRange := by
  unfold visit at hv
  rw [if_neg Bool.false_ne_true, hd] at hv
  match hc : checkOutcome w journal dryRun false now past market with
  | .error .outOfRange => rfl
  | .ok (.error _, _) => rw [hc] at hv; cases hv
  | .ok (.ok _, _) => rw [hc] at hv; cases hv

/-- An event that does not check a row leaves what is read from it. -/
theorem Event.Lawful.keeps_reading {e : Event} (h : e.Lawful w journal dryRun) (hu : e.Unforced)
    (hno : e.checkedRow? ≠ some row) (hr : (row, market) ∈ e.before.readable) : (row, market) ∈ e.after.readable := by
  unfold Event.Lawful Event.Unforced at *
  unfold Event.checkedRow? at hno
  cases hs : e.subject with
  | edit => rw [hs] at hu; exact hu.elim
  | request served =>
    rw [hs] at h
    obtain ⟨kept, hrow, hd⟩ := Store.mem_readable.1 hr
    exact Store.mem_readable.2 ⟨kept, h.2.row?_kept hrow, hd⟩
  | market visited refresh now =>
    rw [hs] at h hu hno
    obtain ⟨m, h⟩ := h
    obtain rfl : refresh = false := hu
    by_cases hv : row = visited
    · subst hv
      -- the market was not fetched, so it was not wanted
      have hnot : m.isDue now ≠ some true := fun hdue => hno (by
        have := h.fetches
        rw [if_neg Bool.false_ne_true, hdue] at this
        dsimp only
        rw [this]
        rfl)
      have hafter : e.after = e.before := h.eq_of_keep fun _ _ => keep_of_notDue hnot
      rw [hafter]
      exact hr
    · exact (h.readable_other hv).2 hr

theorem Passes.keeps_reading (h : Passes store events store') (hl : ∀ e ∈ events, e.Lawful w journal dryRun)
    (hu : ∀ e ∈ events, e.Unforced) (hno : ∀ e ∈ events, e.checkedRow? ≠ some row)
    (hr : (row, market) ∈ store.readable) : (row, market) ∈ store'.readable := by
  induction h with
  | nil => exact hr
  | @cons e rest store' _ ih =>
    obtain ⟨hl, hlrest⟩ := List.forall_mem_cons.1 hl
    obtain ⟨hu, hurest⟩ := List.forall_mem_cons.1 hu
    obtain ⟨hno, hnorest⟩ := List.forall_mem_cons.1 hno
    exact ih hlrest hurest hnorest (hl.keeps_reading hu hno hr)

/-- The store passes through the parts of a list of events one after the other. -/
theorem Passes.split {events more : List Event} : ∀ {store : Store}, Passes store (events ++ more) store' →
    ∃ middle, Passes store events middle ∧ Passes middle more store' := by
  induction events with
  | nil => exact fun h => ⟨_, .nil, h⟩
  | cons e rest ih =>
    intro store h
    cases h with
    | cons next =>
      obtain ⟨middle, hfirst, hrest⟩ := ih next
      exact ⟨middle, .cons hfirst, hrest⟩

/-- A market that is checked is due. -/
theorem Event.Lawful.due_of_checked {e : Event} {now : Instant} (h : e.Lawful w journal dryRun)
    (hs : e.subject = .market row false now) (hc : e.checkedRow? = some row) (hr : (row, market) ∈ e.before.readable) :
    market.isDue now = some true := by
  unfold Event.Lawful at h
  unfold Event.checkedRow? at hc
  rw [hs] at h hc
  obtain ⟨m, h⟩ := h
  obtain rfl := Store.readable_unique hr h.read
  have hf := h.fetches
  cases hany : e.calls.any Call.fetches with
  | false => dsimp only at hc; rw [hany] at hc; cases hc
  | true =>
    rw [hany, if_neg Bool.false_ne_true] at hf
    exact beq_iff_eq.1 hf.symm

/-- A due market was last checked long enough ago. -/
theorem Market.next_le_of_isDue {now last : Instant} (hl : market.lastChecked = some last)
    (h : market.isDue now = some true) : ∃ next, last.addMillis? (checkMillis market.checkRate) = some next ∧ next ≤ now := by
  unfold isDue at h
  rw [hl] at h
  obtain ⟨next, hnext, hle⟩ := Option.map_eq_some_iff.1 h
  exact ⟨next, hnext, of_decide_eq_true hle⟩

/-! ## The events of cycles that check only what is due -/

section

variable (s : Services Course)

theorem mem_requestEvents {e : Event} : ∀ {requests : List PendingRequest} {past : List Call} {store : Store},
    e ∈ requestEvents s dryRun w past store requests → ∃ row, e.subject = .request row
  | pending :: rest, past, store, h => by
    rcases List.mem_cons.1 h with rfl | h
    · exact ⟨pending.row, rfl⟩
    · exact mem_requestEvents h

theorem mem_queueEvents {e : Event} (h : e ∈ queueEvents s dryRun w past store) : ∃ row, e.subject = .request row := by
  unfold queueEvents at h
  dsimp only at h
  split at h
  · cases h
  · exact mem_requestEvents s h

theorem mem_marketEvents {refresh : Bool} {now : Instant} {e : Event} :
    ∀ {rows : List (Int × Market)} {past : List Call} {store : Store} {summary : CycleSummary},
      e ∈ marketEvents s dryRun w refresh now past store summary rows → ∃ row, e.subject = .market row refresh now
  | (row, market) :: rest, past, store, summary, h => by
    rw [marketEvents] at h
    rcases List.mem_cons.1 h with rfl | h
    · exact ⟨row, rfl⟩
    · split at h
      · cases h
      · exact mem_marketEvents h

theorem mem_checkEvents {refresh : Bool} {e : Event} (h : e ∈ checkEvents s dryRun w refresh past store) :
    ∃ row now, e.subject = .market row refresh now := by
  unfold checkEvents at h
  dsimp only at h
  split at h
  · cases h
  · obtain ⟨row, hs⟩ := mem_marketEvents s h
    exact ⟨row, _, hs⟩

/-- Cycles that check only what is due have no other events. -/
theorem unforced_of_mem_runEvents {e : Event} : ∀ {n : Nat} {past : List Call} {store : Store},
    e ∈ runEvents s dryRun w past store (List.replicate n (.cycle false)) → e.Unforced
  | 0, _, _, h => by cases h
  | n + 1, past, store, h => by
    rw [List.replicate_succ, runEvents] at h
    unfold Event.Unforced
    rcases List.mem_append.1 h with h | h
    · rcases List.mem_append.1 h with h | h
      · obtain ⟨row, hs⟩ := mem_queueEvents s h
        rw [hs]
        trivial
      · obtain ⟨row, now, hs⟩ := mem_checkEvents s h
        rw [hs]
    · exact unforced_of_mem_runEvents h

/-- Turns of requests check nothing. -/
theorem checkedRows_queueEvents : checkedRows (queueEvents s dryRun w past store) = [] :=
  List.filterMap_eq_nil_iff.2 fun e he => by
    obtain ⟨row, hs⟩ := mem_queueEvents s he
    unfold Event.checkedRow?
    rw [hs]

end

/-! ## The rows that are checked -/

/-- The rows that a loop over due markets checks: all of them if it comes to its end, and otherwise those up to one whose
check crashes. -/
inductive ChecksDue {α : Type} (w : World) (journal dryRun : Bool) (now : Instant) (events : List Event)
    (due : List (Int × Market)) : Except Crash α → Prop
  | all {a : α} (hrows : checkedRows events = due.map (·.1)) : ChecksDue w journal dryRun now events due (.ok a)
  | upTo {done rest : List (Int × Market)} {row : Int} {market : Market} {e : Event}
      (hdue : due = done ++ (row, market) :: rest) (hrows : checkedRows events = done.map (·.1) ++ [row])
      (he : e ∈ events) (hs : e.subject = .market row false now)
      (hc : checkOutcome w journal dryRun false now e.past market = .error .outOfRange) :
      ChecksDue w journal dryRun now events due (.error .outOfRange)

/-- The markets that are due. -/
def dueMarkets (now : Instant) (rows : List (Int × Market)) : List (Int × Market) :=
  rows.filter fun e => e.2.isDue now == some true

namespace ChecksDue

variable {α β : Type} {now : Instant} {due : List (Int × Market)} {result : Except Crash α} {e : Event}

theorem map (h : ChecksDue w journal dryRun now events due result) (f : α → β) :
    ChecksDue w journal dryRun now events due (result.map f) := by
  cases h with
  | all hrows => exact .all hrows
  | upTo hdue hrows he hs hc => exact .upTo hdue hrows he hs hc

/-- Events before them that check nothing. -/
theorem after_unchecked {earlier : List Event} (h : ChecksDue w journal dryRun now events due result)
    (hno : checkedRows earlier = []) : ChecksDue w journal dryRun now (earlier ++ events) due result := by
  have hrows : checkedRows (earlier ++ events) = checkedRows events := by
    rw [checkedRows, List.filterMap_append]
    exact congrArg (· ++ checkedRows events) hno
  cases h with
  | all h => exact .all (hrows.trans h)
  | upTo hdue h he hs hc => exact .upTo hdue (hrows.trans h) (List.mem_append_right _ he) hs hc

/-- A check before them. -/
theorem cons_checked (h : ChecksDue w journal dryRun now events due result) (hrow : e.checkedRow? = some row) :
    ChecksDue w journal dryRun now (e :: events) ((row, market) :: due) result := by
  have hrows : checkedRows (e :: events) = row :: checkedRows events := checkedRows_cons hrow
  cases h with
  | all h => exact .all (hrows.trans (congrArg (row :: ·) h))
  | @upTo done rest last m _ hdue h he hs hc =>
    have hdue' : (row, market) :: due = ((row, market) :: done) ++ (last, m) :: rest := congrArg _ hdue
    exact .upTo hdue' (hrows.trans (congrArg (row :: ·) h)) (List.mem_cons_of_mem _ he) hs hc

end ChecksDue

/-- The loop checks the markets that are due. -/
theorem marketEvents_checks (hopen : ∀ past, w.answer past .access = none) (journal dryRun : Bool) (now : Instant) :
    ∀ (rows : List (Int × Market)) (past : List Call) (store : Store) (summary : CycleSummary),
      (rows.map (·.1)).Nodup → (∀ e ∈ rows, e ∈ store.readable) → (∀ e ∈ rows, (e.2.isDue now).isSome = true) →
      (processMarkets (services journal) dryRun false now summary rows).Leads w past store fun result _ _ =>
        ChecksDue w journal dryRun now (marketEvents (services journal) dryRun w false now past store summary rows)
          (dueMarkets now rows) result
  | [], _, _, _, _, _, _ => .all rfl
  | (row, market) :: rest, past, store, summary, hn, hr, hd => by
    obtain ⟨hnot, hn⟩ := List.nodup_cons.1 hn
    obtain ⟨hfirst, hrest⟩ := List.forall_mem_cons.1 hr
    obtain ⟨hsome, hsomes⟩ := List.forall_mem_cons.1 hd
    obtain ⟨kept, hrow, -⟩ := Store.mem_readable.1 hfirst
    obtain ⟨table, hm, -⟩ := Option.bind_eq_some_iff.1 hrow
    unfold processMarkets
    refine CycleM.leads_bind.2 (Course.leads_of_upshot fun result calls store' hu => ?_)
    have hvisit : VisitsRow w journal dryRun row false now market past calls store store' :=
      Course.Leads.upshot (processMarket_visit hopen journal dryRun false now summary hfirst) hu
    have hresult := Course.Leads.upshot (processMarket_visits hopen hm journal dryRun false now past summary row market) hu
    have hkept : ∀ e ∈ rest, e ∈ store'.readable := fun e he => by
      have hne : e.1 ≠ row := fun heq => hnot (List.mem_map.2 ⟨e, he, heq⟩)
      exact (hvisit.readable_other hne).2 (hrest e he)
    have hchecked : (Event.mk (.market row false now) past calls store store').checkedRow? =
        if calls.any Call.fetches then some row else none := rfl
    rw [hvisit.fetches, if_neg Bool.false_ne_true] at hchecked
    rw [marketEvents_cons journal dryRun false now hu]
    cases hdue : market.isDue now with
    | none => rw [hdue] at hsome; cases hsome
    | some due =>
      cases due with
      | false =>
        have hskip : dueMarkets now ((row, market) :: rest) = dueMarkets now rest :=
          List.filter_cons_of_neg (by rw [hdue]; exact Bool.false_ne_true)
        have hv : visit w journal dryRun false now past market = .ok (.keep, {}) := by
          unfold visit
          rw [if_neg Bool.false_ne_true, hdue]
        rw [hv] at hresult
        obtain ⟨rfl, -⟩ := hresult
        rw [hdue] at hchecked
        rw [hskip]
        exact (marketEvents_checks hopen journal dryRun now rest (past ++ calls) store' _ hn hkept hsomes).mono
          fun _ _ _ h => h.after_unchecked (List.filterMap_cons_none (l := []) hchecked)
      | true =>
        have htake : dueMarkets now ((row, market) :: rest) = (row, market) :: dueMarkets now rest :=
          List.filter_cons_of_pos (by rw [hdue]; rfl)
        rw [hdue] at hchecked
        rw [htake]
        cases hv : visit w journal dryRun false now past market with
        | error crash =>
          rw [hv] at hresult
          obtain ⟨rfl, -⟩ := hresult
          have hone : (row, market) :: dueMarkets now rest = [] ++ (row, market) :: dueMarkets now rest := rfl
          exact .upTo hone (checkedRows_cons hchecked) List.mem_cons_self rfl (checkOutcome_of_visit hdue hv)
        | ok done =>
          rw [hv] at hresult
          obtain ⟨rfl, -⟩ := hresult
          exact (marketEvents_checks hopen journal dryRun now rest (past ++ calls) store' _ hn hkept hsomes).mono
            fun _ _ _ h => h.cons_checked hchecked

/-- With both tables there the opening of a cycle comes to its end. -/
theorem openCycle_opens (hopen : ∀ past, w.answer past .access = none) (journal dryRun : Bool) {markets : Table MarketRow}
    {pending : Table PendingRow} (hm : store.markets = some markets) (hp : store.pending = some pending) :
    (openCycle (services journal) dryRun).Leads w past store fun result _ store' =>
      ∃ created now, result = .ok (created, now, store'.readable) := by
  have hqueue : (processPending (services journal) dryRun).Leads w past store fun result _ _ =>
      ∃ created, result = .ok created := by
    refine Course.leads_bind.2 ?_
    rw [Course.leads_load, hopen, Store.run_loadPending, hp]
    exact ⟨_, rfl⟩
  refine ((queueEvents_tells hopen journal dryRun).and hqueue).bind fun result calls store' h => ?_
  obtain ⟨htold, created, rfl⟩ := h
  obtain ⟨table, hm'⟩ : ∃ table, store'.markets = some table := by
    have hf := htold.follows.markets
    rw [hm] at hf
    cases hm' : store'.markets with
    | none => rw [hm'] at hf; cases hf
    | some table => exact ⟨table, rfl⟩
  refine Course.leads_bind.2 (Course.leads_ask.2 (Course.leads_bind.2 ?_))
  rw [Course.leads_load, hopen, Store.run_loadMarkets, hm']
  have hrows : store'.readable = (Store.decodedMarkets table).found := by rw [Store.readable, hm']; rfl
  exact ⟨created, _, congrArg (fun rows => Except.ok (created, _, rows)) hrows.symm⟩

/-- A cycle checks the markets that are due when its checks begin. -/
theorem runCycle_checks (hopen : ∀ past, w.answer past .access = none) (journal dryRun : Bool) {created : Nat}
    {now : Instant} {calls : List Call} {stored : Store}
    (hu : (openCycle (services journal) dryRun).upshot w past store = ⟨.ok (created, now, stored.readable), calls, stored⟩)
    (hd : ∀ e ∈ stored.readable, (e.2.isDue now).isSome = true) :
    (runCycle (services journal) dryRun false).Leads w past store fun result _ _ =>
      ChecksDue w journal dryRun now ((RunStep.cycle false).events (services journal) dryRun w past store)
        (dueMarkets now stored.readable) result := by
  have hevents : checkEvents (services journal) dryRun w false past store =
      marketEvents (services journal) dryRun w false now (past ++ calls) stored { created } stored.readable := by
    unfold checkEvents
    rw [hu]
  have hchecks := marketEvents_checks hopen journal dryRun now stored.readable (past ++ calls) stored { created }
    stored.nodup_readable (fun _ h => h) hd
  rw [RunStep.events, hevents, runCycle_opened, CycleM.leads_call_bind]
  refine Course.leads_of_upshot fun opened calls' stored' hu' => ?_
  rw [hu] at hu'
  cases hu'
  refine hchecks.bind (fun summary more _ h => ?_) fun crash more _ h => ?_
  · rw [CycleM.leads_call_bind]
    exact (h.map Except.ok).after_unchecked (checkedRows_queueEvents _)
  · exact (h.map Except.ok).after_unchecked (checkedRows_queueEvents _)

/-! ## An empty queue -/

/-- The calls at the opening of a cycle with nothing on the queue. -/
def openingCalls (now : Instant) : List Call := [⟨.access, none⟩, ⟨.clock, now⟩, ⟨.access, none⟩]

section

variable (hp : store.pending = some Table.empty)

include hp

/-- Nothing waits on it. -/
theorem Store.waiting_of_empty : store.waiting = [] := by
  have hsorted : Store.byPriority (Table.empty : Table PendingRow).toList = [] := List.mergeSort_nil
  rw [Store.waiting, hp, Option.elim_some, Store.decodedPending, hsorted]
  rfl

/-- Reading it comes to nothing. -/
theorem upshot_load_of_empty (hopen : ∀ past, w.answer past .access = none) (past : List Call) :
    ((services false).load .pending Store.loadPending).upshot w past store = ⟨.ok [], [⟨.access, none⟩], store⟩ := by
  have hload : ((services false).load .pending Store.loadPending).Leads w past store fun loaded calls store' =>
      Upshot.mk loaded calls store' = ⟨.ok [], [⟨.access, none⟩], store⟩ := by
    rw [Course.leads_load, hopen, Store.run_loadPending, Store.waiting_of_empty hp, hp]
    rfl
  exact hload

/-- So there are no turns. -/
theorem queueEvents_of_empty (hopen : ∀ past, w.answer past .access = none) (past : List Call) :
    queueEvents (services false) false w past store = [] := by
  unfold queueEvents
  rw [upshot_load_of_empty hp hopen]
  rfl

/-- The opening of a cycle then only reads the markets. -/
theorem upshot_openCycle_of_empty (hopen : ∀ past, w.answer past .access = none) {table : Table MarketRow}
    (hm : store.markets = some table) {past : List Call} {now : Instant}
    (hclock : w.answer (past ++ [⟨.access, none⟩]) .clock = now) :
    (openCycle (services false) false).upshot w past store = ⟨.ok (0, now, store.readable), openingCalls now, store⟩ := by
  have hqueue : (processPending (services false) false).upshot w past store = ⟨.ok 0, [⟨.access, none⟩], store⟩ :=
    Course.upshot_bind_of (upshot_load_of_empty hp hopen past)
  have hopens : (openCycle (services false) false).Leads w past store fun result calls store' =>
      Upshot.mk result calls store' = ⟨.ok (0, now, store.readable), openingCalls now, store⟩ := by
    refine Course.leads_bind.2 (Course.leads_of_upshot fun created calls store' hu => ?_)
    rw [hqueue] at hu
    cases hu
    refine Course.leads_bind.2 (Course.leads_ask.2 (Course.leads_bind.2 ?_))
    rw [Course.leads_load, hopen, Store.run_loadMarkets, Store.readable, hm, ← hclock]
    rfl
  exact hopens

end

/-! ## One row -/

/-- A cycle over one row is told by the visit of its market. -/
theorem cycle_over_row (hp : store.pending = some Table.empty) (hopen : ∀ past, w.answer past .access = none)
    {table : Table MarketRow} (hm : store.markets = some table) {now : Instant}
    (hclock : w.answer (past ++ [⟨.access, none⟩]) .clock = now) (hread : store.readable = [(row, market)])
    {effect : RowEffect} {count : CycleSummary}
    (hv : visit w false false false now (past ++ openingCalls now) market = .ok (effect, count)) :
    ∃ calls, calls.any Call.fetches = (market.isDue now == some true) ∧
      (RunStep.cycle false).events (services false) false w past store =
        [⟨.market row false now, past ++ openingCalls now, calls, store, effect.apply row store⟩] ∧
      ((RunStep.cycle false).work (services false) false).upshot w past store =
        ⟨(), openingCalls now ++ calls, effect.apply row store⟩ := by
  have hfirst : (row, market) ∈ store.readable := hread ▸ List.mem_cons_self
  have hopens := upshot_openCycle_of_empty hp hopen hm hclock
  obtain ⟨result, calls, store', hturn⟩ : ∃ result calls store', (ExceptT.run (processMarket (services false) false false
      now { created := 0 } row market)).upshot w (past ++ openingCalls now) store = ⟨result, calls, store'⟩ := ⟨_, _, _, rfl⟩
  have hvisit := Course.Leads.upshot (processMarket_visit hopen false false false now { created := 0 } hfirst) hturn
  have hresult := Course.Leads.upshot
    (processMarket_visits hopen hm false false false now (past ++ openingCalls now) { created := 0 } row market) hturn
  rw [hv] at hresult
  obtain ⟨rfl, rfl⟩ := hresult
  refine ⟨calls, ?_, ?_, ?_⟩
  · have hfetch := hvisit.fetches
    rwa [if_neg Bool.false_ne_true] at hfetch
  · rw [RunStep.events, queueEvents_of_empty hp hopen, List.nil_append]
    unfold checkEvents
    rw [hopens]
    dsimp only
    rw [hread, marketEvents_cons false false false _ hturn]
    rfl
  · have hstep : ((RunStep.cycle false).work (services false) false).Leads w past store fun result calls' store' =>
        Upshot.mk result calls' store' = ⟨(), openingCalls now ++ calls, effect.apply row store⟩ := by
      refine Course.leads_bind.2 ?_
      rw [runCycle_opened]
      refine CycleM.leads_call_bind.2 (Course.leads_of_upshot fun opened calls' store' hu => ?_)
      rw [hopens] at hu
      cases hu
      dsimp only
      rw [hread]
      refine CycleM.leads_bind.2 (CycleM.leads_bind.2 (Course.leads_of_upshot fun visited calls' store' hu => ?_))
      rw [hturn] at hu
      cases hu
      simp only [processMarkets, services, CycleM.leads_pure, CycleM.leads_bind, CycleM.leads_call, Course.leads_pure,
        List.append_nil]
    exact hstep

/-- A store with one row, and a queue that is empty. -/
def oneRow (kept : MarketRow) : Store where
  markets := some (Table.empty.add kept).2
  pending := some Table.empty

theorem oneRow_readable {kept : MarketRow} (h : kept.Keeps market) : (oneRow kept).readable = [(1, market)] := by
  change (Store.decodeRows _ [(1, kept)]).found = _
  unfold MarketRow.Keeps at h
  simp only [Store.decodeRows, h]

theorem runEvents_two {s : Services Course} {dryRun : Bool} {step step' : RunStep} {e e' : Event} {calls : List Call}
    {store' : Store} (hfirst : step.events s dryRun w past store = [e])
    (hdone : (step.work s dryRun).upshot w past store = ⟨(), calls, store'⟩)
    (hsecond : step'.events s dryRun w (past ++ calls) store' = [e']) :
    runEvents s dryRun w past store [step, step'] = [e, e'] := by
  rw [runEvents, hfirst, hdone, runEvents, hsecond]
  rfl

/-- A market to be checked every hour of which no trigger holds before the year 2100. -/
def patientMarket (last : Option Instant) : Market :=
  { Instant.marketAt ⟨4102444800, 0⟩ with lastChecked := last }

/-- The row that keeps it. -/
def patientRow (last : Option Instant) : MarketRow := Store.rowOfMarket (patientMarket last)

theorem patientRow_keeps {last : Option Instant} (hlast : ∀ t ∈ last.toList, Instant.readRelaxed? t.fieldText = some t)
    (hlegible : (patientMarket last).toJson.legible Json.maxDepth = true) :
    (patientRow last).Keeps (patientMarket last) :=
  have hwritten : Instant.readWritten? (Instant.text ⟨4102444800, 0⟩) = some ⟨4102444800, 0⟩ := by decide +kernel
  Market.readsBack (marketAt_decoded hwritten (by decide +kernel) (by decide +kernel) hlast) hlegible

/-- Before any check the row is read as the market, and after a check at noon too. -/
theorem patientRows_readable :
    (oneRow (patientRow none)).readable = [(1, patientMarket none)] ∧
      (oneRow (patientRow (some ⟨1709294400, 0⟩))).readable = [(1, patientMarket (some ⟨1709294400, 0⟩))] :=
  ⟨oneRow_readable (patientRow_keeps (List.forall_mem_nil _) (by decide +kernel)),
    oneRow_readable (patientRow_keeps (List.forall_mem_singleton.2 (by decide +kernel)) (by decide +kernel))⟩

/-- A world where it is one hour later after the first check of a market, and markets are found unresolved. -/
def hourLaterWorld : World where
  answer past
    | .clock => if past.any Call.fetches then ⟨1709298000, 0⟩ else ⟨1709294400, 0⟩
    | .snapshot _ => .ok (patientMarket none).snapshot
    | q => (World.still ⟨1709294400, 0⟩).answer past q

theorem hourLaterWorld_opened (past : List Call) : hourLaterWorld.answer past .access = none := rfl

/-- The market stays, and is marked as checked. -/
theorem visit_patient (past : List Call) {last : Option Instant} {now : Instant}
    (hdue : (patientMarket last).isDue now = some true) (hbefore : decide ((⟨4102444800, 0⟩ : Instant) ≤ now) = false) :
    visit hourLaterWorld false false false now past (patientMarket last) =
      .ok (.rewrite (patientMarket (some now)), { checked := 1 }) := by
  have hwaits : (((Trigger.atTime ⟨4102444800, 0⟩).evaluate (worldPass (patientMarket none).snapshot now)).runFrom
      Memory.empty).Gives hourLaterWorld (past ++ [⟨.snapshot "m", .ok (patientMarket none).snapshot⟩])
      (.ok false, Memory.empty) [] := by
    rw [← hbefore]
    exact Course.gives_pure _
  unfold visit
  rw [if_neg Bool.false_ne_true, hdue, checkOutcome_untriggered false false (.inr hdue) rfl rfl (.cons hwaits .nil)]
  rfl

/-- Two cycles check it twice, with one hour between them. -/
theorem patientRow_checked_twice :
    ∃ (past past' calls calls' : List Call) (after : Store),
      runEvents (services false) false hourLaterWorld [] (oneRow (patientRow none)) (List.replicate 2 (.cycle false)) =
        [⟨.market 1 false ⟨1709294400, 0⟩, past, calls, oneRow (patientRow none),
            oneRow (patientRow (some ⟨1709294400, 0⟩))⟩,
          ⟨.market 1 false ⟨1709298000, 0⟩, past', calls', oneRow (patientRow (some ⟨1709294400, 0⟩)), after⟩] ∧
      calls.any Call.fetches = true ∧ calls'.any Call.fetches = true := by
  obtain ⟨hread, hread'⟩ := patientRows_readable
  have hdue : (patientMarket none).isDue ⟨1709294400, 0⟩ = some true := rfl
  have hdue' : (patientMarket (some ⟨1709294400, 0⟩)).isDue ⟨1709298000, 0⟩ = some true :=
    beq_iff_eq.1 (by decide +kernel)
  have hclock : hourLaterWorld.answer ([] ++ [⟨.access, none⟩]) .clock = (⟨1709294400, 0⟩ : Instant) := rfl
  obtain ⟨calls, hfetch, hevents, hdone⟩ := cycle_over_row rfl hourLaterWorld_opened rfl hclock hread
    (visit_patient _ hdue (by decide))
  rw [hdue] at hfetch
  have hclock' : hourLaterWorld.answer ([] ++ (openingCalls ⟨1709294400, 0⟩ ++ calls) ++ [⟨.access, none⟩]) .clock =
      (⟨1709298000, 0⟩ : Instant) := by
    -- the first check fetched the market, so it is later now
    have hany : ([] ++ (openingCalls ⟨1709294400, 0⟩ ++ calls) ++ [⟨.access, none⟩] : List Call).any Call.fetches =
        true := by
      rw [List.any_append, List.nil_append, List.any_append, hfetch]
      rfl
    exact if_pos hany
  obtain ⟨calls', hfetch', hevents', -⟩ := cycle_over_row rfl hourLaterWorld_opened rfl hclock' hread'
    (visit_patient _ hdue' (by decide))
  rw [hdue'] at hfetch'
  exact ⟨_, _, calls, calls', _, runEvents_two hevents hdone hevents', hfetch, hfetch'⟩

/-- Where a due market cannot be fetched its check fails. -/
theorem checkOutcome_unfetched {now : Instant} (hdue : market.isDue now = some true) (past : List Call) :
    ∃ failure, checkOutcome (World.still now) false false false now past market = .ok (.error failure, market) := by
  have hw : (isWanted market false now : CycleM Course Bool) = pure true := isWanted_of_wanted (.inr hdue)
  unfold checkOutcome checkMarket
  rw [hw]
  exact ⟨_, rfl⟩

/-- One cycle checks a due market that cannot be fetched. -/
theorem dueRow_unfetched {now : Instant} {kept : MarketRow} (hread : (oneRow kept).readable = [(1, market)])
    (hdue : market.isDue now = some true) :
    ∃ (past calls : List Call) (after : Store),
      runEvents (services false) false (World.still now) [] (oneRow kept) (List.replicate 1 (.cycle false)) =
        [⟨.market 1 false now, past, calls, oneRow kept, after⟩] ∧ calls.any Call.fetches = true := by
  have hclock : (World.still now).answer ([] ++ [⟨.access, none⟩]) .clock = now := rfl
  have hv : visit (World.still now) false false false now ([] ++ openingCalls now) market =
      .ok (.keep, { checked := 1, failed := 1 }) := by
    obtain ⟨failure, hc⟩ := checkOutcome_unfetched hdue ([] ++ openingCalls now)
    unfold visit
    rw [if_neg Bool.false_ne_true, hdue, hc]
  obtain ⟨calls, hfetch, hevents, -⟩ := cycle_over_row rfl (fun _ => rfl) rfl hclock hread hv
  rw [hdue] at hfetch
  exact ⟨_, calls, _, (List.append_nil _).trans hevents, hfetch⟩

/-! ## Two rows -/

/-- A store with two rows, and a queue that is empty. -/
def twoRowsQueued (first second : MarketRow) : Store := { twoRows first second with pending := some Table.empty }

theorem twoRowsQueued_readable {first second : MarketRow} {other : Market} (h : first.Keeps market)
    (h' : second.Keeps other) : (twoRowsQueued first second).readable = [(1, market), (2, other)] :=
  twoRows_readable h h'

/-- If both are due, then both are to be checked, and have a next check. -/
theorem twoRowsQueued_due {first second : MarketRow} {other : Market} (h : first.Keeps market) (h' : second.Keeps other)
    {now : Instant} (hd : market.isDue now = some true) (hd' : other.isDue now = some true) :
    (dueMarkets now (twoRowsQueued first second).readable).map (·.1) = [1, 2] ∧
      ∀ e ∈ (twoRowsQueued first second).readable, e.2.nextCheckFits = true := by
  have hread := twoRowsQueued_readable h h'
  constructor
  · rw [hread]
    simp [dueMarkets, hd, hd']
  · intro e he
    rw [← Market.isDue_isSome (fun last hl => Store.inCalendar_of_readable he hl) now]
    rw [hread] at he
    obtain rfl | rfl : e = (1, market) ∨ e = (2, other) := by simpa using he
    · rw [hd]
      rfl
    · rw [hd']
      rfl

/-- Checks are paced. In a run of cycles that check only what is due, while the store can be worked on:

* if a check at `t₁` leaves its row as one that was last checked at `t₁`, and the next check of this row is at `t₂`, then the
  time between two checks of the market has passed by then;
* a check that comes to no state leaves the store as it was.

And each cycle checks all markets that are due when its checks begin, if their next checks lie in the calendar; only if the
check of one of them crashes are those after it left out. -/
theorem checks_paced (w : World) (hopen : ∀ past, w.answer past .access = none) (journal dryRun : Bool)
    (past : List Call) (store : Store) :
    (∀ n : Nat, let events := runEvents (services journal) dryRun w past store (List.replicate n (.cycle false))
      (∀ (earlier between later : List Event) (e e' : Event) (row : Int) (t₁ t₂ : Instant) (market : Market),
        events = earlier ++ e :: (between ++ e' :: later) →
        e.subject = .market row false t₁ → e.checkedRow? = some row →
        (row, market) ∈ e.after.readable → market.lastChecked = some t₁ →
        (∀ x ∈ between, x.checkedRow? ≠ some row) →
        e'.subject = .market row false t₂ → e'.checkedRow? = some row →
        ∃ next, t₁.addMillis? (Market.checkMillis market.checkRate) = some next ∧ next ≤ t₂) ∧
      ∀ e ∈ events, ∀ (row : Int) (now : Instant) (market : Market), e.subject = .market row false now →
        (row, market) ∈ e.before.readable →
        (∀ state market', checkOutcome w journal dryRun false now e.past market ≠ .ok (.ok state, market')) →
        e.after = e.before) ∧
    ∀ (markets : Table MarketRow) (pending : Table PendingRow),
      store.markets = some markets → store.pending = some pending →
      ∃ (created : Nat) (now : Instant) (calls : List Call) (stored : Store),
        (openCycle (services journal) dryRun).upshot w past store = ⟨.ok (created, now, stored.readable), calls, stored⟩ ∧
        ((∀ e ∈ stored.readable, e.2.nextCheckFits = true) →
          (runCycle (services journal) dryRun false).Leads w past store fun result _ _ =>
            ChecksDue w journal dryRun now ((RunStep.cycle false).events (services journal) dryRun w past store)
              (dueMarkets now stored.readable) result) := by
  refine ⟨fun n => ?_, fun markets pending hm hp => ?_⟩
  · intro events
    have htold := runSteps_tells hopen journal dryRun (List.replicate n (.cycle false)) past store
    have hlawful : ∀ e ∈ events, e.Lawful w journal dryRun := Told.lawful htold
    have hunforced : ∀ e ∈ events, e.Unforced := fun e he => unforced_of_mem_runEvents _ he
    refine ⟨fun earlier between later e e' row t₁ t₂ market he hs hc hr hl hno hs' hc' => ?_,
      fun e he row now market hs hr hfailed => ?_⟩
    · have hbetween : ∀ x ∈ between, x ∈ events := fun x hx => by rw [he]; simp [hx]
      have he' : e' ∈ events := by rw [he]; simp
      -- nothing touches the row between the two checks
      have hpasses := Told.passes htold
      rw [show runEvents _ _ _ _ _ _ = earlier ++ e :: (between ++ e' :: later) from he] at hpasses
      obtain ⟨_, _, hpasses⟩ := hpasses.split
      cases hpasses with
      | cons hnext =>
        obtain ⟨_, hkeeps, hrest⟩ := hnext.split
        cases hrest with
        | cons _ =>
          have hr' := hkeeps.keeps_reading (fun x hx => hlawful x (hbetween x hx)) (fun x hx => hunforced x (hbetween x hx))
            hno hr
          exact Market.next_le_of_isDue hl ((hlawful e' he').due_of_checked hs' hc' hr')
    · have hvisit := hlawful e he
      unfold Event.Lawful at hvisit
      rw [hs] at hvisit
      obtain ⟨m, hvisit⟩ := hvisit
      obtain rfl := Store.readable_unique hr hvisit.read
      exact hvisit.eq_of_keep fun _ _ => keep_of_failed hfailed
  · have hopens := @openCycle_opens w past store hopen journal dryRun markets pending hm hp
    obtain ⟨result, calls, stored, hu⟩ : ∃ result calls stored,
        (openCycle (services journal) dryRun).upshot w past store = ⟨result, calls, stored⟩ := ⟨_, _, _, rfl⟩
    obtain ⟨created, now, rfl⟩ := Course.Leads.upshot hopens hu
    refine ⟨created, now, calls, stored, hu, fun hfits => runCycle_checks hopen journal dryRun hu fun e he => ?_⟩
    rw [Market.isDue_isSome (fun last hl => Store.inCalendar_of_readable he hl)]
    exact hfits e he

/-- A row is checked at noon and again at one, when the hour between its checks has passed. If it cannot be fetched the
store stays as it is. And of two markets that are due both are checked. -/
theorem hourlyRows_paced :
    let rows := twoRowsQueued (rowAtRate "1") (rowAtRate "1")
    let row := oneRow (patientRow none)
    let events := runEvents (services false) false hourLaterWorld [] row (List.replicate 2 (.cycle false))
    let failed := runEvents (services false) false (World.still ⟨1709298000, 0⟩) [] row (List.replicate 1 (.cycle false))
    (∀ past, hourLaterWorld.answer past .access = none) ∧
    events.map (·.subject) = [.market 1 false ⟨1709294400, 0⟩, .market 1 false ⟨1709298000, 0⟩] ∧
    checkedRows events = [1, 1] ∧
    (∃ next, (⟨1709294400, 0⟩ : Instant).addMillis? (Market.checkMillis 1.0) = some next ∧ next ≤ ⟨1709298000, 0⟩) ∧
    checkedRows failed = [1] ∧ (∀ e ∈ failed, e.after = e.before) ∧
    (∀ past, settledWorld.answer past .access = none) ∧
    (dueMarkets ⟨1709298000, 0⟩ rows.readable).map (·.1) = [1, 2] ∧
    (runCycle (services false) false false).Leads settledWorld [] rows fun result _ _ =>
      ChecksDue settledWorld false false ⟨1709298000, 0⟩
        ((RunStep.cycle false).events (services false) false settledWorld [] rows)
        (dueMarkets ⟨1709298000, 0⟩ rows.readable) result := by
  intro rows row events failed
  obtain ⟨hread, hread'⟩ := patientRows_readable
  -- the row that is checked twice
  obtain ⟨_, _, calls, calls', _, hevents, hfetch, hfetch'⟩ := patientRow_checked_twice
  have hevents : events = _ := hevents
  have hchecked : checkedRows events = [1, 1] := by
    rw [hevents]
    exact (checkedRows_cons (checkedRow?_of_fetches hfetch)).trans
      (congrArg _ (checkedRows_cons (checkedRow?_of_fetches hfetch')))
  have hpaced := ((checks_paced hourLaterWorld hourLaterWorld_opened false false [] row).1 2).1 [] [] [] _ _ 1 _ _ _
    hevents rfl (checkedRow?_of_fetches hfetch) (hread' ▸ List.mem_cons_self) rfl (List.forall_mem_nil _) rfl
    (checkedRow?_of_fetches hfetch')
  -- the row that cannot be fetched
  have hdue : (patientMarket none).isDue ⟨1709298000, 0⟩ = some true := rfl
  obtain ⟨_, more, _, hfailed, hmore⟩ := dueRow_unfetched hread hdue
  have hfailed : failed = _ := hfailed
  have hchecked' : checkedRows failed = [1] := by
    rw [hfailed]
    exact checkedRows_cons (checkedRow?_of_fetches hmore)
  have hkept : ∀ e ∈ failed, e.after = e.before := fun e he => by
    have hfails := ((checks_paced (World.still ⟨1709298000, 0⟩) (fun _ => rfl) false false [] row).1 1).2 e he 1
    have hone := he
    rw [hfailed] at hone
    obtain rfl := List.mem_singleton.1 hone
    refine hfails _ _ rfl (hread ▸ List.mem_cons_self) fun state market' hc => ?_
    obtain ⟨failure, hunfetched⟩ := checkOutcome_unfetched hdue _
    cases hunfetched.symm.trans hc
  -- the two rows that are due
  have hopen := settledWorld_steady.opened
  obtain ⟨market, hk, hdue⟩ := hourlyRow_keeps
  have hdue := beq_iff_eq.1 hdue
  obtain ⟨hrows, hfits⟩ := twoRowsQueued_due hk hk hdue hdue
  obtain ⟨created, now, calls, stored, hu, hchecks⟩ := (checks_paced settledWorld hopen false false [] rows).2 _ _ rfl rfl
  have hu' := @upshot_openCycle_of_empty settledWorld rows rfl hopen _ rfl [] ⟨1709298000, 0⟩ rfl
  obtain ⟨hok, -, rfl⟩ := Upshot.mk.inj (hu.symm.trans hu')
  obtain ⟨rfl, -⟩ := Prod.mk.inj (Prod.mk.inj (Except.ok.inj hok)).2
  exact ⟨hourLaterWorld_opened, by rw [hevents]; rfl, hchecked, hpaced, hchecked', hkept, hopen, hrows, hchecks hfits⟩

/-- A market that is resolved to one of its answers by chance, by their weights. -/
def lotteryRow : MarketRow where
  text := "[[\"a\",\"\",\"A?\",\"MULTIPLE_CHOICE\",null,null,false,[\"x\",\"y\"],null,false]," ++
    ("[[\"generic.ResolveAtTime\",\x7b\"resolve_at\":\"2024-01-01T00:00:00Z\"\x7d]]," ++
      ("[[\"generic.ResolveRandomIndex\",\x7b\"weighted\":true,\"seed\":1\x7d]]," ++ "1,\"2024-03-01T12:00:00Z\"]"))
  lastChecked := none

/-- A world that stands still, where the answers of every market weigh so much that their sum is infinite. -/
def heavyWorld : World where
  answer past
    | .snapshot _ => .ok ⟨"a", "", "A?", .multipleChoice, none, none, false, ["x", "y"], none, false⟩
    | .currentValue _ => .ok (.distribution (SortedMap.ofList [(0, 1e308), (1, 1e308)]))
    | q => (World.still ⟨1709298000, 0⟩).answer past q

theorem heavyWorld_alike (past past' : List Call) : Alike heavyWorld heavyWorld past past' := fun _ q _ => by
  cases q <;> rfl

set_option maxRecDepth 4000 in
theorem lotteryRow_keeps : ∃ market, lotteryRow.Keeps market ∧ ((market.isDue ⟨1709298000, 0⟩ == some true) &&
    (checkOutcome heavyWorld false false false ⟨1709298000, 0⟩ [] market matches .error _)) = true := by
  have ht : lotteryRow.text = String.ofList _ ++ (String.ofList _ ++ (String.ofList _ ++ String.ofList _)) := rfl
  rw [← String.ofList_append, ← String.ofList_append, ← String.ofList_append] at ht
  refine Store.exists_decoded ?_
  rw [decodeText, Json.readAs?, ht, String.toList_ofList]
  decide +kernel

/-- Where the draw for one market crashes, one after it that is due as well is left out. -/
theorem dueRow_left_out :
    let store := twoRowsQueued lotteryRow (rowAtRate "1")
    (∀ past, heavyWorld.answer past .access = none) ∧
    ∃ calls, (openCycle (services false) false).upshot heavyWorld [] store =
        ⟨.ok (0, ⟨1709298000, 0⟩, store.readable), calls, store⟩ ∧
      (∀ e ∈ store.readable, e.2.nextCheckFits = true) ∧
      (dueMarkets ⟨1709298000, 0⟩ store.readable).map (·.1) = [1, 2] ∧
      checkedRows ((RunStep.cycle false).events (services false) false heavyWorld [] store) = [1] := by
  intro store
  have hopen : ∀ past, heavyWorld.answer past .access = none := fun _ => rfl
  obtain ⟨hourly, hk', hdue'⟩ := hourlyRow_keeps
  obtain ⟨market, hk, hlottery⟩ := lotteryRow_keeps
  obtain ⟨hdue, hcrash⟩ := Bool.and_eq_true_iff.1 hlottery
  obtain ⟨hrows, hfits⟩ := twoRowsQueued_due hk hk' (beq_iff_eq.1 hdue) (beq_iff_eq.1 hdue')
  obtain ⟨calls, hu⟩ : ∃ calls, (openCycle (services false) false).upshot heavyWorld [] store =
      ⟨.ok (0, ⟨1709298000, 0⟩, store.readable), calls, store⟩ :=
    ⟨_, upshot_openCycle_of_empty rfl hopen rfl rfl⟩
  refine ⟨hopen, calls, hu, hfits, hrows, ?_⟩
  have hread : store.readable = [(1, market), (2, hourly)] := twoRowsQueued_readable hk hk'
  have hfirst : (1, market) ∈ store.readable := hread ▸ List.mem_cons_self
  have hv : visit heavyWorld false false false ⟨1709298000, 0⟩ calls market = .error .outOfRange := by
    have hc : checkOutcome heavyWorld false false false ⟨1709298000, 0⟩ calls market =
        checkOutcome heavyWorld false false false ⟨1709298000, 0⟩ [] market :=
      checkOutcome_eq (heavyWorld_alike calls []) ..
    unfold visit
    rw [if_neg Bool.false_ne_true, beq_iff_eq.1 hdue, hc]
    match hcheck : checkOutcome heavyWorld false false false ⟨1709298000, 0⟩ [] market with
    | .error .outOfRange => rfl
    | .ok _ =>
      rw [hcheck] at hcrash
      cases hcrash
  obtain ⟨result, more, store', hturn⟩ : ∃ result more store', (ExceptT.run (processMarket (services false) false false
      ⟨1709298000, 0⟩ { created := 0 } 1 market)).upshot heavyWorld calls store = ⟨result, more, store'⟩ := ⟨_, _, _, rfl⟩
  have hvisit := Course.Leads.upshot
    (processMarket_visit hopen false false false ⟨1709298000, 0⟩ { created := 0 } hfirst) hturn
  have hresult := Course.Leads.upshot
    (processMarket_visits hopen rfl false false false ⟨1709298000, 0⟩ calls { created := 0 } 1 market) hturn
  rw [hv] at hresult
  obtain ⟨rfl, rfl⟩ := hresult
  have hchecks : checkEvents (services false) false heavyWorld false [] store =
      [⟨.market 1 false ⟨1709298000, 0⟩, calls, more, store, store⟩] := by
    unfold checkEvents
    rw [hu]
    dsimp only
    rw [hread, List.nil_append, marketEvents_cons false false false _ hturn]
  have hfetch := hvisit.fetches
  rw [if_neg Bool.false_ne_true, beq_iff_eq.1 hdue] at hfetch
  rw [RunStep.events, queueEvents_of_empty rfl hopen, List.nil_append, hchecks]
  exact checkedRows_cons (checkedRow?_of_fetches hfetch)

end Arbiter
