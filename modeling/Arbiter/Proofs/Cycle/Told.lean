import Arbiter.Proofs.Cycle.Events
import Mathlib.Algebra.GroupWithZero.Nat

/-!
# Runs told by their events

While the store can be worked on, the events of a run tell all of it: each of them is the turn of a request on the queue,
the visit of a market in the store, or an edit, the store passes through them one after another, and nothing is written to
the platform outside of them.

* `Event.Lawful`: what one event does. `Told`: events that tell some calls and a change of the store. `Told.keeps`: what
  every event keeps holds at the end.
* `runSteps_tells`: every run is told by its events.
-/

namespace Arbiter

variable {w : World} {past : List Call} {store store' store'' : Store}

/-! ## What an event does to the store -/

section

variable {journal dryRun refresh : Bool} {row other : Int} {now : Instant} {market : Market} {calls : List Call}

theorem RowEffect.changes (effect : RowEffect) (row : Int) (store : Store) : store.Changes (effect.apply row store) := by
  cases effect with
  | keep => exact .refl store
  | remove => exact store.changes_markets fun _ => .remove row
  | rewrite market => exact store.changes_markets fun _ => .modify row _

/-- Other rows are read as before. -/
theorem RowEffect.mem_readable_apply (effect : RowEffect) (store : Store) (ho : other ≠ row) :
    (other, market) ∈ (effect.apply row store).readable ↔ (other, market) ∈ store.readable := by
  rw [Store.mem_readable, Store.mem_readable, RowEffect.row?_apply, if_neg ho]

namespace VisitsRow

variable (h : VisitsRow w journal dryRun row refresh now market past calls store store')

include h

/-- A visit does something to its row, or nothing at all. -/
theorem exists_effect : ∃ effect : RowEffect, store' = effect.apply row store := by
  have he := h.effect
  cases hv : visit w journal dryRun refresh now past market with
  | error _ => exact ⟨.keep, by rw [hv] at he; exact he⟩
  | ok done => exact ⟨done.1, by rw [hv] at he; exact he⟩

theorem changes : store.Changes store' := by
  obtain ⟨effect, rfl⟩ := h.exists_effect
  exact effect.changes row store

theorem pending : store'.pending = store.pending := by
  obtain ⟨effect, rfl⟩ := h.exists_effect
  exact effect.pending_apply row store

/-- Other rows are read as before. -/
theorem readable_other (ho : other ≠ row) {m : Market} : (other, m) ∈ store'.readable ↔ (other, m) ∈ store.readable := by
  obtain ⟨effect, rfl⟩ := h.exists_effect
  exact effect.mem_readable_apply store ho

end VisitsRow

namespace Serves

variable (h : Serves row calls store store')

include h

theorem changes : store.Changes store' := by
  obtain ⟨markets, pending⟩ := store'
  refine ⟨?_, ?_⟩
  · rcases h.markets with rfl | ⟨kept, rfl⟩
    · exact rel_changes_refl _
    · exact rel_changes_map _ fun _ => .add kept
  · rcases h.pending with rfl | rfl
    · exact rel_changes_refl _
    · exact rel_changes_map _ fun _ => .remove row

theorem queued?_other (ho : other ≠ row) : store'.queued? other = store.queued? other := by
  unfold Store.queued?
  rcases h.pending with hp | hp
  · rw [hp]
  · rw [hp]
    cases store.pending with
    | none => rfl
    | some table => exact (table.get?_remove row other).trans (if_neg ho)

/-- Rows of markets stay as they are. -/
theorem row?_kept {kept : MarketRow} (hk : store.row? other = some kept) : store'.row? other = some kept := by
  unfold Store.row? at hk ⊢
  rcases h.markets with hm | ⟨added, hm⟩
  · rw [hm, hk]
  · obtain ⟨table, ht, hget⟩ := Option.bind_eq_some_iff.1 hk
    have hne : other ≠ table.last + 1 := Int.ne_of_lt (Int.lt_add_one_of_le (Table.le_last_of_get? hget))
    rw [hm, ht]
    exact (table.get?_add added hne).trans hget

end Serves

end

/-! ## Edits -/

namespace Store

/-- Work whose answer is not used leaves the same store. -/
theorem run_then_pure {α : Type} (work : StoreM α) (store : Store) :
    (run (do let _ ← work; pure ()) store).2 = (run work store).2 := by
  unfold run
  rw [ExceptT.run_bind, StateT.run_bind]
  rcases StateT.run (ExceptT.run work) store with ⟨result, store'⟩
  cases result <;> rfl

/-- An edit changes each table once at most. -/
theorem changes_edit (edit : StoreEdit) (store : Store) : store.Changes (run edit.work store).2 := by
  cases edit with
  | insert market =>
    rw [StoreEdit.work, run_then_pure, run_insertMarket]
    exact store.changes_markets fun _ => .add _
  | update row market =>
    rw [StoreEdit.work, run_updateMarket]
    exact store.changes_markets fun _ => .modify row _
  | remove row =>
    rw [StoreEdit.work, run_then_pure, run_removeMarket]
    exact store.changes_markets fun _ => .remove row
  | queue request priority cost =>
    rw [StoreEdit.work, run_then_pure, run_queueRequest]
    dsimp only
    split
    · exact .refl store
    · exact store.changes_pending fun _ => .add _
  | dequeue row =>
    rw [StoreEdit.work, run_then_pure, run_removePending]
    exact store.changes_pending fun _ => .remove row

end Store

/-! ## Events that tell a run -/

/-- What an event does, by what it is about. -/
def Event.Lawful (w : World) (journal dryRun : Bool) (e : Event) : Prop :=
  match e.subject with
  | .edit => Harmless e.calls ∧ ∃ edit : StoreEdit, e.after = (Store.run edit.work e.before).2
  | .request row => e.before.queued? row ≠ none ∧ Serves row e.calls e.before e.after
  | .market row refresh now =>
    ∃ market, VisitsRow w journal dryRun row refresh now market e.past e.calls e.before e.after

/-- The store passes through the events one after another. -/
inductive Passes : Store → List Event → Store → Prop
  | nil {store : Store} : Passes store [] store
  | cons {e : Event} {rest : List Event} {store : Store} (next : Passes e.after rest store) :
      Passes e.before (e :: rest) store

theorem Passes.append {events more : List Event} (h : Passes store events store') (h' : Passes store' more store'') :
    Passes store (events ++ more) store'' := by
  induction h with
  | nil => exact h'
  | cons _ ih => exact .cons (ih h')

/-- Events that tell some calls and a change of the store: each is lawful, the store passes through them, and nothing is
settled or made outside of them. -/
structure Told (w : World) (journal dryRun : Bool) (events : List Event) (calls : List Call) (store store' : Store) :
    Prop where
  lawful : ∀ e ∈ events, e.Lawful w journal dryRun
  passes : Passes store events store'
  settled : settlements calls = (events.map fun e => settlements e.calls).sum
  made : makings calls = (events.map fun e => makings e.calls).sum

section

variable {journal dryRun : Bool} {events more : List Event} {calls later : List Call}

theorem told_nil (h : Harmless calls) : Told w journal dryRun [] calls store store where
  lawful := by simp
  passes := .nil
  settled := h.settlements
  made := h.makings

theorem Event.Lawful.changes {e : Event} (h : e.Lawful w journal dryRun) : e.before.Changes e.after := by
  unfold Event.Lawful at h
  cases hs : e.subject with
  | edit =>
    rw [hs] at h
    obtain ⟨-, edit, hafter⟩ := h
    exact hafter ▸ Store.changes_edit edit e.before
  | request row => rw [hs] at h; exact h.2.changes
  | market row refresh now =>
    rw [hs] at h
    obtain ⟨market, h⟩ := h
    exact h.changes

theorem Event.Lawful.told {e : Event} (h : e.Lawful w journal dryRun) :
    Told w journal dryRun [e] e.calls e.before e.after where
  lawful := List.forall_mem_singleton.2 h
  passes := .cons .nil
  settled := (Nat.add_zero _).symm
  made := (Nat.add_zero _).symm

theorem Told.append (h : Told w journal dryRun events calls store store')
    (h' : Told w journal dryRun more later store' store'') :
    Told w journal dryRun (events ++ more) (calls ++ later) store store'' where
  lawful := List.forall_mem_append.2 ⟨h.lawful, h'.lawful⟩
  passes := h.passes.append h'.passes
  settled := by rw [settlements_append, h.settled, h'.settled, List.map_append, List.sum_append]
  made := by rw [makings_append, h.made, h'.made, List.map_append, List.sum_append]

/-- Work follows that writes nothing. -/
theorem Told.followed (h : Told w journal dryRun events calls store store') (hl : Harmless later) :
    Told w journal dryRun events (calls ++ later) store store' := by
  have := h.append (told_nil hl)
  rwa [List.append_nil] at this

/-- What every event keeps holds at the end if it held at the beginning. -/
theorem Told.keeps {Holds : Store → Prop}
    (hstep : ∀ e : Event, e.Lawful w journal dryRun → Holds e.before → Holds e.after)
    (h : Told w journal dryRun events calls store store') (hholds : Holds store) : Holds store' := by
  obtain ⟨hl, hp, -, -⟩ := h
  induction hp with
  | nil => exact hholds
  | @cons e _ _ _ ih =>
    obtain ⟨hfirst, hrest⟩ := List.forall_mem_cons.1 hl
    exact ih (hstep e hfirst hholds) hrest

/-- The store at the end follows the one at the beginning. -/
theorem Told.follows (h : Told w journal dryRun events calls store store') : store.Follows store' :=
  h.keeps (fun _ he hfollows => hfollows.trans he.changes.follows) (Store.Changes.refl store).follows

/-- Work that writes nothing comes before. -/
theorem Told.preceded (h : Told w journal dryRun events calls store store') (hl : Harmless later) :
    Told w journal dryRun events (later ++ calls) store store' := (told_nil hl).append h

end

/-! ## From event to event -/

section

variable (hopen : ∀ past, w.answer past .access = none) (journal dryRun : Bool)

include hopen

/-- Dealing with requests is told by their turns. -/
theorem requestEvents_tells : ∀ (requests : List PendingRequest) (past : List Call) (store : Store) (created : Nat),
    (requests.map (·.row)).Nodup → (∀ pending ∈ requests, store.queued? pending.row ≠ none) →
    (processRequests (services journal) dryRun created requests).Leads w past store fun _ calls store' =>
      Told w journal dryRun (requestEvents (services journal) dryRun w past store requests) calls store store'
  | [], _, _, _, _, _ => told_nil harmless_nil
  | pending :: rest, past, store, created, hn, hq => by
    obtain ⟨hnot, hn⟩ := List.nodup_cons.1 hn
    obtain ⟨hfirst, hrest⟩ := List.forall_mem_cons.1 hq
    have hturn := @processRequest_serves w past store hopen journal dryRun pending
    have hlawful : ((processRequest (services journal) dryRun pending).event (.request pending.row) w past store).Lawful w
        journal dryRun := ⟨hfirst, hturn⟩
    -- the turn of a request touches no other request, so the rest is still on the queue
    have hkept : ∀ other ∈ rest, ((processRequest (services journal) dryRun pending).upshot w past store).store.queued?
        other.row ≠ none := fun other ho => by
      have hne : other.row ≠ pending.row := fun heq => hnot (List.mem_map.2 ⟨other, ho, heq⟩)
      rw [Serves.queued?_other hturn hne]
      exact hrest other ho
    exact Course.leads_bind.2 ((requestEvents_tells rest _ _ _ hn hkept).mono fun _ _ _ h => hlawful.told.append h)

omit hopen in
theorem marketEvents_cons (refresh : Bool) (now : Instant) {row : Int} {market : Market} {rest : List (Int × Market)}
    {summary : CycleSummary} {result : Except Crash CycleSummary} {calls : List Call}
    (hu : (ExceptT.run (processMarket (services journal) dryRun refresh now summary row market)).upshot w past store =
      ⟨result, calls, store'⟩) :
    marketEvents (services journal) dryRun w refresh now past store summary ((row, market) :: rest) =
      ⟨.market row refresh now, past, calls, store, store'⟩ :: match result with
        | .error _ => []
        | .ok summary => marketEvents (services journal) dryRun w refresh now (past ++ calls) store' summary rest := by
  rw [marketEvents]
  dsimp only [Course.event]
  cases result with
  | error crash => rw [hu]
  | ok summary => rw [hu]

/-- Visiting markets is told by their visits. -/
theorem marketEvents_tells (refresh : Bool) (now : Instant) :
    ∀ (rows : List (Int × Market)) (past : List Call) (store : Store) (summary : CycleSummary),
      (rows.map (·.1)).Nodup → (∀ e ∈ rows, e ∈ store.readable) →
      (processMarkets (services journal) dryRun refresh now summary rows).Leads w past store fun _ calls store' =>
        Told w journal dryRun (marketEvents (services journal) dryRun w refresh now past store summary rows) calls store
          store'
  | [], _, _, _, _, _ => told_nil harmless_nil
  | (row, market) :: rest, past, store, summary, hn, hr => by
    obtain ⟨hnot, hn⟩ := List.nodup_cons.1 hn
    obtain ⟨hfirst, hrest⟩ := List.forall_mem_cons.1 hr
    unfold processMarkets
    refine CycleM.leads_bind.2 (Course.leads_of_upshot fun result calls store' hu => ?_)
    have hvisit : VisitsRow w journal dryRun row refresh now market past calls store store' :=
      Course.Leads.upshot (processMarket_visit hopen journal dryRun refresh now summary hfirst) hu
    have hlawful : (Event.mk (.market row refresh now) past calls store store').Lawful w journal dryRun := ⟨market, hvisit⟩
    rw [marketEvents_cons journal dryRun refresh now hu]
    cases result with
    | error _ => exact hlawful.told
    | ok summary =>
      -- the visit of a row touches no other row, so the rest is read as before
      have hkept : ∀ e ∈ rest, e ∈ store'.readable := fun e he => by
        have hne : e.1 ≠ row := fun heq => hnot (List.mem_map.2 ⟨e, he, heq⟩)
        exact (hvisit.readable_other hne).2 (hrest e he)
      exact (marketEvents_tells refresh now rest (past ++ calls) store' summary hn hkept).mono fun _ _ _ h =>
        hlawful.told.append h

/-- Dealing with the queue is told by the turns of its requests. -/
theorem queueEvents_tells :
    (processPending (services journal) dryRun).Leads w past store fun _ calls store' =>
      Told w journal dryRun (queueEvents (services journal) dryRun w past store) calls store store' := by
  have hload : ((services journal).load .pending Store.loadPending).Leads w past store fun result calls store' =>
      Quiet calls ∧ store' = store ∧ ∀ requests, result = .ok requests → requests = store.waiting := by
    rw [Course.leads_load, hopen, Store.run_loadPending]
    refine ⟨quiet_access none, rfl, ?_⟩
    cases store.pending with
    | none => exact nofun
    | some table => exact fun requests h => (Except.ok.inj h).symm
  refine Course.leads_bind.2 (Course.leads_of_upshot fun loaded calls store' hu => ?_)
  obtain ⟨hq, rfl, hwaiting⟩ := Course.Leads.upshot hload hu
  unfold queueEvents
  rw [hu]
  cases loaded with
  | error failure => exact told_nil (hq.harmless.append harmless_nil)
  | ok requests =>
    obtain rfl := hwaiting requests rfl
    refine (requestEvents_tells hopen journal dryRun _ (past ++ calls) store' 0 store'.nodup_waiting
      fun _ => Store.queued?_of_waiting).bind fun _ more _ h => ?_
    exact (h.followed harmless_nil).preceded hq.harmless

omit hopen in
/-- The markets to be visited are those that can be read after the opening of the cycle, if the store could be read then. -/
theorem openCycle_readable (journal dryRun : Bool) :
    (openCycle (services journal) dryRun).Leads w past store fun result _ store' =>
      ∀ created now rows, result = .ok (created, now, rows) → rows = store'.readable := by
  refine Course.leads_bind.2 (Course.leads_of_upshot fun pending calls store' _ => ?_)
  cases pending with
  | error _ => exact Course.leads_pure.2 nofun
  | ok created =>
    refine Course.leads_bind.2 (Course.leads_ask.2 (Course.leads_bind.2 ?_))
    rw [Course.leads_load, Store.run_loadMarkets]
    split
    · rename_i fault _
      obtain ⟨failure, hf⟩ := Course.ofStore_error (Loaded (Int × Market)) fault
      rw [hf]
      exact Course.leads_pure.2 nofun
    · cases hm : store'.markets with
      | none => exact Course.leads_pure.2 nofun
      | some table =>
        have hrows : store'.readable = (Store.decodedMarkets table).found := by rw [Store.readable, hm]; rfl
        intro _ _ _ he
        cases he
        exact hrows.symm

/-- The opening of a cycle is told by the turns of the requests. -/
theorem openCycle_tells :
    (openCycle (services journal) dryRun).Leads w past store fun _ calls store' =>
      Told w journal dryRun (queueEvents (services journal) dryRun w past store) calls store store' := by
  refine (queueEvents_tells hopen journal dryRun).bind fun created calls store' h => ?_
  cases created with
  | error _ => exact h.followed harmless_nil
  | ok created =>
    refine Course.leads_bind.2 (Course.leads_ask.2 (Course.leads_bind.2 ?_))
    rw [Course.leads_load, hopen, Store.run_loadMarkets]
    have hquiet : ∀ now : Instant, Harmless ([⟨.clock, now⟩] ++ ([⟨.access, none⟩] ++ [])) := fun now =>
      ((quiet_access none).cons (c := ⟨.clock, now⟩) ⟨rfl, rfl⟩).harmless
    cases store'.markets with
    | none => exact h.followed (hquiet _)
    | some table => exact h.followed (hquiet _)

/-- A cycle is told by its events. -/
theorem runCycle_tells (refresh : Bool) :
    (runCycle (services journal) dryRun refresh).Leads w past store fun _ calls store' =>
      Told w journal dryRun (queueEvents (services journal) dryRun w past store ++
        checkEvents (services journal) dryRun w refresh past store) calls store store' := by
  rw [runCycle_opened, CycleM.leads_call_bind]
  refine Course.leads_of_upshot fun opened calls store' hu => ?_
  have htold := Course.Leads.upshot (openCycle_tells hopen journal dryRun) hu
  have hrows := Course.Leads.upshot (openCycle_readable journal dryRun) hu
  unfold checkEvents
  rw [hu]
  cases opened with
  | error _ =>
    dsimp only
    rw [CycleM.leads_pure, List.append_nil, List.append_nil]
    exact htold
  | ok opened =>
    obtain ⟨created, now, rows⟩ := opened
    obtain rfl := hrows created now rows rfl
    refine (marketEvents_tells hopen journal dryRun refresh now _ (past ++ calls) store' _ store'.nodup_readable
      fun _ h => h).bind (fun summary more _ h => ?_) fun _ more _ h => htold.append h
    exact htold.append (h.followed harmless_nil)

/-- A step is told by its events. -/
theorem step_tells (step : RunStep) :
    (step.work (services journal) dryRun).Leads w past store fun _ calls store' =>
      Told w journal dryRun (step.events (services journal) dryRun w past store) calls store store' := by
  cases step with
  | cycle refresh =>
    refine Course.leads_bind.2 ((runCycle_tells hopen journal dryRun refresh).mono fun _ calls store' h => ?_)
    exact h.followed harmless_nil
  | edit e =>
    have hedit := @store_leads_open w past store hopen Unit journal e.work
    refine Course.leads_bind.2 (Course.leads_of_upshot fun result calls store' hu => ?_)
    obtain ⟨hq, rfl⟩ := Course.Leads.upshot hedit hu
    have hlawful : (Event.mk .edit past calls store (Store.run e.work store).2).Lawful w journal dryRun :=
      ⟨hq.harmless, e, rfl⟩
    dsimp only [RunStep.events, Course.event]
    rw [hu]
    exact hlawful.told.followed harmless_nil

/-- Every run is told by its events. -/
theorem runSteps_tells : ∀ (steps : List RunStep) (past : List Call) (store : Store),
    (runSteps (services journal) dryRun steps).Leads w past store fun _ calls store' =>
      Told w journal dryRun (runEvents (services journal) dryRun w past store steps) calls store store'
  | [], _, _ => told_nil harmless_nil
  | step :: rest, past, store =>
    have hstep := @step_tells w past store hopen journal dryRun step
    Course.leads_bind.2 ((runSteps_tells rest _ _).mono fun _ _ _ h => Told.append hstep h)

end

end Arbiter
