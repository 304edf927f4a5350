import Arbiter.Proofs.Cycle.Creations
import Arbiter.Proofs.Cycle.RehearsedCycle
import Arbiter.Proofs.Cycle.Told

/-!
# At most one write for each row

A market that was settled is removed in the same visit, a request whose market was made leaves the queue in the same turn,
and the number of a row that is gone denotes no other row later. So no row is written for twice.

* `Passes.pairwise`: the stores of a run follow each other.
* `Told.settlements_of_row`, `Told.makings_of_row`: at most one write for each row of the events that tell a run.
* `rows_written_once`: in every run each row is written for at most once.
-/

namespace Arbiter

variable {w : World} {journal dryRun : Bool} {store store' : Store} {events : List Event} {calls : List Call}

/-! ## Moments of a run -/

/-- Each store of a run follows those before it. -/
theorem Passes.pairwise (h : Passes store events store') (hc : ∀ e ∈ events, e.before.Changes e.after) :
    (store :: events.map (·.after)).Pairwise Store.Follows := by
  induction h with
  | nil => exact List.pairwise_singleton _ _
  | @cons e rest store' _ ih =>
    obtain ⟨hfirst, hrest⟩ := List.forall_mem_cons.1 hc
    have ih := ih hrest
    refine List.pairwise_cons.2 ⟨List.forall_mem_cons.2 ⟨hfirst.follows, fun later hl => ?_⟩, ih⟩
    exact hfirst.follows.trans (List.rel_of_pairwise_cons ih hl)

/-- So does the store before a later event. -/
theorem Passes.follows_before (h : Passes store events store') (hc : ∀ e ∈ events, e.before.Changes e.after) :
    ∀ e ∈ events, store.Follows e.before := by
  induction h with
  | nil => simp
  | @cons e rest store' _ ih =>
    obtain ⟨hfirst, hrest⟩ := List.forall_mem_cons.1 hc
    exact List.forall_mem_cons.2 ⟨(Store.Changes.refl _).follows, fun later hl => hfirst.follows.trans (ih hrest later hl)⟩

theorem Passes.pairwise_events (h : Passes store events store') (hc : ∀ e ∈ events, e.before.Changes e.after) :
    events.Pairwise fun e e' => e.after.Follows e'.before := by
  induction h with
  | nil => exact .nil
  | @cons e rest store' next ih =>
    obtain ⟨_, hrest⟩ := List.forall_mem_cons.1 hc
    exact List.pairwise_cons.2 ⟨next.follows_before hrest, ih hrest⟩

/-! ## Writes -/

/-- Whether the event is a visit of this row. -/
def Event.isVisitOf (row : Int) (e : Event) : Bool :=
  match e.subject with
  | .market visited _ _ => visited == row
  | _ => false

/-- Whether the event is the turn of this row. -/
def Event.isTurnOf (row : Int) (e : Event) : Bool := e.subject == .request row

section

variable {e e' : Event} {row : Int}

theorem Event.subject_of_isVisitOf (h : e.isVisitOf row = true) :
    ∃ refresh now, e.subject = .market row refresh now := by
  unfold Event.isVisitOf at h
  cases hs : e.subject with
  | market visited refresh now =>
    rw [hs] at h
    exact ⟨refresh, now, congrArg (Subject.market · refresh now) (beq_iff_eq.1 h)⟩
  | edit | request _ => rw [hs] at h; cases h

/-- A visit of a row finds it there, settles one market at most, and then the row is gone. -/
theorem Event.Lawful.visit (h : e.Lawful w journal dryRun) (hv : e.isVisitOf row = true) :
    e.before.row? row ≠ none ∧ settlements e.calls ≤ 1 ∧ (0 < settlements e.calls → e.after.row? row = none) := by
  obtain ⟨refresh, now, hs⟩ := Event.subject_of_isVisitOf hv
  unfold Event.Lawful at h
  rw [hs] at h
  obtain ⟨market, h⟩ := h
  obtain ⟨kept, hrow, -⟩ := Store.mem_readable.1 h.read
  exact ⟨hrow ▸ Option.some_ne_none kept, h.settles.once, h.settles.holds⟩

/-- A turn of a request finds it on the queue, makes one market at most, and then the request is gone. -/
theorem Event.Lawful.turn (h : e.Lawful w journal dryRun) (ht : e.isTurnOf row = true) :
    e.before.queued? row ≠ none ∧ makings e.calls ≤ 1 ∧ (0 < makings e.calls → e.after.queued? row = none) := by
  have hs : e.subject = .request row := beq_iff_eq.1 ht
  unfold Event.Lawful at h
  rw [hs] at h
  exact ⟨h.1, h.2.makes_once, h.2.gone⟩

/-- Markets are settled in visits only, and made in turns only. -/
theorem Event.Lawful.writes (h : e.Lawful w journal dryRun) :
    (0 < settlements e.calls → ∃ row, e.isVisitOf row = true) ∧ (0 < makings e.calls → ∃ row, e.isTurnOf row = true) := by
  have hnone : ∀ {n : Nat} {P : Prop}, n = 0 → 0 < n → P := fun hz hpos => absurd hz (Nat.ne_of_gt hpos)
  unfold Event.Lawful at h
  cases hs : e.subject with
  | edit =>
    rw [hs] at h
    exact ⟨hnone h.1.settlements, hnone h.1.makings⟩
  | request row =>
    rw [hs] at h
    exact ⟨hnone h.2.settlements, fun _ => ⟨row, beq_iff_eq.2 hs⟩⟩
  | market row refresh now =>
    rw [hs] at h
    obtain ⟨market, h⟩ := h
    exact ⟨fun _ => ⟨row, by rw [Event.isVisitOf, hs]; exact beq_self_eq_true row⟩, hnone h.settles.makings⟩

end

/-- No market is settled twice for one row. -/
theorem Told.settlements_of_row (h : Told w journal dryRun events calls store store') (row : Int) :
    ((events.filter (·.isVisitOf row)).map fun e => settlements e.calls).sum ≤ 1 := by
  have hvisit : ∀ e ∈ events.filter (·.isVisitOf row), e.before.row? row ≠ none ∧ settlements e.calls ≤ 1 ∧
      (0 < settlements e.calls → e.after.row? row = none) := fun e he =>
    (h.lawful e (List.mem_filter.1 he).1).visit (List.mem_filter.1 he).2
  have hlater := (h.passes.pairwise_events fun e he => (h.lawful e he).changes).filter (·.isVisitOf row)
  refine (sum_le_one_iff fun e he => (hvisit e he).2.1).2 (hlater.imp_of_mem fun {e e'} he he' hf hpos _ => ?_)
  -- the row of a settled market is gone, and no later visit can find it
  have hchanges := (h.lawful e (List.mem_filter.1 he).1).changes
  exact (hvisit e' he').1 (stays_gone hchanges.follows.markets hf.markets (hvisit e he).1 ((hvisit e he).2.2 hpos))

/-- No market is made twice for one row. -/
theorem Told.makings_of_row (h : Told w journal dryRun events calls store store') (row : Int) :
    ((events.filter (·.isTurnOf row)).map fun e => makings e.calls).sum ≤ 1 := by
  have hturn : ∀ e ∈ events.filter (·.isTurnOf row), e.before.queued? row ≠ none ∧ makings e.calls ≤ 1 ∧
      (0 < makings e.calls → e.after.queued? row = none) := fun e he =>
    (h.lawful e (List.mem_filter.1 he).1).turn (List.mem_filter.1 he).2
  have hlater := (h.passes.pairwise_events fun e he => (h.lawful e he).changes).filter (·.isTurnOf row)
  refine (sum_le_one_iff fun e he => (hturn e he).2.1).2 (hlater.imp_of_mem fun {e e'} he he' hf hpos _ => ?_)
  have hchanges := (h.lawful e (List.mem_filter.1 he).1).changes
  exact (hturn e' he').1 (stays_gone hchanges.follows.pending hf.pending (hturn e he).1 ((hturn e he).2.2 hpos))

/-- Each row is written for at most once. While the store can be worked on, a run of cycles with any edits of the store
between them passes through its events; markets are settled in visits of their rows only, and made in turns of their
requests only. For each row of a market at most one resolution or cancellation succeeds, and for each row of the queue at
most one creation. Each event changes each table once at most, and every store follows all those before it: a number that
was given out denotes a row later only if it denoted one before. -/
theorem rows_written_once (w : World) (hopen : ∀ past, w.answer past .access = none) (journal dryRun : Bool)
    (steps : List RunStep) (past : List Call) (store : Store) :
    let events := runEvents (services journal) dryRun w past store steps
    ((runSteps (services journal) dryRun steps).Leads w past store fun _ calls store' =>
      Passes store events store' ∧
      settlements calls = (events.map fun e => settlements e.calls).sum ∧
      makings calls = (events.map fun e => makings e.calls).sum) ∧
    (∀ e ∈ events, (0 < settlements e.calls → ∃ row, e.isVisitOf row = true) ∧
      (0 < makings e.calls → ∃ row, e.isTurnOf row = true)) ∧
    (∀ row, ((events.filter (·.isVisitOf row)).map fun e => settlements e.calls).sum ≤ 1 ∧
      ((events.filter (·.isTurnOf row)).map fun e => makings e.calls).sum ≤ 1) ∧
    (∀ e ∈ events, e.before.Changes e.after) ∧ (store :: events.map (·.after)).Pairwise Store.Follows := by
  intro events
  have htold := runSteps_tells hopen journal dryRun steps past store
  have hchanges : ∀ e ∈ events, e.before.Changes e.after := fun e he => (Told.lawful htold e he).changes
  refine ⟨htold.mono fun _ _ _ h => ⟨h.passes, h.settled, h.made⟩, fun e he => (Told.lawful htold e he).writes,
    fun row => ⟨Told.settlements_of_row htold row, Told.makings_of_row htold row⟩, hchanges,
    Passes.pairwise (Told.passes htold) hchanges⟩

/-- A world that has room for one market: another one is made only after a market was settled. -/
def crowdedWorld : World where
  answer past
    | .create _ =>
      if past.any Call.settles then .ok ⟨"m", "", "Q?", .binary, none, none, false, [], none, false⟩ else .error (.ofText "")
    | q => obligingWorld.answer past q

/-- A market that is to be resolved, and a request for another one. -/
def settledBeforeMade : Store :=
  ⟨some (Table.empty.add (timedRow "1970-01-01T00:00:00Z")).2, some (Table.empty.add requestRow).2⟩

set_option maxRecDepth 4000 in
/-- The first cycle settles the market, and in the second one the request is granted. Over both of them each row is written
for once, and the market that is made has a number of its own. -/
theorem settledBeforeMade_written_once :
    let events := runEvents (services false) false crowdedWorld [] settledBeforeMade [.cycle true, .cycle true]
    (∀ past, crowdedWorld.answer past .access = none) ∧
      ((events.filter (·.isVisitOf 1)).map fun e => settlements e.calls).sum = 1 ∧
      ((events.filter (·.isTurnOf 1)).map fun e => makings e.calls).sum = 1 ∧
      (settledBeforeMade :: events.map (·.after)).Pairwise Store.Follows ∧
      (events.take 3).map (fun e => ((e.after.row? 1).isSome, (e.after.row? 2).isSome)) =
        [(true, false), (false, false), (false, true)] := by
  intro events
  have hopen : ∀ past, crowdedWorld.answer past .access = none := fun _ => rfl
  obtain ⟨-, -, honce, -, hfollows⟩ :=
    rows_written_once crowdedWorld hopen false false [.cycle true, .cycle true] [] settledBeforeMade
  obtain ⟨hsettled, hmade⟩ := honce 1
  -- what comes after the third event need not be looked at, since no row is written for twice
  have hfirst : (((events.take 3).filter (·.isVisitOf 1)).map fun e => settlements e.calls).sum = 1 ∧
      (((events.take 3).filter (·.isTurnOf 1)).map fun e => makings e.calls).sum = 1 ∧
      (events.take 3).map (fun e => ((e.after.row? 1).isSome, (e.after.row? 2).isSome)) =
        [(true, false), (false, false), (false, true)] := by
    decide +kernel
  have hsplit : ∀ (p : Event → Bool) (f : Event → Nat), ((events.filter p).map f).sum =
      (((events.take 3).filter p).map f).sum + (((events.drop 3).filter p).map f).sum := by
    intro p f
    rw [← List.sum_append, ← List.map_append, ← List.filter_append, List.take_append_drop]
  rw [hsplit] at hsettled hmade
  refine ⟨hopen, ?_, ?_, hfollows, hfirst.2.2⟩
  · rw [hsplit]
    omega
  · rw [hsplit]
    omega

end Arbiter
