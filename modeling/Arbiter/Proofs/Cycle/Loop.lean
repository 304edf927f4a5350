import Arbiter.Proofs.Cycle.Visit

/-!
# The loop over the stored markets

A cycle visits the markets that can be read by ascending row number. No visit touches another row, and so the loop does
to each row what its visit does, at the place in the run where it comes.

* `Visited`: how a loop ends that visited each row. `processMarkets_visits`: the loop ends so, or one visit crashed.
* `checkAll_only`: with one row only in the store that row is visited first of all.
-/

namespace Arbiter

/-! ## The loop -/

theorem CycleSummary.add_assoc (a b c : CycleSummary) : a + b + c = a + (b + c) := by
  change CycleSummary.mk _ _ _ _ _ _ = CycleSummary.mk _ _ _ _ _ _
  simp only [CycleSummary.mk.injEq]
  exact ⟨Nat.add_assoc _ _ _, Nat.add_assoc _ _ _, Nat.add_assoc _ _ _, Nat.add_assoc _ _ _, Nat.add_assoc _ _ _,
    Nat.add_assoc _ _ _⟩

theorem CycleSummary.zero_add : ∀ a : CycleSummary, 0 + a = a
  | ⟨created, checked, resolved, cancelled, skipped, failed⟩ => by
    change CycleSummary.mk (0 + created) (0 + checked) (0 + resolved) (0 + cancelled) (0 + skipped) (0 + failed) = _
    simp only [Nat.zero_add]

theorem RowEffect.row?_apply (effect : RowEffect) (row other : Int) (store : Store) :
    (effect.apply row store).row? other =
      if other = row then (store.row? other).bind fun kept => effect.row kept else store.row? other := by
  obtain ⟨markets, pending⟩ := store
  cases effect with
  | keep =>
    change Store.row? _ _ = if other = row then (Store.row? _ _).bind some else _
    rw [Option.bind_fun_some, ite_self]
    rfl
  | remove =>
    cases markets with
    | none => simp [apply, Store.row?]
    | some table => by_cases h : other = row <;> simp [apply, Store.row?, Table.get?_remove, RowEffect.row, h]
  | rewrite market =>
    cases markets with
    | none => simp [apply, Store.row?]
    | some table =>
      by_cases h : other = row
      · cases hg : table.get? row <;> simp [apply, Store.row?, Table.get?_replace, RowEffect.row, h, hg]
      · simp [apply, Store.row?, Table.get?_replace, h]

/-- The queue is not touched. -/
theorem RowEffect.pending_apply (effect : RowEffect) (row : Int) (store : Store) :
    (effect.apply row store).pending = store.pending := by
  cases effect <;> rfl

/-- There is a table of markets as long as there was one. -/
theorem RowEffect.markets_apply (effect : RowEffect) (row : Int) {store : Store} {table : Table MarketRow}
    (hm : store.markets = some table) : ∃ table', (effect.apply row store).markets = some table' := by
  cases effect with
  | keep => exact ⟨table, hm⟩
  | remove => exact ⟨table.remove row, congrArg (Option.map _) hm⟩
  | rewrite market => exact ⟨table.replace row (Store.rowOfMarket market), congrArg (Option.map _) hm⟩

/-- What becomes of a row where the loop goes over some markets: nothing if it is not among them. -/
def visitRow (w : World) (journal dryRun refresh : Bool) (now : Instant) (past : List Call) (rows : List (Int × Market))
    (row : Int) : Except Crash (RowEffect × CycleSummary) :=
  match rows.lookup row with
  | none => .ok (.keep, 0)
  | some market => visit w journal dryRun refresh now past market

section

variable {w w' : World} {past past' : List Call} {store : Store} (journal dryRun refresh : Bool) (now : Instant)

theorem visitRow_eq (h : Alike w w' past past') (rows : List (Int × Market)) (row : Int) :
    visitRow w journal dryRun refresh now past rows row = visitRow w' journal dryRun refresh now past' rows row := by
  unfold visitRow
  split
  · rfl
  · exact visit_eq h journal dryRun refresh now _

theorem visitRow_cons (row : Int) (market : Market) (rest : List (Int × Market)) (other : Int) :
    visitRow w journal dryRun refresh now past ((row, market) :: rest) other =
      if other = row then visit w journal dryRun refresh now past market
      else visitRow w journal dryRun refresh now past rest other := by
  unfold visitRow
  rw [List.lookup_cons]
  by_cases h : other = row
  · rw [if_pos h, beq_iff_eq.2 h]
  · rw [if_neg h, beq_eq_false_iff_ne.2 h]

theorem visitRow_of_notMem {rows : List (Int × Market)} {row : Int} (h : row ∉ rows.map (·.1)) :
    visitRow w journal dryRun refresh now past rows row = .ok (.keep, 0) := by
  unfold visitRow
  rw [Store.lookup_eq_none_of_notMem h]

/-- How a loop over rows ended that visited each row at its place: `part` says what became of it and what was counted. -/
structure Visited (w : World) (journal dryRun refresh : Bool) (now : Instant) (rows : List (Int × Market))
    (place : Int → List Call) (part : Int → RowEffect × CycleSummary) (store : Store) (summary : CycleSummary)
    (result : Except Crash CycleSummary) (store' : Store) : Prop where
  visits : ∀ row, visitRow w journal dryRun refresh now (place row) rows row = .ok (part row)
  counts : result = .ok (summary + (rows.map fun e => (part e.1).2).sum)
  row? : ∀ row, store'.row? row = (store.row? row).bind fun kept => (part row).1.row kept
  pending : store'.pending = store.pending

theorem visited_nil (past : List Call) (summary : CycleSummary) :
    Visited w journal dryRun refresh now [] (fun _ => past) (fun _ => (.keep, 0)) store summary (.ok summary) store where
  visits _ := rfl
  counts := rfl
  row? row := by cases store.row? row <;> rfl
  pending := rfl

/-- A loop that visits one row more before the others. -/
theorem Visited.cons {row : Int} {market : Market} {rest : List (Int × Market)} {place : Int → List Call}
    {part : Int → RowEffect × CycleSummary} {first : RowEffect × CycleSummary} {summary : CycleSummary}
    {result : Except Crash CycleSummary} {store' : Store} (hnot : row ∉ rest.map (·.1))
    (hv : visit w journal dryRun refresh now past market = .ok first)
    (h : Visited w journal dryRun refresh now rest place part (first.1.apply row store) (summary + first.2) result
      store') :
    Visited w journal dryRun refresh now ((row, market) :: rest) (Function.update place row past)
      (Function.update part row first) store summary result store' where
  visits other := by
    rw [visitRow_cons]
    by_cases ho : other = row
    · rw [if_pos ho, ho, Function.update_self, Function.update_self, hv]
    · rw [if_neg ho, Function.update_of_ne ho, Function.update_of_ne ho, h.visits]
  counts := by
    have hrest : (rest.map fun e => (Function.update part row first e.1).2) = rest.map fun e => (part e.1).2 :=
      List.map_congr_left fun e he => by
        have hne : e.1 ≠ row := fun heq => hnot (heq ▸ List.mem_map_of_mem he)
        rw [Function.update_of_ne hne]
    rw [h.counts, List.map_cons, List.sum_cons, Function.update_self, hrest, CycleSummary.add_assoc]
  row? other := by
    rw [h.row?, RowEffect.row?_apply]
    by_cases ho : other = row
    · have hkeep : (part row).1 = .keep := by
        have hp := h.visits row
        rw [visitRow_of_notMem journal dryRun refresh now hnot] at hp
        exact congrArg Prod.fst (Except.ok.inj hp).symm
      rw [if_pos ho, ho, Function.update_self, hkeep]
      exact Option.bind_fun_some _
    · rw [if_neg ho, Function.update_of_ne ho]
  pending := h.pending.trans (first.1.pending_apply row store)

/-- The loop visits one row after another, each at its place in the run, or crashes in one of these visits. -/
theorem processMarkets_visits (hopen : ∀ past, w.answer past .access = none) :
    ∀ (rows : List (Int × Market)) (past : List Call) (store : Store) (table : Table MarketRow) (summary : CycleSummary),
      store.markets = some table → (rows.map (·.1)).Nodup →
      (processMarkets (services journal) dryRun refresh now summary rows).Leads w past store fun result calls store' =>
        ∃ place : Int → List Call, (∀ row, place row <+: past ++ calls) ∧
          ((result = .error .outOfRange ∧
              ∃ row, visitRow w journal dryRun refresh now (place row) rows row = .error .outOfRange) ∨
            ∃ part, Visited w journal dryRun refresh now rows place part store summary result store')
  | [], past, _, _, summary, _, _ =>
    ⟨fun _ => past, fun _ => List.prefix_append _ _, .inr ⟨_, visited_nil journal dryRun refresh now past summary⟩⟩
  | (row, market) :: rest, past, store, table, summary, hm, hn => by
    obtain ⟨hnot, hn⟩ := List.nodup_cons.1 hn
    -- the first row is visited after `past`, the others where the rest of the loop comes to them
    have hfirst := processMarket_visits hopen hm journal dryRun refresh now past summary row market
    cases hv : visit w journal dryRun refresh now past market with
    | error crash =>
      rw [hv] at hfirst
      refine hfirst.bind (fun _ _ _ h => by cases h.1) fun _ calls _ h => ?_
      refine ⟨fun _ => past, fun _ => List.prefix_append _ _, .inl ⟨h.1, row, ?_⟩⟩
      rw [visitRow_cons, if_pos rfl, hv]
    | ok first =>
      rw [hv] at hfirst
      refine hfirst.bind (fun summary' calls store' h => ?_) fun _ _ _ h => by cases h.1
      obtain ⟨hs, rfl⟩ := h
      cases hs
      obtain ⟨table', hm'⟩ := first.1.markets_apply row hm
      refine (processMarkets_visits hopen rest (past ++ calls) _ table' _ hm' hn).mono fun result more store' h => ?_
      obtain ⟨place, hplace, h⟩ := h
      refine ⟨Function.update place row past, fun other => ?_, ?_⟩
      · rw [← List.append_assoc]
        by_cases ho : other = row
        · rw [ho, Function.update_self, List.append_assoc]
          exact List.prefix_append _ _
        · rw [Function.update_of_ne ho]
          exact hplace other
      · rcases h with ⟨hr, other, hc⟩ | ⟨part, hpart⟩
        · have ho : other ≠ row := fun ho => by
            rw [ho, visitRow_of_notMem journal dryRun refresh now hnot] at hc
            cases hc
          refine .inl ⟨hr, other, ?_⟩
          rw [Function.update_of_ne ho, visitRow_cons, if_neg ho, hc]
        · exact .inr ⟨_, hpart.cons journal dryRun refresh now hnot hv⟩

/-! ## One row alone -/

/-- While the store can be worked on, the checks of a cycle are the loop over the markets that can be read. -/
theorem checkAll_leads (hopen : ∀ past, w.answer past .access = none) {table : Table MarketRow}
    (hm : store.markets = some table) {created : Nat}
    {Q : Except Crash (Except Failure CycleSummary) → List Call → Store → Prop}
    (h : (processMarkets (services journal) dryRun refresh now { created } store.readable).Leads w
      (past ++ [⟨.access, none⟩]) store fun result calls store' => Q (result.map .ok) (⟨.access, none⟩ :: calls) store') :
    (checkAll (services journal) dryRun refresh now created).Leads w past store Q := by
  have hrows : store.readable = (Store.decodedMarkets table).found := by rw [Store.readable, hm]; rfl
  unfold checkAll
  rw [CycleM.leads_call_bind, Course.leads_load, hopen, Store.run_loadMarkets, hm]
  rw [hrows] at h
  refine CycleM.Leads.bind h (fun summary calls store' hq => ?_) fun crash calls store' hq => hq
  change Q _ (_ ++ (calls ++ [])) _
  rw [List.append_nil]
  exact hq

/-- What the checks of a cycle come to on a store with one row only. -/
def VisitedAlone (row : Int) (store : Store) (visited : Except Crash (RowEffect × CycleSummary))
    (result : Except Crash (Except Failure CycleSummary)) (store' : Store) : Prop :=
  match visited with
  | .error crash => result = .error crash
  | .ok (effect, count) => result = .ok (.ok count) ∧ store'.row? row = (store.row? row).bind fun kept => effect.row kept

/-- Alone in the store a row is visited first of all, as after any calls from where the world answers alike. -/
theorem checkAll_only (h : Alike w w' past' (past ++ [⟨.access, none⟩])) (hopen : ∀ past, w'.answer past .access = none)
    {table : Table MarketRow} (hm : store.markets = some table) (row : Int) :
    (checkAll (services journal) dryRun refresh now 0).Leads w' past (store.only row) fun result _ store' =>
      VisitedAlone row store (visitRow w journal dryRun refresh now past' store.readable row) result store' := by
  rw [visitRow_eq journal dryRun refresh now h]
  have honly : (store.only row).markets = some (table.only row) := congrArg (Option.map _) hm
  refine checkAll_leads journal dryRun refresh now hopen honly ?_
  rw [Store.readable_only]
  unfold visitRow
  cases store.readable.lookup row with
  | none =>
    refine CycleM.leads_pure.2 ⟨rfl, ?_⟩
    rw [Store.row?_only]
    exact (Option.bind_fun_some _).symm
  | some market =>
    have hfirst := processMarket_visits hopen honly journal dryRun refresh now (past ++ [⟨.access, none⟩]) 0 row market
    dsimp only
    cases hv : visit w' journal dryRun refresh now (past ++ [⟨.access, none⟩]) market with
    | error crash =>
      rw [hv] at hfirst
      exact CycleM.Leads.bind hfirst (fun _ _ _ h => by cases h.1) fun _ _ _ h => congrArg (Except.map Except.ok) h.1
    | ok first =>
      rw [hv] at hfirst
      refine CycleM.Leads.bind hfirst (fun summary calls store' h => ?_) fun _ _ _ h => by cases h.1
      obtain ⟨hs, rfl⟩ := h
      refine CycleM.leads_pure.2 ⟨?_, ?_⟩
      · rw [hs, CycleSummary.zero_add]
        rfl
      · rw [RowEffect.row?_apply, if_pos rfl, Store.row?_only]

end

end Arbiter
