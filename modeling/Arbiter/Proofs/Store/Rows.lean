import Arbiter.Proofs.SortedMap
import Arbiter.Store.Basic

/-!
# What work on the store does to its rows

* `Table.get?_remove`, `Table.get?_replace`, `Table.mem_toList`: the rows of a table after each change of one row.
* `Table.remove_comm`, `Table.remove_modify`: the order of two changes.
* `Store.run_loadMarkets`, `Store.run_updateMarket`, `Store.run_removeMarket`, `Store.run_insertMarket`,
  `Store.run_market?`, `Store.run_lastChecked`, `Store.run_countMarkets`, `Store.run_queueRequest`, `Store.run_loadPending`,
  `Store.run_removePending`, `Store.run_countPending`: what each piece of work answers, and what it leaves.
-/

namespace Arbiter

/-! ## Tables -/

namespace Table

variable {α : Type}

/-- The list of a table has its rows. -/
theorem mem_toList {t : Table α} {row : Int} {a : α} : (row, a) ∈ t.toList ↔ t.get? row = some a :=
  SortedMap.lookup_eq_some_iff.symm

/-- No row is there twice. -/
theorem nodup_toList (t : Table α) : (t.toList.map (·.1)).Nodup := t.rows.nodup_keys

theorem get?_remove (t : Table α) (row other : Int) :
    (t.remove row).get? other = if other = row then none else t.get? other := by
  unfold get? remove
  rw [SortedMap.lookup_filter]
  cases t.rows.lookup other with
  | none => simp
  | some a => by_cases h : other = row <;> simp [h]

/-- The table with one row only. -/
def only (t : Table α) (row : Int) : Table α where
  rows := t.rows.filter fun k _ => k = row
  last := t.last
  le_last := fun k h => t.le_last k (SortedMap.mem_keys_filter h)

theorem get?_only (t : Table α) (row other : Int) :
    (t.only row).get? other = if other = row then t.get? other else none := by
  unfold get? only
  rw [SortedMap.lookup_filter]
  cases t.rows.lookup other with
  | none => simp
  | some a => by_cases h : other = row <;> simp [h]

theorem get?_modify (t : Table α) (row other : Int) (f : α → α) :
    (t.modify row f).get? other = if other = row then (t.get? other).map f else t.get? other := by
  unfold get? modify
  rw [SortedMap.lookup_mapEntries]
  by_cases h : other = row
  · simp [h]
  · simp [h]

theorem get?_replace (t : Table α) (row other : Int) (a : α) :
    (t.replace row a).get? other = if other = row then (t.get? other).map (fun _ => a) else t.get? other :=
  get?_modify t row other _

theorem eq_of_rows {t t' : Table α} (hrows : t.rows.entries = t'.rows.entries) (hlast : t.last = t'.last) : t = t' := by
  obtain ⟨⟨_, _⟩, _, _⟩ := t
  obtain ⟨⟨_, _⟩, _, _⟩ := t'
  cases hrows
  cases hlast
  rfl

/-- Rows may be removed in any order. -/
theorem remove_comm (t : Table α) (row other : Int) : (t.remove row).remove other = (t.remove other).remove row := by
  refine eq_of_rows ?_ rfl
  simp only [remove, SortedMap.filter, List.filter_filter, Bool.and_comm]

/-- A row may be removed before another change. -/
theorem remove_modify (t : Table α) (row other : Int) (f : α → α) :
    (t.modify row f).remove other = (t.remove other).modify row f :=
  eq_of_rows List.filter_map rfl

/-- A row that was removed is not changed. -/
theorem modify_remove (t : Table α) (row : Int) (f : α → α) : (t.remove row).modify row f = t.remove row := by
  refine eq_of_rows ((List.map_congr_left fun e he => ?_).trans (List.map_id _)) rfl
  have hne : e.1 ≠ row := by simpa using (List.mem_filter.1 he).2
  simp [hne]

end Table

/-! ## Work on the store -/

namespace Store

/-- What is decoded and passes a test. -/
theorem exists_decoded {α : Type} {x : Decoded α} {p : α → Bool} (h : x.toOption.any p = true) :
    ∃ a, x = .ok a ∧ p a = true := by
  cases x with
  | ok a => exact ⟨a, rfl, h⟩
  | error _ => cases h

/-- What is found among rows are those that can be decoded. -/
theorem mem_found_decodeRows {α β : Type} {decode : α → Decoded β} {row : Int} {b : β} :
    ∀ {rows : List (Int × α)}, (row, b) ∈ (decodeRows decode rows).found ↔ ∃ a, (row, a) ∈ rows ∧ decode a = .ok b
  | [] => by simp [decodeRows]
  | (i, a) :: rest => by
    have ih : (row, b) ∈ (decodeRows decode rest).found ↔ ∃ a, (row, a) ∈ rest ∧ decode a = .ok b := mem_found_decodeRows
    simp only [decodeRows, List.mem_cons, Prod.mk.injEq, or_and_right, exists_or]
    cases hd : decode a with
    | ok value =>
      dsimp only
      rw [List.mem_cons, ih, Prod.mk.injEq]
      refine or_congr ⟨?_, ?_⟩ Iff.rfl
      · rintro ⟨rfl, rfl⟩
        exact ⟨a, ⟨rfl, rfl⟩, hd⟩
      · rintro ⟨a', ⟨rfl, rfl⟩, h⟩
        rw [hd] at h
        cases h
        exact ⟨rfl, rfl⟩
    | error fault =>
      dsimp only
      rw [ih]
      refine ⟨.inr, ?_⟩
      rintro (⟨a', ⟨rfl, rfl⟩, h⟩ | h)
      · rw [hd] at h
        cases h
      · exact h

theorem found_decodeRows_filter {α β : Type} (decode : α → Decoded β) (row : Int) : ∀ rows : List (Int × α),
    (decodeRows decode (rows.filter fun e => e.1 = row)).found =
      (decodeRows decode rows).found.filter fun e => e.1 = row
  | [] => rfl
  | (i, a) :: rest => by
    have ih := found_decodeRows_filter decode row rest
    by_cases hi : i = row <;> cases hd : decode a <;> simp [decodeRows, hi, hd, ih]

theorem found_decodeRows_sublist {α β : Type} (decode : α → Decoded β) : ∀ rows : List (Int × α),
    ((decodeRows decode rows).found.map (·.1)).Sublist (rows.map (·.1))
  | [] => .slnil
  | (i, a) :: rest => by
    have ih := found_decodeRows_sublist decode rest
    cases hd : decode a with
    | ok b =>
      simp only [decodeRows, hd]
      exact ih.cons_cons i
    | error _ =>
      simp only [decodeRows, hd]
      exact ih.cons i

/-- What a piece of work answers on a store, and the store after it. -/
def run {α : Type} (work : StoreM α) (store : Store) : Except StoreFault α × Store :=
  StateT.run (ExceptT.run work) store

/-- The markets of a store, its rows decoded one by one. -/
def decodedMarkets (table : Table MarketRow) : Loaded (Int × Market) :=
  decodeRows (fun kept => decodeText Market.shape Market.decode kept.text) table.toList

/-- The requests of a store, its rows decoded one by one, the greatest priority first. -/
def decodedPending (table : Table PendingRow) : Loaded (Int × PendingRow × CreationRequest) :=
  decodeRows decodePending (byPriority table.toList)

/-- The markets of a store that can be read, with their rows. -/
def readable (store : Store) : List (Int × Market) := store.markets.elim [] fun table => (decodedMarkets table).found

/-- The requests of a store that can be read. -/
def waiting (store : Store) : List PendingRequest :=
  store.pending.elim [] fun table =>
    (decodedPending table).found.map fun (row, kept, request) => ⟨row, kept.priority, kept.cost, request⟩

/-- No row is read twice. -/
theorem nodup_readable (store : Store) : (store.readable.map (·.1)).Nodup := by
  unfold readable
  cases store.markets with
  | none => exact .nil
  | some table => exact (found_decodeRows_sublist _ _).nodup table.nodup_toList

/-- The row of a market, readable or not. -/
def row? (store : Store) (row : Int) : Option MarketRow := store.markets.bind fun table => table.get? row

/-- The store with one of its markets only. -/
def only (store : Store) (row : Int) : Store :=
  { store with markets := store.markets.map fun table => table.only row }

theorem row?_only (store : Store) (row : Int) : (store.only row).row? row = store.row? row := by
  obtain ⟨markets, pending⟩ := store
  cases markets with
  | none => rfl
  | some table => simp [only, row?, Table.get?_only]

/-- A key that is not there is not found. -/
theorem lookup_eq_none_of_notMem {α : Type} {l : List (Int × α)} {row : Int} (h : row ∉ l.map (·.1)) :
    l.lookup row = none := List.lookup_eq_none_iff.2 fun _ he =>
  bne_iff_ne.2 fun heq => h (heq ▸ List.mem_map_of_mem he)

/-- Under one key there is what a look-up finds. -/
theorem filter_eq_lookup {α : Type} (row : Int) : ∀ {l : List (Int × α)}, (l.map (·.1)).Nodup →
    l.filter (fun e => e.1 = row) = ((l.lookup row).map fun a => (row, a)).toList
  | [], _ => rfl
  | (other, a) :: rest, h => by
    obtain ⟨hnot, hn⟩ := List.nodup_cons.1 h
    have ih := filter_eq_lookup row hn
    rw [List.lookup_cons]
    by_cases ho : row = other
    · subst ho
      rw [lookup_eq_none_of_notMem hnot] at ih
      simp [ih]
    · simp [ih, Ne.symm ho, beq_eq_false_iff_ne.2 ho]

/-- Of one row alone a market is read as from the whole store. -/
theorem readable_only (store : Store) (row : Int) :
    (store.only row).readable = ((store.readable.lookup row).map fun market => (row, market)).toList := by
  rw [← filter_eq_lookup row store.nodup_readable]
  obtain ⟨markets, pending⟩ := store
  cases markets with
  | none => rfl
  | some table => exact found_decodeRows_filter _ row table.toList

theorem run_loadMarkets : ∀ store : Store, run loadMarkets store =
    (store.markets.elim (.error (.missingTable .markets)) fun table => .ok (decodedMarkets table), store)
  | ⟨some _, _⟩ => rfl
  | ⟨none, _⟩ => rfl

theorem run_updateMarket (row : Int) (market : Market) : ∀ store : Store, run (updateMarket row market) store =
    (store.markets.elim (.error (.missingTable .markets)) fun _ => .ok (),
      { store with markets := store.markets.map fun table => table.replace row (rowOfMarket market) })
  | ⟨some _, _⟩ => rfl
  | ⟨none, _⟩ => rfl

theorem run_removeMarket (row : Int) : ∀ store : Store, run (removeMarket row) store =
    (store.markets.elim (.error (.missingTable .markets)) fun table => .ok (table.get? row).isSome,
      { store with markets := store.markets.map fun table => table.remove row })
  | ⟨some _, _⟩ => rfl
  | ⟨none, _⟩ => rfl

theorem run_insertMarket (market : Market) : ∀ store : Store, run (insertMarket market) store =
    (store.markets.elim (.error (.missingTable .markets)) fun table => .ok (table.add (rowOfMarket market)).1,
      { store with markets := store.markets.map fun table => (table.add (rowOfMarket market)).2 })
  | ⟨some _, _⟩ => rfl
  | ⟨none, _⟩ => rfl

/-- Work after work that answers goes on from its answer. -/
theorem run_bind {α β : Type} {work : StoreM α} (next : α → StoreM β) {store store' : Store} {a : α}
    (h : run work store = (.ok a, store')) : run (work >>= next) store = run (next a) store' := by
  unfold run at *
  rw [ExceptT.run_bind, StateT.run_bind, h]
  rfl

theorem run_marketTable (table : Table MarketRow) (pending : Option (Table PendingRow)) :
    run marketTable ⟨some table, pending⟩ = (.ok table, ⟨some table, pending⟩) := rfl

theorem run_market? (row : Int) : ∀ store : Store, run (market? row) store =
    (store.markets.elim (.error (.missingTable .markets)) fun table => (table.get? row).elim (.ok none) fun kept =>
      ((decodeText Market.shape Market.decode kept.text).mapError (.corrupt row)).map some, store)
  | ⟨some table, pending⟩ => by
    unfold market?
    rw [run_bind _ (run_marketTable table pending)]
    dsimp only [Option.elim_some]
    cases table.get? row with
    | none => rfl
    | some kept =>
      dsimp only [Option.elim_some]
      cases decodeText Market.shape Market.decode kept.text <;> rfl
  | ⟨none, _⟩ => rfl

theorem run_lastChecked (row : Int) : ∀ store : Store, run (lastChecked row) store =
    (store.markets.elim (.error (.missingTable .markets)) fun table =>
      (table.get? row).elim (.error (.missingRow row)) fun kept =>
        if kept.lastChecked.any isColumnNumber then .error (.numericCheck row)
        else .ok (kept.lastChecked.bind Instant.readExact?), store)
  | ⟨some table, pending⟩ => by
    unfold lastChecked
    rw [run_bind _ (run_marketTable table pending)]
    dsimp only [Option.elim_some]
    cases table.get? row with
    | none => rfl
    | some kept =>
      dsimp only [Option.elim_some]
      cases kept.lastChecked.any isColumnNumber <;> rfl
  | ⟨none, _⟩ => rfl

theorem run_countMarkets : ∀ store : Store, run countMarkets store =
    (store.markets.elim (.error (.missingTable .markets)) fun table => .ok table.size, store)
  | ⟨some _, _⟩ => rfl
  | ⟨none, _⟩ => rfl

theorem run_queueRequest (request : CreationRequest) (priority : Float) (cost : Int) : ∀ store : Store,
    run (queueRequest request priority cost) store =
      (store.pending.elim (.error (.missingTable .pending)) fun table => if priority.isNaN then .error .priority
          else .ok (table.add ⟨unsignedZero priority, cost, request.toJson.compact⟩).1,
        if priority.isNaN then store else { store with pending := store.pending.map fun table =>
          (table.add ⟨unsignedZero priority, cost, request.toJson.compact⟩).2 })
  | ⟨_, some _⟩ => by
    unfold queueRequest
    cases priority.isNaN <;> rfl
  | ⟨_, none⟩ => by
    unfold queueRequest
    cases priority.isNaN <;> rfl

theorem run_loadPending : ∀ store : Store, run loadPending store =
    (store.pending.elim (.error (.missingTable .pending)) fun table =>
      .ok ⟨store.waiting, (decodedPending table).unreadable⟩, store)
  | ⟨_, some _⟩ => rfl
  | ⟨_, none⟩ => rfl

theorem run_removePending (row : Int) : ∀ store : Store, run (removePending row) store =
    (store.pending.elim (.error (.missingTable .pending)) fun table => .ok (table.get? row).isSome,
      { store with pending := store.pending.map fun table => table.remove row })
  | ⟨_, some _⟩ => rfl
  | ⟨_, none⟩ => rfl

theorem run_countPending : ∀ store : Store, run countPending store =
    (store.pending.elim (.error (.missingTable .pending)) fun table => .ok table.size, store)
  | ⟨_, some _⟩ => rfl
  | ⟨_, none⟩ => rfl

end Store

end Arbiter
