import Arbiter.Proofs.Cycle.Loop
import Arbiter.Proofs.Cycle.Polling

/-!
# Every row for itself

In a world that answers by the question alone, a cycle treats each stored row as if that row were alone in the store, as
long as none of them makes it crash. The words that rules draw by chance are the ones drawn for the row in the cycle.

* `RowFate`: what becomes of a stored row, and what is counted for it.
* `World.Steady`: a world that answers by the question alone and lets the store be worked on.
* `rows_independent`: a cycle does to each row what it does to that row alone, and adds up what it counts.
-/

namespace Arbiter

/-! ## What becomes of a row -/

theorem isFinished_iff (dryRun : Bool) (market : Market) (state : CheckState) :
    isFinished dryRun market state = true ↔
      (state = .resolved ∨ state = .cancelled) ∧ (dryRun = false ∨ market.snapshot.isResolved = true) := by
  unfold isFinished
  cases dryRun <;> simp

/-- A row that keeps the record of this market. -/
def MarketRow.Keeps (kept : MarketRow) (market : Market) : Prop :=
  decodeText Market.shape Market.decode kept.text = .ok market

/-- What becomes of a stored row that is dealt with after some calls, and what is counted for it. -/
inductive RowFate (w : World) (journal dryRun refresh : Bool) (now : Instant) (past : List Call) (kept : MarketRow) :
    Option MarketRow → CycleSummary → Prop
  | unreadable (hk : ∀ market, ¬kept.Keeps market) : RowFate w journal dryRun refresh now past kept (some kept) 0
  | waiting {market : Market} (hk : kept.Keeps market) (hr : refresh = false) (hd : market.isDue now = some false) :
      RowFate w journal dryRun refresh now past kept (some kept) 0
  | failed {market after : Market} {failure : Failure} (hk : kept.Keeps market)
      (hd : refresh = true ∨ market.isDue now = some true)
      (hc : checkOutcome w journal dryRun refresh now past market = .ok (.error failure, after)) :
      RowFate w journal dryRun refresh now past kept (some kept) { checked := 1, failed := 1 }
  | finished {market after : Market} {state : CheckState} {fresh : Snapshot} (hk : kept.Keeps market)
      (hd : refresh = true ∨ market.isDue now = some true)
      (hs : w.answer past (.snapshot market.snapshot.id) = .ok fresh)
      (hc : checkOutcome w journal dryRun refresh now past market = .ok (.ok state, after))
      (hf : (state = .resolved ∨ state = .cancelled) ∧ (dryRun = false ∨ fresh.isResolved = true)) :
      RowFate w journal dryRun refresh now past kept none (CycleSummary.countState { checked := 1 } state)
  | rewritten {market after : Market} {state : CheckState} {fresh : Snapshot} (hk : kept.Keeps market)
      (hd : refresh = true ∨ market.isDue now = some true)
      (hs : w.answer past (.snapshot market.snapshot.id) = .ok fresh)
      (hc : checkOutcome w journal dryRun refresh now past market = .ok (.ok state, after))
      (hf : ¬((state = .resolved ∨ state = .cancelled) ∧ (dryRun = false ∨ fresh.isResolved = true))) :
      RowFate w journal dryRun refresh now past kept
        (some (Store.rowOfMarket { market with snapshot := fresh, lastChecked := some now }))
        (CycleSummary.countState { checked := 1 } state)

section

variable {w : World} {past : List Call} {store : Store} {journal dryRun refresh : Bool} {now : Instant}

/-- A row that keeps a market meets its fate in the visit of that market. -/
theorem rowFate_of_visit {kept : MarketRow} {market : Market} (hk : kept.Keeps market) {part : RowEffect × CycleSummary}
    (h : visit w journal dryRun refresh now past market = .ok part) :
    RowFate w journal dryRun refresh now past kept (part.1.row kept) part.2 := by
  unfold visit at h
  split at h
  · cases h
  · rename_i hd
    cases h
    cases refresh with
    | true => cases hd
    | false => exact .waiting hk rfl hd
  · rename_i hd
    have hdue : refresh = true ∨ market.isDue now = some true := by
      cases refresh with
      | true => exact .inl rfl
      | false => exact .inr hd
    split at h
    · cases h
    · rename_i failure after hc
      cases h
      exact .failed hk hdue hc
    · rename_i state after hc
      cases h
      obtain ⟨fresh, hs, hafter⟩ := checkOutcome_market hdue hc
      have hfresh : after.snapshot = fresh := by
        rcases hafter with ⟨rfl, -⟩ | rfl <;> rfl
      have hiff := isFinished_iff dryRun after state
      rw [hfresh] at hiff
      by_cases hf : isFinished dryRun after state = true
      · rw [if_pos hf]
        exact .finished hk hdue hs hc (hiff.1 hf)
      · rw [if_neg hf]
        -- a market found resolved would be finished, so this one was marked as checked
        have hafter : after = { market with snapshot := fresh, lastChecked := some now } := by
          rcases hafter with ⟨-, hstate, hres⟩ | h
          · exact absurd (hiff.2 ⟨.inl hstate, .inr hres⟩) hf
          · exact h
        rw [hafter] at hc ⊢
        exact .rewritten hk hdue hs hc fun h => hf (hiff.2 h)

/-- What becomes of a stored row where the loop goes over the markets of its store. -/
theorem rowFate_of_visitRow {table : Table MarketRow} (hm : store.markets = some table) {row : Int} {kept : MarketRow}
    (hk : store.row? row = some kept) {part : RowEffect × CycleSummary}
    (h : visitRow w journal dryRun refresh now past store.readable row = .ok part) :
    RowFate w journal dryRun refresh now past kept (part.1.row kept) part.2 := by
  have hget : table.get? row = some kept := by
    rw [Store.row?, hm] at hk
    exact hk
  have hrows : store.readable = (Store.decodedMarkets table).found := by rw [Store.readable, hm]; rfl
  unfold visitRow at h
  cases hl : store.readable.lookup row with
  | none =>
    rw [hl] at h
    cases h
    refine .unreadable fun market hkeeps => ?_
    have hmem : (row, market) ∈ store.readable :=
      hrows ▸ Store.mem_found_decodeRows.2 ⟨kept, Table.mem_toList.2 hget, hkeeps⟩
    exact absurd rfl (bne_iff_ne.1 (List.lookup_eq_none_iff.1 hl _ hmem))
  | some market =>
    rw [hl] at h
    have hmem : (row, market) ∈ store.readable := by
      obtain ⟨before, rest, heq, -⟩ := List.lookup_eq_some_iff.1 hl
      rw [heq]
      exact List.mem_append_right _ List.mem_cons_self
    rw [hrows] at hmem
    obtain ⟨kept', hin, hkeeps⟩ := Store.mem_found_decodeRows.1 hmem
    have hsame : kept' = kept := Option.some.inj ((Table.mem_toList.1 hin).symm.trans hget)
    exact rowFate_of_visit (hsame ▸ hkeeps) h

end

/-- Where some of the rows count for nothing, the others count for all. -/
theorem sum_of_sublist {f : Int → CycleSummary} {some all : List Int} (h : some.Sublist all) :
    all.Nodup → (∀ row ∈ all, row ∉ some → f row = 0) → (all.map f).sum = (some.map f).sum := by
  induction h with
  | slnil => exact fun _ _ => rfl
  | cons row hsub ih =>
    intro hn hz
    obtain ⟨hnot, hn⟩ := List.nodup_cons.1 hn
    have hrow : f row = 0 := hz row List.mem_cons_self fun hin => hnot (hsub.subset hin)
    rw [List.map_cons, List.sum_cons, hrow, CycleSummary.zero_add,
      ih hn fun other hin => hz other (List.mem_cons_of_mem _ hin)]
  | cons_cons row hsub ih =>
    intro hn hz
    obtain ⟨hnot, hn⟩ := List.nodup_cons.1 hn
    rw [List.map_cons, List.map_cons, List.sum_cons, List.sum_cons, ih hn fun other hin hout => ?_]
    refine hz other (List.mem_cons_of_mem _ hin) fun h => ?_
    rcases List.mem_cons.1 h with rfl | h
    · exact hnot hin
    · exact hout h

/-- The rows of a table count for what its readable rows count for. -/
theorem sum_readable {store : Store} {table : Table MarketRow} (hm : store.markets = some table) {f : Int → CycleSummary}
    (hz : ∀ row, row ∉ store.readable.map (·.1) → f row = 0) :
    (table.toList.map fun e => f e.1).sum = (store.readable.map fun e => f e.1).sum := by
  have hrows : store.readable = (Store.decodedMarkets table).found := by rw [Store.readable, hm]; rfl
  rw [hrows] at hz ⊢
  have h := sum_of_sublist (Store.found_decodeRows_sublist _ table.toList) table.nodup_toList fun row _ => hz row
  rw [List.map_map, List.map_map] at h
  exact h

/-! ## Worlds that answer by the question alone -/

/-- The world answers by the question alone, except that words are drawn by chance, and lets the store be worked on. -/
structure World.Steady (w : World) : Prop where
  same : ∀ past past' q, q.bears = true → q ≠ .entropy → w.answer past q = w.answer past' q
  opened : ∀ past, w.answer past .access = none

/-- The same world, but the words that it would draw after `place` are drawn after `start`. -/
def World.drawing (w : World) (start place : List Call) : World where
  answer past
    | .entropy => w.answer (place ++ past.drop start.length) .entropy
    | q => w.answer past q

theorem World.Steady.opened_drawing {w : World} (hw : w.Steady) (start place past : List Call) :
    (w.drawing start place).answer past .access = none := hw.opened past

theorem World.Steady.alike {w : World} (hw : w.Steady) (start place : List Call) :
    Alike w (w.drawing start place) place start := fun more q hq => by
  cases q with
  | entropy =>
    change _ = w.answer (place ++ (start ++ more).drop start.length) .entropy
    rw [List.drop_left]
  | _ => exact hw.same _ _ _ hq nofun

/-! ## Two rows -/

/-- A world that stands still, where every market is found resolved. -/
def settledWorld : World where
  answer past
    | .snapshot _ => .ok { (checkedOnce 1).snapshot with isResolved := true }
    | q => (World.still ⟨1709298000, 0⟩).answer past q

theorem settledWorld_steady : settledWorld.Steady where
  same _ _ q _ _ := by cases q <;> rfl
  opened _ := rfl

/-- A store with two rows. -/
def twoRows (first second : MarketRow) : Store where
  markets := some ((Table.empty.add first).2.add second).2
  pending := none

theorem twoRows_readable {first second : MarketRow} {market other : Market} (h : first.Keeps market)
    (h' : second.Keeps other) : (twoRows first second).readable = [(1, market), (2, other)] := by
  change (Store.decodeRows _ [(1, first), (2, second)]).found = _
  unfold MarketRow.Keeps at h h'
  simp only [Store.decodeRows, h, h']

/-- A market that is due is visited and goes. -/
theorem visit_settled {market : Market} {now : Instant} (hd : market.isDue now = some true) (past : List Call) :
    visit settledWorld false false false now past market = .ok (.remove, { checked := 1, resolved := 1 }) := by
  have hw : (isWanted market false now : CycleM Course Bool) = pure true := isWanted_of_wanted (.inr hd)
  unfold visit checkOutcome checkMarket
  rw [hw, hd]
  rfl

/-- Where the first row crashes the checks, a second one that is due stays in the store, though alone it would go. -/
theorem checkAll_twoRows {now : Instant} {first second : MarketRow} {market other : Market} (h : first.Keeps market)
    (h' : second.Keeps other) (hd : market.isDue now = none) (hd' : other.isDue now = some true) :
    (checkAll (services false) false false now 0).Leads settledWorld [] (twoRows first second) (fun result _ store' =>
      result = .error .outOfRange ∧ store'.row? 2 = some second) ∧
    (checkAll (services false) false false now 0).Leads settledWorld [] ((twoRows first second).only 2)
      (fun result _ store' => result = .ok (.ok { checked := 1, resolved := 1 }) ∧ store'.row? 2 = none) := by
  have hrows := twoRows_readable h h'
  constructor
  · refine checkAll_leads false false false now settledWorld_steady.opened rfl ?_
    rw [hrows, processMarkets, processMarket_misfit _ _ _ hd, CycleM.throw_bind]
    exact CycleM.leads_throw.2 ⟨rfl, rfl⟩
  · refine (checkAll_only false false false now (alike_refl settledWorld [⟨.access, none⟩]) settledWorld_steady.opened
      rfl 2).mono fun _ _ _ halone => ?_
    rw [hrows, visitRow_cons, if_neg (by decide), visitRow_cons, if_pos rfl, visit_settled hd'] at halone
    exact halone

/-- Each of two rows alone goes if both are due. -/
theorem checkAll_dueRow {now : Instant} {first second : MarketRow} {market other : Market} (h : first.Keeps market)
    (h' : second.Keeps other) (hd : market.isDue now = some true) (hd' : other.isDue now = some true) (place : List Call)
    (row : Int) :
    (checkAll (services false) false false now 0).Leads (settledWorld.drawing [⟨.access, none⟩] place) []
      ((twoRows first second).only row) fun result _ store' =>
        result = .ok (.ok (if row = 1 ∨ row = 2 then { checked := 1, resolved := 1 } else 0)) ∧
          store'.row? row = if row = 1 ∨ row = 2 then none else (twoRows first second).row? row := by
  refine (checkAll_only false false false now (settledWorld_steady.alike [⟨.access, none⟩] place)
    (settledWorld_steady.opened_drawing _ place) rfl row).mono fun _ _ _ halone => ?_
  rw [twoRows_readable h h', visitRow_cons, visit_settled hd, visitRow_cons, visit_settled hd'] at halone
  by_cases hfirst : row = 1
  · rw [if_pos hfirst] at halone
    rw [if_pos (.inl hfirst), if_pos (.inl hfirst)]
    exact ⟨halone.1, halone.2.trans (Option.bind_fun_none _)⟩
  · rw [if_neg hfirst] at halone
    by_cases hsecond : row = 2
    · rw [if_pos hsecond] at halone
      rw [if_pos (.inr hsecond), if_pos (.inr hsecond)]
      exact ⟨halone.1, halone.2.trans (Option.bind_fun_none _)⟩
    · rw [if_neg hsecond] at halone
      rw [if_neg (not_or_intro hfirst hsecond), if_neg (not_or_intro hfirst hsecond)]
      exact ⟨halone.1, halone.2.trans (Option.bind_fun_some _)⟩

/-- A market to be checked at a rate that was checked once. -/
def rowAtRate (rate : String) : MarketRow where
  text := "[[\"a\",\"\",\"A?\",\"BINARY\",null,null,false,[],null,false]," ++
    ("[[\"manifold.this.ThisMarketClosed\",\x7b\x7d]],[[\"manifold.this.RoundValueRule\",\x7b\x7d]]," ++
      (rate ++ ",\"2024-03-01T12:00:00Z\"]"))
  lastChecked := none

set_option maxRecDepth 4000 in
theorem seldomRow_keeps :
    ∃ market, (rowAtRate "5e9").Keeps market ∧ (market.isDue ⟨1709298000, 0⟩ == none) = true := by
  have ht : (rowAtRate "5e9").text = String.ofList _ ++ (String.ofList _ ++ (String.ofList _ ++ String.ofList _)) := rfl
  rw [← String.ofList_append, ← String.ofList_append, ← String.ofList_append] at ht
  refine Store.exists_decoded ?_
  rw [decodeText, Json.readAs?, ht, String.toList_ofList]
  decide +kernel

set_option maxRecDepth 4000 in
theorem hourlyRow_keeps :
    ∃ market, (rowAtRate "1").Keeps market ∧ (market.isDue ⟨1709298000, 0⟩ == some true) = true := by
  have ht : (rowAtRate "1").text = String.ofList _ ++ (String.ofList _ ++ (String.ofList _ ++ String.ofList _)) := rfl
  rw [← String.ofList_append, ← String.ofList_append, ← String.ofList_append] at ht
  refine Store.exists_decoded ?_
  rw [decodeText, Json.readAs?, ht, String.toList_ofList]
  decide +kernel

/-! ## Many rows -/

/-- A cycle treats every row as if it were alone in the store. In a world that answers by the question alone, and where
each row alone draws the words that it draws at its place in the cycle, the checks crash exactly if they crash on one of
the rows alone. Otherwise they leave each row as they leave it alone, and count the sum of what they count for each: a
row stays as it is where it cannot be read, is not due or its check fails, it goes where it is finished, and it is
written anew in all other cases. -/
theorem rows_independent {w : World} (hw : w.Steady) (journal dryRun refresh : Bool) (now : Instant) (created : Nat)
    (past : List Call) (store : Store) {table : Table MarketRow} (hm : store.markets = some table) :
    (checkAll (services journal) dryRun refresh now created).Leads w past store fun result calls store' =>
      ∃ place : Int → List Call, (∀ row, place row <+: past ++ calls) ∧
        ((result = .error .outOfRange ∧
            ∃ row, (checkAll (services journal) dryRun refresh now 0).Leads
              (w.drawing (past ++ [⟨.access, none⟩]) (place row)) past (store.only row) fun result _ _ =>
                result = .error .outOfRange) ∨
          ∃ (part : Int → CycleSummary) (after : Int → Option MarketRow),
            (∀ row, (checkAll (services journal) dryRun refresh now 0).Leads
              (w.drawing (past ++ [⟨.access, none⟩]) (place row)) past (store.only row) fun result _ store' =>
                result = .ok (.ok (part row)) ∧ store'.row? row = after row) ∧
            result = .ok (.ok ({ created } + (table.toList.map fun e => part e.1).sum)) ∧
            (∀ row, store'.row? row = after row) ∧
            store'.pending = store.pending ∧
            ∀ row kept, store.row? row = some kept →
              RowFate (w.drawing (past ++ [⟨.access, none⟩]) (place row)) journal dryRun refresh now
                (past ++ [⟨.access, none⟩]) kept (after row) (part row)) := by
  -- Alone a row is visited as at its place in the loop, since the world answers alike there.
  have halone : ∀ place row, (checkAll (services journal) dryRun refresh now 0).Leads
      (w.drawing (past ++ [⟨.access, none⟩]) place) past (store.only row) fun result _ store' =>
        VisitedAlone row store (visitRow w journal dryRun refresh now place store.readable row) result store' :=
    fun place row => checkAll_only journal dryRun refresh now (hw.alike _ place) (hw.opened_drawing _ place) hm row
  refine checkAll_leads journal dryRun refresh now hw.opened hm
    ((processMarkets_visits journal dryRun refresh now hw.opened _ _ store table { created } hm store.nodup_readable).mono
      fun result calls store' h => ?_)
  obtain ⟨place, hplace, h⟩ := h
  refine ⟨place, fun row => ?_, ?_⟩
  · rw [List.append_cons]
    exact hplace row
  · rcases h with ⟨rfl, row, hc⟩ | ⟨part, hpart⟩
    · refine .inl ⟨rfl, row, (halone (place row) row).mono fun result _ _ h => ?_⟩
      rw [hc] at h
      exact h
    · refine .inr ⟨fun row => (part row).2, fun row => (store.row? row).bind fun kept => (part row).1.row kept,
        fun row => (halone (place row) row).mono fun result _ _ h => ?_, ?_, hpart.row?, hpart.pending,
        fun row kept hk => ?_⟩
      · rw [hpart.visits] at h
        exact h
      · have hz : ∀ row, row ∉ store.readable.map (·.1) → (part row).2 = 0 := fun row hnot => by
          have hv := hpart.visits row
          rw [visitRow_of_notMem journal dryRun refresh now hnot] at hv
          exact congrArg Prod.snd (Except.ok.inj hv).symm
        rw [hpart.counts, sum_readable hm hz]
        rfl
      · have hv := hpart.visits row
        rw [visitRow_eq journal dryRun refresh now (hw.alike (past ++ [⟨.access, none⟩]) (place row))] at hv
        dsimp only
        rw [hk]
        exact rowFate_of_visitRow hm hk hv

/-- Two markets that are due both go, and each is counted. -/
theorem hourlyRows_add :
    let rows := twoRows (rowAtRate "1") (rowAtRate "1")
    settledWorld.Steady ∧ (checkAll (services false) false false ⟨1709298000, 0⟩ 3).Leads settledWorld [] rows
      fun result _ store' => result = .ok (.ok { created := 3, checked := 2, resolved := 2 }) ∧
        store'.row? 1 = none ∧ store'.row? 2 = none := by
  intro rows
  obtain ⟨market, hk, hdue⟩ := hourlyRow_keeps
  have halone := checkAll_dueRow hk hk (beq_iff_eq.1 hdue) (beq_iff_eq.1 hdue)
  refine ⟨settledWorld_steady, ?_⟩
  refine (rows_independent settledWorld_steady false false false ⟨1709298000, 0⟩ 3 [] rows rfl).mono
    fun result _ store' h => ?_
  obtain ⟨place, -, ⟨-, row, hcrash⟩ | ⟨part, after, hpart, rfl, hafter, -, -⟩⟩ := h
  · have hok := (halone (place row) row).1.symm.trans hcrash
    cases hok
  · have hone : ∀ row, row = 1 ∨ row = 2 → part row = { checked := 1, resolved := 1 } ∧ after row = none := by
      intro row hrow
      obtain ⟨hcount, hrest⟩ := hpart row
      obtain ⟨hcount', hrest'⟩ := halone (place row) row
      rw [if_pos hrow] at hcount' hrest'
      exact ⟨Except.ok.inj (Except.ok.inj (hcount.symm.trans hcount')), hrest.symm.trans hrest'⟩
    obtain ⟨hfirst, hfirst'⟩ := hone 1 (.inl rfl)
    obtain ⟨hsecond, hsecond'⟩ := hone 2 (.inr rfl)
    refine ⟨?_, (hafter 1).trans hfirst', (hafter 2).trans hsecond'⟩
    change Except.ok (Except.ok ({ created := 3 } + (part 1 + (part 2 + 0)))) = _
    rw [hfirst, hsecond]
    rfl

/-- A row that crashes the checks changes what happens to another one. -/
theorem rows_apart_of_crash :
    let rows := twoRows (rowAtRate "5e9") (rowAtRate "1")
    settledWorld.Steady ∧
    (checkAll (services false) false false ⟨1709298000, 0⟩ 0).Leads settledWorld [] rows
      (fun result _ store' => result = .error .outOfRange ∧ store'.row? 2 = some (rowAtRate "1")) ∧
    (checkAll (services false) false false ⟨1709298000, 0⟩ 0).Leads settledWorld [] (rows.only 2)
      (fun result _ store' => result = .ok (.ok { checked := 1, resolved := 1 }) ∧ store'.row? 2 = none) := by
  intro rows
  obtain ⟨seldom, hs, hnone⟩ := seldomRow_keeps
  obtain ⟨hourly, hh, htrue⟩ := hourlyRow_keeps
  exact ⟨settledWorld_steady, checkAll_twoRows hs hh (beq_iff_eq.1 hnone) (beq_iff_eq.1 htrue)⟩

end Arbiter
