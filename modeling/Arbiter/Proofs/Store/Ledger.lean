import Arbiter.Proofs.Double.Order
import Arbiter.Proofs.Market.RoundTrip
import Arbiter.Proofs.Store.Numbers
import Arbiter.Proofs.Text.Runs

/-!
# The store as a ledger

Whatever is done to a store, it answers as two books do that say nothing of texts and columns: numbered markets, and
numbered requests with their priorities and costs.

* `Book`: numbered entries, and all numbers that were ever given out. `Ledger`: the two books.
* `StoreOp`: what may be asked of a store. `Ledger.Does`: what a ledger answers, and the ledger after it.
* `Book.KeptIn`, `Ledger.KeptBy`: the tables keep the books, every entry as it is written.
* `Ledger.KeptBy.does`: one step. `Ledger.KeptBy.runs`: any number of steps.
* `answers_as_ledger`: from the empty store on, all answers are those of a ledger.
-/

namespace Arbiter

/-! ## Books -/

/-- Numbered entries, and all numbers that were ever given out. -/
structure Book (α : Type) where
  entry : Int → Option α
  used : Set Int

namespace Book

variable {α β : Type}

/-- The book that has not given out any number. -/
def empty : Book α := ⟨fun _ => none, ∅⟩

/-- The number is above all that were ever given out. -/
def Fresh (b : Book α) (row : Int) : Prop := ∀ other ∈ b.used, other < row

/-- The book with one more entry. -/
def add (b : Book α) (row : Int) (a : α) : Book α :=
  ⟨fun other => if other = row then some a else b.entry other, insert row b.used⟩

/-- The book with another entry in place of the one of a number. Nothing happens if there is none. -/
def replace (b : Book α) (row : Int) (a : α) : Book α :=
  { b with entry := fun other => if other = row then (b.entry other).map fun _ => a else b.entry other }

/-- The book without the entry of a number. -/
def remove (b : Book α) (row : Int) : Book α :=
  { b with entry := fun other => if other = row then none else b.entry other }

/-- The list has the entries of the book and nothing else, by ascending numbers. -/
structure Lists (b : Book α) (l : List (Int × α)) : Prop where
  mem_iff : ∀ row a, (row, a) ∈ l ↔ b.entry row = some a
  ascending : l.Pairwise fun x y => x.1 < y.1

end Book

/-- A request in the queue. -/
structure Queued where
  priority : Float
  cost : Int
  request : CreationRequest

/-- A queued request as it is answered: with the priority that it was queued with, a zero without its sign. -/
structure Queued.ShownAs (q : Queued) (p : PendingRequest) : Prop where
  same : (p.priority == q.priority) = true
  priority : p.priority = Store.unsignedZero q.priority
  cost : p.cost = q.cost
  request : p.request = q.request

/-- The list has the requests of the book and nothing else, the greatest priority first; with one priority the smaller
number comes first. -/
structure Book.Queues (b : Book Queued) (l : List PendingRequest) : Prop where
  mem_iff : ∀ p, p ∈ l ↔ ∃ q, b.entry p.row = some q ∧ q.ShownAs p
  ordered : l.Pairwise fun p q => q.priority < p.priority ∨ (p.priority == q.priority) = true ∧ p.row < q.row

/-! ## Ledgers -/

/-- A book of markets and a book of requests. -/
structure Ledger where
  markets : Book Market
  requests : Book Queued

/-- The ledger without entries. -/
def Ledger.empty : Ledger := ⟨.empty, .empty⟩

/-- What may be asked of a store. -/
inductive StoreOp where
  | insert (market : Market)
  | update (row : Int) (market : Market)
  | remove (row : Int)
  | get (row : Int)
  | load
  | count
  | lastChecked (row : Int)
  | queue (request : CreationRequest) (priority : Float) (cost : Int)
  | dequeue (row : Int)
  | pending
  | countPending
  | reopen

/-- What a store answers. -/
inductive StoreAnswer where
  | done
  | row (row : Int)
  | whether (b : Bool)
  | number (n : Nat)
  | market (found : Option Market)
  | markets (loaded : Loaded (Int × Market))
  | checked (time : Option Instant)
  | requests (loaded : Loaded PendingRequest)

/-- The work that is asked of a store. -/
def StoreOp.work : StoreOp → StoreM StoreAnswer
  | .insert market => StoreAnswer.row <$> Store.insertMarket market
  | .update row market => (fun _ => StoreAnswer.done) <$> Store.updateMarket row market
  | .remove row => StoreAnswer.whether <$> Store.removeMarket row
  | .get row => StoreAnswer.market <$> Store.market? row
  | .load => StoreAnswer.markets <$> Store.loadMarkets
  | .count => StoreAnswer.number <$> Store.countMarkets
  | .lastChecked row => StoreAnswer.checked <$> Store.lastChecked row
  | .queue request priority cost => StoreAnswer.row <$> Store.queueRequest request priority cost
  | .dequeue row => StoreAnswer.whether <$> Store.removePending row
  | .pending => StoreAnswer.requests <$> Store.loadPending
  | .countPending => StoreAnswer.number <$> Store.countPending
  | .reopen => (fun _ => StoreAnswer.done) <$> modify Store.reopen

namespace Ledger

/-- A step of a ledger: what it answers, and the ledger after it. -/
inductive Does : Ledger → StoreOp → Except StoreFault StoreAnswer → Ledger → Prop
  | insert {ledger : Ledger} {row : Int} (market : Market) (h : ledger.markets.Fresh row) :
      Does ledger (.insert market) (.ok (.row row)) { ledger with markets := ledger.markets.add row market }
  | update {ledger : Ledger} (row : Int) (market : Market) :
      Does ledger (.update row market) (.ok .done) { ledger with markets := ledger.markets.replace row market }
  | remove {ledger : Ledger} (row : Int) :
      Does ledger (.remove row) (.ok (.whether (ledger.markets.entry row).isSome))
        { ledger with markets := ledger.markets.remove row }
  | get {ledger : Ledger} (row : Int) : Does ledger (.get row) (.ok (.market (ledger.markets.entry row))) ledger
  | load {ledger : Ledger} {l : List (Int × Market)} (h : ledger.markets.Lists l) :
      Does ledger .load (.ok (.markets ⟨l, []⟩)) ledger
  | count {ledger : Ledger} {l : List (Int × Market)} (h : ledger.markets.Lists l) :
      Does ledger .count (.ok (.number l.length)) ledger
  | lastChecked {ledger : Ledger} {row : Int} {market : Market} (h : ledger.markets.entry row = some market) :
      Does ledger (.lastChecked row)
        (.ok (.checked (market.lastChecked.bind fun t => Instant.readExact? t.text))) ledger
  | notChecked {ledger : Ledger} {row : Int} (h : ledger.markets.entry row = none) :
      Does ledger (.lastChecked row) (.error (.missingRow row)) ledger
  | queue {ledger : Ledger} {row : Int} (request : CreationRequest) (priority : Float) (cost : Int)
      (h : ledger.requests.Fresh row) :
      Does ledger (.queue request priority cost) (.ok (.row row))
        { ledger with requests := ledger.requests.add row ⟨priority, cost, request⟩ }
  | dequeue {ledger : Ledger} (row : Int) :
      Does ledger (.dequeue row) (.ok (.whether (ledger.requests.entry row).isSome))
        { ledger with requests := ledger.requests.remove row }
  | pending {ledger : Ledger} {l : List PendingRequest} (h : ledger.requests.Queues l) :
      Does ledger .pending (.ok (.requests ⟨l, []⟩)) ledger
  | countPending {ledger : Ledger} {l : List (Int × Queued)} (h : ledger.requests.Lists l) :
      Does ledger .countPending (.ok (.number l.length)) ledger
  | reopen {ledger : Ledger} : Does ledger .reopen (.ok .done) ledger

/-- Steps one after the other. -/
inductive Runs : Ledger → List StoreOp → List (Except StoreFault StoreAnswer) → Ledger → Prop
  | nil {ledger : Ledger} : Runs ledger [] [] ledger
  | cons {ledger ledger' ledger'' : Ledger} {op : StoreOp} {ops : List StoreOp} {answer : Except StoreFault StoreAnswer}
      {answers : List (Except StoreFault StoreAnswer)} (h : Does ledger op answer ledger')
      (hrest : Runs ledger' ops answers ledger'') : Runs ledger (op :: ops) (answer :: answers) ledger''

end Ledger

/-- All answers of a store, and the store at last. -/
def Store.answers : List StoreOp → Store → List (Except StoreFault StoreAnswer) × Store
  | [], store => ([], store)
  | op :: ops, store =>
    ((run op.work store).1 :: (answers ops (run op.work store).2).1, (answers ops (run op.work store).2).2)

/-- Records that are to be kept are read back from their texts, and a priority is a number. -/
def StoreOp.Storable : StoreOp → Prop
  | .insert market | .update _ market => market.ReadsBack
  | .queue request priority _ => request.ReadsBack ∧ priority.isNaN = false
  | _ => True

/-! ## The column of last checks -/

namespace Instant

theorem isColumnBlank_of_isDigit {c : Char} (h : c.isDigit = true) : isColumnBlank c = false := by
  simp only [Char.isDigit, Bool.and_eq_true, decide_eq_true_eq, UInt32.le_iff_toNat_le] at h
  obtain ⟨hge, -⟩ := h
  change 48 ≤ c.toNat at hge
  have hspace : c ≠ ' ' := fun he => by
    subst he
    exact absurd hge (by decide)
  have hend : ¬c ≤ '\r' := fun hle => by
    have hle : c.toNat ≤ 13 := hle
    omega
  simp [isColumnBlank, hspace, hend]

/-- What begins with digits and goes on with a minus is no decimal. -/
theorem readDecimal?_digits_minus {digits : List Char} (h : ∀ c ∈ digits, c.isDigit = true) (hne : digits ≠ [])
    (rest : List Char) : readDecimal? (digits ++ '-' :: rest) = none := by
  have hminus : ∀ c ∈ ('-' :: rest).head?, c.isDigit = false := by
    rintro _ ⟨⟩
    rfl
  have hpower : readPowerOfTen? ('-' :: rest) = none := by simp [readPowerOfTen?]
  unfold readDecimal?
  rw [takeWhile_run h hminus, dropWhile_run h hminus]
  simp [hne, hpower]

theorem splitSign_of_isDigit {c : Char} (h : c.isDigit = true) (rest : List Char) :
    (splitSign (c :: rest)).2 = c :: rest := by
  unfold splitSign
  split
  case h_1 heq =>
    obtain ⟨rfl, -⟩ := List.cons.inj heq
    cases h
  case h_2 heq =>
    obtain ⟨rfl, -⟩ := List.cons.inj heq
    cases h
  case h_3 => rfl

/-- A text without blanks at its ends is not trimmed. -/
theorem isColumnNumber_eq {text : String} {first last : Char} {rest front : List Char} (hfirst : text.toList = first :: rest)
    (hlast : text.toList = front ++ [last]) (h : isColumnBlank first = false) (h' : isColumnBlank last = false) :
    isColumnNumber text = (readDecimal? (splitSign text.toList).2).isSome := by
  have hstart : text.toList.dropWhile isColumnBlank = text.toList := by
    rw [hfirst, List.dropWhile_cons_of_neg (by simp [h])]
  have hend : (text.toList.reverse.dropWhile isColumnBlank).reverse = text.toList := by
    rw [hlast, List.reverse_append, List.reverse_singleton, List.singleton_append,
      List.dropWhile_cons_of_neg (by simp [h'])]
    simp
  unfold isColumnNumber
  dsimp only
  rw [hstart, hend]

/-- A text of an instant begins with a digit or a sign; digits come next, and then a minus. -/
theorem exists_digits_text (t : Instant) : ∃ first more digits rest, t.text.toList = first :: more ∧
    isColumnBlank first = false ∧ (splitSign t.text.toList).2 = digits ++ '-' :: rest ∧
      (∀ c ∈ digits, c.isDigit = true) ∧ digits ≠ [] := by
  by_cases hyear : 0 ≤ t.date.year ∧ t.date.year ≤ 9999
  · have hdigits := isDigit_padded 4 t.date.year.toNat
    obtain ⟨c, more, hcons⟩ := List.exists_cons_of_ne_nil (padded_ne_nil 4 t.date.year.toNat)
    have hdigit : c.isDigit = true := hdigits c (hcons ▸ List.mem_cons_self)
    have htext : t.text.toList = c :: (more ++ t.textAfterYear) := by
      rw [toList_text, yearText, if_pos hyear, hcons, List.cons_append]
    refine ⟨c, _, _, t.textAfterYear.tail, htext, isColumnBlank_of_isDigit hdigit, ?_, hdigits, padded_ne_nil 4 _⟩
    rw [htext, splitSign_of_isDigit hdigit, hcons]
    rfl
  · obtain ⟨sign, hsign, htext⟩ := toList_text_signed hyear
    refine ⟨sign, _, _, t.textAfterYear.tail, htext, ?_, ?_, isDigit_padded 4 t.date.year.natAbs, padded_ne_nil 4 _⟩
    · rcases hsign with rfl | rfl <;> rfl
    · rw [htext]
      rcases hsign with rfl | rfl <;> rfl

/-- The text of an instant is no number to a column. -/
theorem isColumnNumber_text (t : Instant) : isColumnNumber t.text = false := by
  have hend : ∃ front, t.text.toList = front ++ ['0'] := by
    refine ⟨t.localText.toList ++ "+00:0".toList, ?_⟩
    rw [text, String.toList_append, List.append_assoc]
    rfl
  obtain ⟨front, hlast⟩ := hend
  obtain ⟨first, more, digits, rest, hfirst, hblank, hsplit, hdigits, hne⟩ := t.exists_digits_text
  rw [isColumnNumber_eq hfirst hlast hblank rfl, hsplit, readDecimal?_digits_minus hdigits hne]
  rfl

end Instant

/-! ## Tables that keep books -/

section

variable {α β : Type} {write : α → β} {Sound : α → Prop} {b : Book α} {t : Table β}

/-- The table has the entries of the book, each as it is written, and no number above its last one was given out. -/
structure Book.KeptIn (write : α → β) (Sound : α → Prop) (b : Book α) (t : Table β) : Prop where
  row : ∀ row, t.get? row = (b.entry row).map write
  sound : ∀ row a, b.entry row = some a → Sound a
  le_last : ∀ row ∈ b.used, row ≤ t.last

namespace Book.KeptIn

theorem empty (write : α → β) (Sound : α → Prop) : Book.empty.KeptIn write Sound Table.empty :=
  ⟨fun _ => rfl, fun _ _ h => absurd h nofun, fun _ h => absurd h id⟩

theorem fresh (h : b.KeptIn write Sound t) : b.Fresh (t.last + 1) := fun other hused =>
  Int.lt_add_one_of_le (h.le_last other hused)

theorem add (h : b.KeptIn write Sound t) {a : α} (ha : Sound a) :
    (b.add (t.last + 1) a).KeptIn write Sound (t.add (write a)).2 where
  row row := by
    unfold Book.add
    dsimp only
    split
    case isTrue hrow =>
      subst hrow
      exact SortedMap.lookup_insert_self t.rows _ _
    case isFalse hrow => exact (t.get?_add _ hrow).trans (h.row row)
  sound row a' hentry := by
    unfold Book.add at hentry
    dsimp only at hentry
    split at hentry
    case isTrue =>
      cases hentry
      exact ha
    case isFalse => exact h.sound row a' hentry
  le_last row hused := by
    rcases hused with rfl | hused
    · exact Int.le_refl _
    · exact Int.le_of_lt (h.fresh row hused)

theorem replace (h : b.KeptIn write Sound t) (row : Int) {a : α} (ha : Sound a) :
    (b.replace row a).KeptIn write Sound (t.replace row (write a)) where
  row other := by
    rw [t.get?_replace, h.row]
    unfold Book.replace
    dsimp only
    split
    case isTrue =>
      rw [Option.map_map, Option.map_map]
      rfl
    case isFalse => rfl
  sound other a' hentry := by
    unfold Book.replace at hentry
    dsimp only at hentry
    split at hentry
    case isTrue =>
      obtain ⟨-, -, rfl⟩ := Option.map_eq_some_iff.1 hentry
      exact ha
    case isFalse => exact h.sound other a' hentry
  le_last := h.le_last

theorem remove (h : b.KeptIn write Sound t) (row : Int) : (b.remove row).KeptIn write Sound (t.remove row) where
  row other := by
    rw [t.get?_remove, h.row]
    unfold Book.remove
    dsimp only
    split
    case isTrue => rfl
    case isFalse => rfl
  sound other a hentry := by
    unfold Book.remove at hentry
    dsimp only at hentry
    split at hentry
    case isTrue => cases hentry
    case isFalse => exact h.sound other a hentry
  le_last := h.le_last

/-- The rows of the table are the entries of the book, written. -/
theorem exists_lists (h : b.KeptIn write Sound t) :
    ∃ l, b.Lists l ∧ t.toList = l.map fun e => (e.1, write e.2) := by
  have hrows : ∀ rows : List (Int × β), (∀ e ∈ rows, e ∈ t.toList) →
      ∃ l : List (Int × α), (∀ e ∈ l, b.entry e.1 = some e.2) ∧ rows = l.map fun e => (e.1, write e.2) := by
    intro rows hsub
    induction rows with
    | nil => exact ⟨[], List.forall_mem_nil _, rfl⟩
    | cons e rest ih =>
      obtain ⟨hhead, hrest⟩ := List.forall_mem_cons.1 hsub
      obtain ⟨l, hl, hmap⟩ := ih hrest
      have hget := Table.mem_toList.1 hhead
      rw [h.row] at hget
      obtain ⟨a, ha, hwrite⟩ := Option.map_eq_some_iff.1 hget
      refine ⟨(e.1, a) :: l, List.forall_mem_cons.2 ⟨ha, hl⟩, ?_⟩
      rw [List.map_cons, hwrite, hmap]
  obtain ⟨l, hl, hmap⟩ := hrows t.toList fun _ he => he
  have hascending : l.Pairwise fun x y => x.1 < y.1 := by
    have hkeys := t.rows.ascending
    change t.toList.Pairwise _ at hkeys
    rw [hmap, List.pairwise_map] at hkeys
    exact hkeys.imp fun hlt => compare_lt_iff_lt.1 hlt
  refine ⟨l, ⟨fun row a => ⟨fun hmem => hl _ hmem, fun hentry => ?_⟩, hascending⟩, hmap⟩
  have hmem : (row, write a) ∈ t.toList := Table.mem_toList.2 (by rw [h.row, hentry]; rfl)
  rw [hmap] at hmem
  obtain ⟨e, he, heq⟩ := List.mem_map.1 hmem
  obtain ⟨rfl, -⟩ := Prod.mk.inj heq
  have hboth := hl e he
  rw [hentry] at hboth
  cases hboth
  exact he

end Book.KeptIn

end

/-! ## What tables are read as -/

theorem Table.size_eq {α β : Type} {t : Table β} {write : α → β} {l : List (Int × α)}
    (h : t.toList = l.map fun e => (e.1, write e.2)) : t.size = l.length :=
  (congrArg List.length h).trans (List.length_map _)

namespace Store

/-- Rows that were written are all decoded. -/
theorem decodeRows_written {α β γ : Type} (write : α → β) (decode : β → Decoded γ) (f : α → γ) :
    ∀ {l : List (Int × α)}, (∀ e ∈ l, decode (write e.2) = .ok (f e.2)) →
      decodeRows decode (l.map fun e => (e.1, write e.2)) = ⟨l.map fun e => (e.1, f e.2), []⟩
  | [], _ => rfl
  | (row, a) :: rest, h => by
    obtain ⟨hhead, hrest⟩ := List.forall_mem_cons.1 h
    rw [List.map_cons, decodeRows, decodeRows_written write decode f hrest, hhead]
    rfl

end Store

/-- A request as it is kept. -/
def Queued.row (q : Queued) : PendingRow := ⟨Store.unsignedZero q.priority, q.cost, q.request.toJson.compact⟩

/-- A request whose record is read back, and whose priority is a number. -/
def Queued.Sound (q : Queued) : Prop := q.request.ReadsBack ∧ q.priority.isNaN = false

/-- A queued request as it is answered. -/
def Queued.shown (row : Int) (q : Queued) : PendingRequest :=
  ⟨row, Store.unsignedZero q.priority, q.cost, q.request⟩

/-- The place of a row in the queue. -/
def rowKey (e : Int × PendingRow) : (ℤ ×ₗ ℤ ×ₗ ℤ)ᵒᵈ ×ₗ ℤ := toLex (OrderDual.toDual (rank e.2.priority), e.1)

/-- The place of an entry in the queue. -/
def queueKey (e : Int × Queued) : (ℤ ×ₗ ℤ ×ₗ ℤ)ᵒᵈ ×ₗ ℤ := toLex (OrderDual.toDual (rank e.2.priority), e.1)

theorem Queued.shownAs_shown {q : Queued} (h : q.Sound) (row : Int) : q.ShownAs (q.shown row) where
  same := (beq_iff_rank ((isNaN_unsignedZero _).trans h.2) h.2).2 (rank_unsignedZero _)
  priority := rfl
  cost := rfl
  request := rfl

theorem Queued.ShownAs.eq_shown {q : Queued} {p : PendingRequest} (h : q.ShownAs p) : p = q.shown p.row := by
  obtain ⟨row, priority, cost, request⟩ := p
  obtain ⟨-, hpriority, hcost, hrequest⟩ := h
  cases hpriority
  cases hcost
  cases hrequest
  rfl

/-- Whether a row stands before another one in the queue, as rows are compared. -/
def comesFirst (a b : Int × PendingRow) : Bool :=
  decide (b.2.priority < a.2.priority) || (a.2.priority == b.2.priority && decide (a.1 ≤ b.1))

/-- Rows are compared by their places. -/
theorem comesFirst_iff_rowKey {a b : Int × PendingRow} (ha : a.2.priority.isNaN = false)
    (hb : b.2.priority.isNaN = false) : comesFirst a b = decide (rowKey a ≤ rowKey b) := by
  unfold comesFirst rowKey
  rw [Bool.eq_iff_iff]
  simp only [Bool.or_eq_true, Bool.and_eq_true, decide_eq_true_eq, lt_iff_rank hb ha, beq_iff_rank ha hb,
    Prod.Lex.toLex_le_toLex, OrderDual.toDual_lt_toDual, OrderDual.toDual_inj]

/-- Sorted by a key that is linearly ordered, all stand by their keys. -/
theorem pairwise_mergeSort_key {β K : Type} [LinearOrder K] (key : β → K) (l : List β) :
    (l.mergeSort fun x y => decide (key x ≤ key y)).Pairwise fun x y => key x ≤ key y := by
  have hsorted : (l.mergeSort fun x y => decide (key x ≤ key y)).Pairwise fun x y => decide (key x ≤ key y) = true :=
    List.pairwise_mergeSort
      (fun x y z hxy hyz => by
        rw [decide_eq_true_eq] at *
        exact hxy.trans hyz)
      (fun x y => by
        rw [Bool.or_eq_true, decide_eq_true_eq, decide_eq_true_eq]
        exact le_total _ _) l
  exact hsorted.imp of_decide_eq_true

/-- Rows of a queue without priorities that are no numbers stand by their places. -/
theorem byPriority_ordered {rows : List (Int × PendingRow)} (h : ∀ e ∈ rows, e.2.priority.isNaN = false) :
    (Store.byPriority rows).Pairwise fun a b => rowKey a ≤ rowKey b := by
  have hsame : Store.byPriority rows = rows.mergeSort fun a b => decide (rowKey a ≤ rowKey b) := by
    have hmap := List.map_mergeSort (f := id) (r := comesFirst) (s := fun a b => decide (rowKey a ≤ rowKey b))
      fun a ha b hb => comesFirst_iff_rowKey (h a ha) (h b hb)
    rwa [List.map_id, List.map_id] at hmap
  rw [hsame]
  exact pairwise_mergeSort_key rowKey rows

/-- Of two rows with their places in order, and with two numbers, the first has the greater priority, or the same one and
the smaller number. -/
theorem ordered_of_rowKey {a b : Int × PendingRow} (ha : a.2.priority.isNaN = false) (hb : b.2.priority.isNaN = false)
    (hkey : rowKey a ≤ rowKey b) (hne : a.1 ≠ b.1) :
    b.2.priority < a.2.priority ∨ (a.2.priority == b.2.priority) = true ∧ a.1 < b.1 := by
  rw [lt_iff_rank hb ha, beq_iff_rank ha hb]
  rcases Prod.Lex.toLex_le_toLex.1 hkey with hlt | ⟨heq, hle⟩
  · exact .inl (OrderDual.toDual_lt_toDual.1 hlt)
  · exact .inr ⟨OrderDual.toDual_inj.1 heq, lt_of_le_of_ne hle hne⟩

theorem Queued.Sound.priority_row {q : Queued} (h : q.Sound) : q.row.priority.isNaN = false :=
  (isNaN_unsignedZero _).trans h.2

theorem rowKey_row (e : Int × Queued) : rowKey (e.1, e.2.row) = queueKey e := by
  unfold rowKey queueKey Queued.row
  rw [rank_unsignedZero]

/-- Entries are compared by their places. -/
theorem comesFirst_iff {a b : Int × Queued} (ha : a.2.Sound) (hb : b.2.Sound) :
    comesFirst (a.1, a.2.row) (b.1, b.2.row) = decide (queueKey a ≤ queueKey b) := by
  rw [comesFirst_iff_rowKey (a := (a.1, a.2.row)) (b := (b.1, b.2.row)) ha.priority_row hb.priority_row, rowKey_row,
    rowKey_row]

/-- The rows by priority are those of the entries by their places. -/
theorem byPriority_rows {l : List (Int × Queued)} (h : ∀ e ∈ l, e.2.Sound) :
    ∃ l' : List (Int × Queued), l'.Perm l ∧ (l'.Pairwise fun x y => queueKey x ≤ queueKey y) ∧
      Store.byPriority (l.map fun e => (e.1, e.2.row)) = l'.map fun e => (e.1, e.2.row) := by
  refine ⟨l.mergeSort fun x y => decide (queueKey x ≤ queueKey y), List.mergeSort_perm _ _, ?_, ?_⟩
  · exact pairwise_mergeSort_key queueKey l
  · exact (List.map_mergeSort fun x hx y hy => (comesFirst_iff (h x hx) (h y hy)).symm).symm

/-- Of two entries with their places in order, and with two numbers, the first one is answered first. -/
theorem shown_ordered {x y : Int × Queued} (hx : x.2.Sound) (hy : y.2.Sound) (hkey : queueKey x ≤ queueKey y)
    (hne : x.1 ≠ y.1) : (y.2.shown y.1).priority < (x.2.shown x.1).priority ∨
      ((x.2.shown x.1).priority == (y.2.shown y.1).priority) = true ∧ (x.2.shown x.1).row < (y.2.shown y.1).row := by
  rw [← rowKey_row, ← rowKey_row] at hkey
  exact ordered_of_rowKey (a := (x.1, x.2.row)) (b := (y.1, y.2.row)) hx.priority_row hy.priority_row hkey hne

theorem decodePending_row {q : Queued} (h : q.request.ReadsBack) : Store.decodePending q.row = .ok (q.row, q.request) := by
  unfold Store.decodePending
  rw [Queued.row, h]
  rfl

/-- The column of the last check never holds a number. -/
theorem Store.any_isColumnNumber_row (m : Market) : (rowOfMarket m).lastChecked.any isColumnNumber = false := by
  unfold rowOfMarket
  cases m.lastChecked with
  | none => rfl
  | some t =>
    rw [Option.map_some, Option.any_some]
    exact t.isColumnNumber_text

theorem Store.bind_readExact?_row (m : Market) :
    (rowOfMarket m).lastChecked.bind Instant.readExact? = m.lastChecked.bind fun t => Instant.readExact? t.text := by
  unfold rowOfMarket
  cases m.lastChecked with
  | none => rfl
  | some t => rfl

/-- A row of a table that keeps a book of markets is read as the entry of the book. -/
theorem Book.KeptIn.get_eq {b : Book Market} {t : Table MarketRow}
    (h : b.KeptIn Store.rowOfMarket Market.ReadsBack t) (row : Int) :
    ((t.get? row).elim (.ok none) fun kept =>
      ((decodeText Market.shape Market.decode kept.text).mapError (StoreFault.corrupt row)).map some) =
        .ok (b.entry row) := by
  rw [h.row]
  cases hentry : b.entry row with
  | none => rfl
  | some market =>
    have hread : decodeText Market.shape Market.decode (Store.rowOfMarket market).text = .ok market := h.sound row market hentry
    dsimp only [Option.map_some, Option.elim_some]
    rw [hread]
    rfl

/-- A table that keeps a book of markets is read as the list of the book. -/
theorem Book.KeptIn.decodedMarkets_eq {b : Book Market} {t : Table MarketRow}
    (h : b.KeptIn Store.rowOfMarket Market.ReadsBack t) {l : List (Int × Market)} (hl : b.Lists l)
    (ht : t.toList = l.map fun e => (e.1, Store.rowOfMarket e.2)) : Store.decodedMarkets t = ⟨l, []⟩ := by
  have hsound : ∀ e ∈ l, e.2.ReadsBack := fun e he => h.sound e.1 e.2 ((hl.mem_iff _ _).1 he)
  have hread := Store.decodeRows_written Store.rowOfMarket
    (fun kept => decodeText Market.shape Market.decode kept.text) id hsound
  have hid : l.map (fun e => (e.1, id e.2)) = l := List.map_id _
  unfold Store.decodedMarkets
  rw [ht, hread, hid]

/-- A table that keeps a book of requests is read as the queue of the book. -/
theorem Book.KeptIn.exists_queues {b : Book Queued} {t : Table PendingRow}
    (h : b.KeptIn Queued.row Queued.Sound t) (markets : Option (Table MarketRow)) :
    ∃ l, b.Queues l ∧ Store.waiting ⟨markets, some t⟩ = l ∧ (Store.decodedPending t).unreadable = [] := by
  obtain ⟨l, hl, ht⟩ := h.exists_lists
  have hsound : ∀ e ∈ l, e.2.Sound := fun e he => h.sound e.1 e.2 ((hl.mem_iff _ _).1 he)
  obtain ⟨l', hperm, hsorted, hrows⟩ := byPriority_rows hsound
  have hsound' : ∀ e ∈ l', e.2.Sound := fun e he => hsound e (hperm.mem_iff.1 he)
  have hdecoded : Store.decodedPending t = ⟨l'.map fun e => (e.1, e.2.row, e.2.request), []⟩ := by
    unfold Store.decodedPending
    rw [ht, hrows]
    exact Store.decodeRows_written Queued.row _ (fun q => (q.row, q.request)) fun e he => decodePending_row (hsound' e he).1
  have hdistinct : l'.Pairwise fun x y => x.1 ≠ y.1 :=
    (hperm.pairwise_iff fun {_ _} hne => hne.symm).2 (hl.ascending.imp fun hlt => Int.ne_of_lt hlt)
  refine ⟨l'.map fun e => e.2.shown e.1, ⟨fun p => ?_, ?_⟩, ?_, by rw [hdecoded]⟩
  · rw [List.mem_map]
    constructor
    · rintro ⟨e, he, rfl⟩
      exact ⟨e.2, (hl.mem_iff _ _).1 (hperm.mem_iff.1 he), Queued.shownAs_shown (hsound' e he) e.1⟩
    · rintro ⟨q, hentry, hshown⟩
      exact ⟨(p.row, q), hperm.mem_iff.2 ((hl.mem_iff _ _).2 hentry), hshown.eq_shown.symm⟩
  · rw [List.pairwise_map]
    refine (hsorted.and hdistinct).imp_of_mem fun {x y} hx hy ⟨hkey, hne⟩ => ?_
    exact shown_ordered (hsound' x hx) (hsound' y hy) hkey hne
  · change (Store.decodedPending t).found.map _ = _
    rw [hdecoded, List.map_map]
    rfl

/-! ## Steps -/

/-- The tables of the store keep the books of the ledger. -/
inductive Ledger.KeptBy : Ledger → Store → Prop
  | mk {ledger : Ledger} {markets : Table MarketRow} {pending : Table PendingRow}
      (hmarkets : ledger.markets.KeptIn Store.rowOfMarket Market.ReadsBack markets)
      (hrequests : ledger.requests.KeptIn Queued.row Queued.Sound pending) :
      KeptBy ledger ⟨some markets, some pending⟩

namespace Ledger

theorem keptBy_empty : Ledger.empty.KeptBy Store.empty := .mk (.empty _ _) (.empty _ _)

/-- Work with another answer made of its answer. -/
theorem run_map {α β : Type} (f : α → β) (work : StoreM α) (store : Store) :
    Store.run (f <$> work) store = ((Store.run work store).1.map f, (Store.run work store).2) := by
  unfold Store.run
  rw [ExceptT.run_map, StateT.run_map]
  rfl

/-- A store that keeps a ledger answers as the ledger, and keeps the ledger after the step. -/
theorem KeptBy.does {ledger : Ledger} {store : Store} (h : ledger.KeptBy store) {op : StoreOp} (hop : op.Storable) :
    ∃ ledger', ledger.Does op (Store.run op.work store).1 ledger' ∧ ledger'.KeptBy (Store.run op.work store).2 := by
  obtain ⟨hmarkets, hrequests⟩ := h
  cases op with
  | insert market =>
    rw [StoreOp.work, run_map, Store.run_insertMarket]
    exact ⟨_, .insert market hmarkets.fresh, .mk (hmarkets.add hop) hrequests⟩
  | update row market =>
    rw [StoreOp.work, run_map, Store.run_updateMarket]
    exact ⟨_, .update row market, .mk (hmarkets.replace row hop) hrequests⟩
  | remove row =>
    rw [StoreOp.work, run_map, Store.run_removeMarket]
    dsimp only [Option.elim_some]
    rw [hmarkets.row, Option.isSome_map]
    exact ⟨_, .remove row, .mk (hmarkets.remove row) hrequests⟩
  | get row =>
    rw [StoreOp.work, run_map, Store.run_market?]
    dsimp only [Option.elim_some]
    rw [hmarkets.get_eq row]
    exact ⟨_, .get row, .mk hmarkets hrequests⟩
  | load =>
    obtain ⟨l, hl, ht⟩ := hmarkets.exists_lists
    rw [StoreOp.work, run_map, Store.run_loadMarkets]
    dsimp only [Option.elim_some]
    rw [hmarkets.decodedMarkets_eq hl ht]
    exact ⟨_, .load hl, .mk hmarkets hrequests⟩
  | count =>
    obtain ⟨l, hl, ht⟩ := hmarkets.exists_lists
    rw [StoreOp.work, run_map, Store.run_countMarkets]
    dsimp only [Option.elim_some]
    rw [Table.size_eq ht]
    exact ⟨_, .count hl, .mk hmarkets hrequests⟩
  | lastChecked row =>
    rw [StoreOp.work, run_map, Store.run_lastChecked]
    dsimp only [Option.elim_some]
    rw [hmarkets.row]
    cases hentry : ledger.markets.entry row with
    | none => exact ⟨_, .notChecked hentry, .mk hmarkets hrequests⟩
    | some market =>
      dsimp only [Option.map_some, Option.elim_some]
      rw [Store.any_isColumnNumber_row, Store.bind_readExact?_row]
      exact ⟨_, .lastChecked hentry, .mk hmarkets hrequests⟩
  | queue request priority cost =>
    obtain ⟨hread, hnan⟩ := hop
    rw [StoreOp.work, run_map, Store.run_queueRequest, hnan]
    exact ⟨_, .queue request priority cost hrequests.fresh,
      .mk hmarkets (hrequests.add (a := ⟨priority, cost, request⟩) ⟨hread, hnan⟩)⟩
  | dequeue row =>
    rw [StoreOp.work, run_map, Store.run_removePending]
    dsimp only [Option.elim_some]
    rw [hrequests.row, Option.isSome_map]
    exact ⟨_, .dequeue row, .mk hmarkets (hrequests.remove row)⟩
  | pending =>
    obtain ⟨l, hl, hwaiting, hall⟩ := hrequests.exists_queues (some _)
    rw [StoreOp.work, run_map, Store.run_loadPending]
    dsimp only [Option.elim_some]
    rw [hwaiting, hall]
    exact ⟨_, .pending hl, .mk hmarkets hrequests⟩
  | countPending =>
    obtain ⟨l, hl, ht⟩ := hrequests.exists_lists
    rw [StoreOp.work, run_map, Store.run_countPending]
    dsimp only [Option.elim_some]
    rw [Table.size_eq ht]
    exact ⟨_, .countPending hl, .mk hmarkets hrequests⟩
  | reopen => exact ⟨_, .reopen, .mk hmarkets hrequests⟩

/-- A store that keeps a ledger answers as the ledger as long as records are read back. -/
theorem KeptBy.runs : ∀ {ops : List StoreOp} {ledger : Ledger} {store : Store}, ledger.KeptBy store →
    (∀ op ∈ ops, op.Storable) →
      ∃ ledger', ledger.Runs ops (store.answers ops).1 ledger' ∧ ledger'.KeptBy (store.answers ops).2
  | [], ledger, _, h, _ => ⟨ledger, .nil, h⟩
  | op :: ops, _, _, h, hops => by
    obtain ⟨hop, hrest⟩ := List.forall_mem_cons.1 hops
    obtain ⟨ledger', hdoes, hkept⟩ := h.does hop
    obtain ⟨ledger'', hruns, hlast⟩ := hkept.runs hrest
    exact ⟨ledger'', .cons hdoes hruns, hlast⟩

end Ledger

/-- From the empty store on, all answers are those of a ledger, whatever is done to the store: as long as the records that
are put in are read back from their texts, and priorities are numbers. -/
theorem answers_as_ledger {ops : List StoreOp} (h : ∀ op ∈ ops, op.Storable) :
    ∃ ledger, Ledger.empty.Runs ops (Store.empty.answers ops).1 ledger := by
  obtain ⟨ledger, hruns, -⟩ := Ledger.keptBy_empty.runs h
  exact ⟨ledger, hruns⟩

/-- A market and a request with a moment on a leap day. The first row of the market is taken out, the second one is checked,
and a third one does not get the number of the first. -/
theorem leapDay_answered :
    let t : Instant := ⟨1709244000, 0⟩
    let m := Instant.marketAt t
    let ops : List StoreOp := [.insert m, .insert m, .queue (.closingAt t) 1.0 50, .remove 1, .reopen, .insert m,
      .update 2 (m.markChecked t), .lastChecked 2, .load, .pending]
    (∀ op ∈ ops, op.Storable) ∧
    (Store.empty.answers ops).1.take 6 =
      [.ok (.row 1), .ok (.row 2), .ok (.row 1), .ok (.whether true), .ok .done, .ok (.row 3)] ∧
    ∃ ledger, Ledger.empty.Runs ops (Store.empty.answers ops).1 ledger := by
  intro t m ops
  have hwritten : Instant.readWritten? (Instant.text ⟨1709244000, 0⟩) = some ⟨1709244000, 0⟩ := by decide +kernel
  have hclose : Instant.readRelaxed? (Instant.fieldText ⟨1709244000, 0⟩) = some ⟨1709244000, 0⟩ := by decide +kernel
  have hm : m.ReadsBack := Market.readsBack
    (marketAt_decoded hwritten (by decide +kernel) (by decide +kernel) (List.forall_mem_nil _)) (by decide +kernel)
  have hchecked : (m.markChecked t).ReadsBack := Market.readsBack
    (marketAt_decoded hwritten (by decide +kernel) (by decide +kernel) (List.forall_mem_singleton.2 hclose))
    (by decide +kernel)
  have hq : (CreationRequest.closingAt t).ReadsBack :=
    CreationRequest.readsBack (closingAt_decoded hwritten hclose) (by decide +kernel)
  have hops : ∀ op ∈ ops, op.Storable := by
    simp only [ops, List.forall_mem_cons]
    exact ⟨hm, hm, ⟨hq, by decide +kernel⟩, trivial, trivial, hm, hchecked, trivial, trivial, trivial, List.forall_mem_nil _⟩
  exact ⟨hops, rfl, answers_as_ledger hops⟩

end Arbiter
