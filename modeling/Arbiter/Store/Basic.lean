import Arbiter.Market.Request
import Arbiter.Store.Table

/-!
# The store

Managed markets and requests for new ones, each kept as the text of its record under a row number.

* `insertMarket`, `updateMarket`, `removeMarket`, `market?`, `loadMarkets`, `countMarkets`, `lastChecked` on markets,
* `queueRequest`, `loadPending`, `removePending`, `countPending` on requests.
* `Store.reopen`: the store after its file was opened again; a table that was lost is there again, empty.
-/

namespace Arbiter

/-- The tables of the store. -/
inductive TableName where
  | markets
  | pending
deriving DecidableEq, Repr

namespace TableName

/-- The name of a table. -/
def name : TableName → String
  | .markets => "markets"
  | .pending => "pending"

/-- What a row of the table is called. -/
def rowName : TableName → String
  | .markets => "market"
  | .pending => "pending"

end TableName

/-- Why the store does not answer. -/
inductive StoreFault where
  | missingTable (table : TableName)
  | missingRow (row : Int)
  /-- The column of a row's last check holds a number. -/
  | numericCheck (row : Int)
  /-- A priority is no number. -/
  | priority
  /-- The store may only be read. -/
  | readOnly
  /-- The text of a row is no record. -/
  | corrupt (row : Int) (fault : DecodeFault)

/-- A stored market. -/
structure MarketRow where
  text : String
  /-- When the market was last checked, kept beside its record. -/
  lastChecked : Option String

/-- A stored request. -/
structure PendingRow where
  priority : Float
  cost : Int
  text : String

/-- A request with its row number, its priority and its cost. -/
structure PendingRequest where
  row : Int
  priority : Float
  cost : Int
  request : CreationRequest

/-- Markets and requests. A table may be lost while the store is open. -/
structure Store where
  markets : Option (Table MarketRow)
  pending : Option (Table PendingRow)

/-- Rows that could be read, and the numbers of those that could not. -/
structure Loaded (α : Type) where
  found : List α
  unreadable : List (Int × DecodeFault)

/-- Work on the store. -/
abbrev StoreM := ExceptT StoreFault (StateM Store)

namespace Store

/-- A store without rows. -/
def empty : Store := ⟨some Table.empty, some Table.empty⟩

instance : Inhabited Store := ⟨empty⟩

/-- The store with its lost tables made anew. -/
def reopen (store : Store) : Store :=
  ⟨some (store.markets.getD Table.empty), some (store.pending.getD Table.empty)⟩

/-- The store without a table. -/
def drop (store : Store) : TableName → Store
  | .markets => { store with markets := none }
  | .pending => { store with pending := none }

/-- The table of markets. -/
def marketTable : StoreM (Table MarketRow) := do
  match (← get).markets with
  | some table => pure table
  | none => throw (.missingTable .markets)

/-- The table of requests. -/
def pendingTable : StoreM (Table PendingRow) := do
  match (← get).pending with
  | some table => pure table
  | none => throw (.missingTable .pending)

/-- Puts the table of markets back. -/
def setMarkets (table : Table MarketRow) : StoreM Unit :=
  modify fun store => { store with markets := some table }

/-- Puts the table of requests back. -/
def setPending (table : Table PendingRow) : StoreM Unit :=
  modify fun store => { store with pending := some table }

/-- A market as it is kept. -/
def rowOfMarket (market : Market) : MarketRow :=
  ⟨market.toJson.compact, market.lastChecked.map Instant.text⟩

/-- Adds a market; its row number. -/
def insertMarket (market : Market) : StoreM Int := do
  let (row, table) := (← marketTable).add (rowOfMarket market)
  setMarkets table
  pure row

/-- Writes a market in place of the one in a row. -/
def updateMarket (row : Int) (market : Market) : StoreM Unit := do
  setMarkets ((← marketTable).replace row (rowOfMarket market))

/-- Removes a market; whether it was there. -/
def removeMarket (row : Int) : StoreM Bool := do
  let table ← marketTable
  setMarkets (table.remove row)
  pure (table.get? row).isSome

/-- The market of a row, if there is one. -/
def market? (row : Int) : StoreM (Option Market) := do
  match (← marketTable).get? row with
  | none => pure none
  | some kept =>
    match decodeText Market.shape Market.decode kept.text with
    | .ok market => pure (some market)
    | .error fault => throw (.corrupt row fault)

/-- Rows decoded one by one. -/
def decodeRows {α β : Type} (decode : α → Decoded β) : List (Int × α) → Loaded (Int × β)
  | [] => ⟨[], []⟩
  | (row, kept) :: rest =>
    let loaded := decodeRows decode rest
    match decode kept with
    | .ok value => { loaded with found := (row, value) :: loaded.found }
    | .error fault => { loaded with unreadable := (row, fault) :: loaded.unreadable }

/-- All markets by ascending row number. -/
def loadMarkets : StoreM (Loaded (Int × Market)) := do
  return decodeRows (fun kept => decodeText Market.shape Market.decode kept.text) (← marketTable).toList

/-- How many rows of markets there are, readable or not. -/
def countMarkets : StoreM Nat := return (← marketTable).size

/-- When the market of a row was last checked, without reading its record. What is written as a number is kept as one,
and a number is no time. -/
def lastChecked (row : Int) : StoreM (Option Instant) := do
  match (← marketTable).get? row with
  | some kept =>
    if kept.lastChecked.any isColumnNumber then throw (.numericCheck row)
    pure (kept.lastChecked.bind Instant.readExact?)
  | none => throw (.missingRow row)

/-- A zero without its sign; any other number as it is. -/
def unsignedZero (x : Float) : Float :=
  if x.toBits = 0x8000000000000000 then 0 else x

/-- Queues a request; its row number. Rows keep a priority of zero without a sign. -/
def queueRequest (request : CreationRequest) (priority : Float) (cost : Int) : StoreM Int := do
  let table ← pendingTable
  if priority.isNaN then throw .priority
  let (row, table) := table.add ⟨unsignedZero priority, cost, request.toJson.compact⟩
  setPending table
  pure row

/-- The rows of requests from the greatest priority down; with one priority the smaller row number comes first. -/
def byPriority (rows : List (Int × PendingRow)) : List (Int × PendingRow) :=
  rows.mergeSort fun a b => decide (b.2.priority < a.2.priority) || (a.2.priority == b.2.priority && decide (a.1 ≤ b.1))

/-- A queued request with its record decoded. -/
def decodePending (kept : PendingRow) : Decoded (PendingRow × CreationRequest) := do
  return (kept, ← decodeText CreationRequest.shape CreationRequest.decode kept.text)

/-- All requests, the greatest priority first. -/
def loadPending : StoreM (Loaded PendingRequest) := do
  let loaded := decodeRows decodePending (byPriority (← pendingTable).toList)
  return ⟨loaded.found.map fun (row, kept, request) => ⟨row, kept.priority, kept.cost, request⟩, loaded.unreadable⟩

/-- Removes a request; whether it was there. -/
def removePending (row : Int) : StoreM Bool := do
  let table ← pendingTable
  setPending (table.remove row)
  pure (table.get? row).isSome

/-- How many rows of requests there are, readable or not. -/
def countPending : StoreM Nat := return (← pendingTable).size

end Store

end Arbiter
