import Arbiter.Notice

/-!
# The open store

The store as the rest of the program works with it: each piece of work runs all at once, and rows that cannot be read
are told about and left out.

* `Archive.store`: work on the store, its faults among the failures.
* `Archive.load`: the rows of a table that could be read.
* `Archive.report`: what the store holds, told at the start.
-/

namespace Arbiter

/-- An open store, and the place where notices go. -/
structure Archive (m : Type → Type) where
  /-- Works on the store, all at once. -/
  onStore : {α : Type} → StoreM α → m (Except StoreFault α)
  notify : Notice → m Unit

namespace Archive

variable {m : Type → Type} [Monad m] (a : Archive m)

/-- Work on the store, its faults among the failures. -/
def store {α : Type} (work : StoreM α) : m (Except Failure α) := do
  return ofStore (← a.onStore work)

/-- The rows of a table that could be read; the others are told about. -/
def load {α : Type} (table : TableName) (work : StoreM (Loaded α)) : m (Except Failure (List α)) := do
  match ← a.store work with
  | .error failure => pure (.error failure)
  | .ok loaded =>
    loaded.unreadable.forM fun (row, fault) => a.notify (.unreadableRow table row fault)
    pure (.ok loaded.found)

/-- Tells what the store holds. -/
def report : m (Except Failure Unit) := do
  match ← a.load .markets Store.loadMarkets with
  | .error failure => pure (.error failure)
  | .ok markets =>
    a.notify (.managing markets.length)
    markets.forM fun (row, market) =>
      a.notify (.managed row market.snapshot.question market.checkRate market.lastChecked)
    match ← a.store Store.countPending with
    | .error failure => pure (.error failure)
    | .ok count =>
      a.notify (.waiting count)
      pure (.ok ())

end Archive

end Arbiter
