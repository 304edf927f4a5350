import Arbiter.Json.Writer
import Arbiter.Store.Basic

/-!
# The file of a store

A store is kept as the text of one record, with a member for each table. A table that was lost is `null`.

* `Store.text`: the text of a store.
* `Store.ofText?`: the store of a text.
-/

namespace Arbiter

/-- A table with its rows as they are given. -/
def Table.toJson {α : Type} (row : α → List Json) (t : Table α) : Json :=
  .object [("last", .int t.last), ("rows", .array (t.toList.map fun e => .array (.int e.1 :: row e.2)))]

/-- The table with some rows that gave out numbers up to `last`, if none of them has a greater one. -/
def Table.ofRows? {α : Type} (last : Int) (rows : List (Int × α)) : Option (Table α) :=
  let rows := SortedMap.ofList rows
  if h : ∀ row ∈ rows.keys, row ≤ last then some ⟨rows, last, h⟩ else none

/-- A table of a record. -/
def Table.ofJson? {α : Type} (row : List Json → Option α) : Json → Option (Table α)
  | .object [("last", .int last), ("rows", .array items)] => do
    let rows ← items.mapM fun
      | .array (.int number :: parts) => (row parts).map fun a => (number, a)
      | _ => none
    Table.ofRows? last rows
  | _ => none

namespace MarketRow

/-- The parts of a row. -/
def parts (r : MarketRow) : List Json := [.string r.text, Json.ofOption .string r.lastChecked]

/-- The row with some parts. -/
def ofParts? : List Json → Option MarketRow
  | [.string text, .null] => some ⟨text, none⟩
  | [.string text, .string lastChecked] => some ⟨text, some lastChecked⟩
  | _ => none

end MarketRow

namespace PendingRow

/-- The parts of a row; the priority is written as its bits. -/
def parts (r : PendingRow) : List Json := [.nat r.priority.toBits.toNat, .int r.cost, .string r.text]

/-- The row with some parts. -/
def ofParts? : List Json → Option PendingRow
  | [.int bits, .int cost, .string text] => some ⟨Float.ofBits (UInt64.ofNat bits.toNat), cost, text⟩
  | _ => none

end PendingRow

namespace Store

/-- The record of a store. -/
def toJson (store : Store) : Json :=
  .object [("markets", Json.ofOption (Table.toJson MarketRow.parts) store.markets),
    ("pending", Json.ofOption (Table.toJson PendingRow.parts) store.pending)]

/-- The store of a record. -/
def ofJson? : Json → Option Store
  | .object [("markets", markets), ("pending", pending)] => do
    let table {α : Type} (row : List Json → Option α) (v : Json) : Option (Option (Table α)) :=
      if v.isNull then some none else (Table.ofJson? row v).map some
    pure ⟨← table MarketRow.ofParts? markets, ← table PendingRow.ofParts? pending⟩
  | _ => none

/-- The text of a store. -/
def text (store : Store) : String := store.toJson.compact

/-- The store of a text. -/
def ofText? (text : String) : Option Store := (Json.read? text).bind ofJson?

end Store

end Arbiter
