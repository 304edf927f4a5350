import Arbiter.SortedMap

/-!
# Numbered rows

A `Table` gives each new row a number above every number that it gave out before, also after rows were removed.

* `Table.add`: a new row under the next number.
* `Table.replace`, `Table.remove`: one row changed or removed; nothing happens if it is absent.
-/

namespace Arbiter

/-- Rows under the numbers that they were given. -/
structure Table (α : Type) where
  rows : SortedMap Int α
  /-- The greatest number given out so far. -/
  last : Int
  le_last : ∀ row ∈ rows.keys, row ≤ last

namespace Table

variable {α : Type}

/-- The table that has not given out any number. -/
def empty : Table α := ⟨SortedMap.empty, 0, nofun⟩

instance : Inhabited (Table α) := ⟨empty⟩

/-- The table with a new row, and the number of that row. -/
def add (t : Table α) (a : α) : Int × Table α :=
  (t.last + 1, {
    rows := t.rows.insert (t.last + 1) a
    last := t.last + 1
    le_last := fun row h => by
      rcases SortedMap.mem_keys_insert h with rfl | h
      · exact Int.le_refl _
      · have := t.le_last row h; omega })

/-- The row of a number. -/
def get? (t : Table α) (row : Int) : Option α := t.rows.lookup row

/-- The table with a row changed, if it is there. -/
def modify (t : Table α) (row : Int) (f : α → α) : Table α where
  rows := t.rows.mapEntries fun k old => if k = row then f old else old
  last := t.last
  le_last := fun k h => t.le_last k (by simpa using h)

/-- The table with a row replaced, if it is there. -/
def replace (t : Table α) (row : Int) (a : α) : Table α := t.modify row fun _ => a

/-- The table without a row. -/
def remove (t : Table α) (row : Int) : Table α where
  rows := t.rows.filter fun k _ => k ≠ row
  last := t.last
  le_last := fun k h => t.le_last k (SortedMap.mem_keys_filter h)

/-- How many rows there are. -/
def size (t : Table α) : Nat := t.rows.size

/-- The rows with their numbers, ascending. -/
def toList (t : Table α) : List (Int × α) := t.rows.entries

end Table

end Arbiter
