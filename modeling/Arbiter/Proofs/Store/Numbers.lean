import Arbiter.Proofs.SortedMap
import Arbiter.Proofs.Store.Rows

/-!
# Row numbers are never given out again

A table gives each new row a number above all numbers that it gave out before. So whatever is done to it, a number that it
has given out denotes a row later only if it denotes one now.

* `Table.toList_add`, `Table.toList_addAll`: new rows come last.
* `Table.Changes`: one change of a table. `Table.Follows`: what any number of changes keep (`Table.Changes.follows`).
* `Store.Changes`: one change of each table at most. `Store.Follows`: the same of both tables (`Store.Changes.follows`).
* `stays_gone`: a row that is gone stays gone.
-/

namespace Arbiter

namespace Table

variable {α : Type} {t t' t'' : Table α}

/-- One change of a table: a row added, changed or removed, or none at all. -/
inductive Changes (t : Table α) : Table α → Prop
  | none : Changes t t
  | add (a : α) : Changes t (t.add a).2
  | modify (row : Int) (f : α → α) : Changes t (t.modify row f)
  | remove (row : Int) : Changes t (t.remove row)

/-- The table at a later moment: no number that was given out before has become free, and such a number denotes a row only
if it did before. -/
structure Follows (t t' : Table α) : Prop where
  last : t.last ≤ t'.last
  absent : ∀ row ≤ t.last, t.get? row = Option.none → t'.get? row = Option.none

theorem Follows.refl (t : Table α) : t.Follows t := ⟨Int.le_refl _, fun _ _ h => h⟩

theorem Follows.trans (h : t.Follows t') (h' : t'.Follows t'') : t.Follows t'' where
  last := Int.le_trans h.last h'.last
  absent row hrow hnone := h'.absent row (Int.le_trans hrow h.last) (h.absent row hrow hnone)

/-- A new row comes last. -/
theorem toList_add (t : Table α) (a : α) : (t.add a).2.toList = t.toList ++ [(t.last + 1, a)] := by
  refine SortedMap.insertEntry_last fun e he => Int.compare_eq_gt.2 ?_
  exact Int.lt_add_one_of_le (t.le_last e.1 (List.mem_map_of_mem he))

/-- The table with several new rows. -/
def addAll (t : Table α) (rows : List α) : Table α := rows.foldl (fun t a => (t.add a).2) t

/-- Rows under consecutive numbers. -/
def numbered (first : Int) : List α → List (Int × α)
  | [] => []
  | a :: rest => (first, a) :: numbered (first + 1) rest

/-- New rows come last, in their order and under the next numbers. -/
theorem toList_addAll : ∀ (rows : List α) (t : Table α), (t.addAll rows).toList = t.toList ++ numbered (t.last + 1) rows
  | [], t => (List.append_nil _).symm
  | a :: rest, t => by
    change ((t.add a).2.addAll rest).toList = _
    rw [toList_addAll rest, toList_add, List.append_assoc]
    rfl

theorem addAll_append (t : Table α) (rows more : List α) : t.addAll (rows ++ more) = (t.addAll rows).addAll more :=
  List.foldl_append

theorem get?_add (t : Table α) (a : α) {row : Int} (h : row ≠ t.last + 1) : (t.add a).2.get? row = t.get? row :=
  SortedMap.lookup_insert_ne t.rows a h

/-- A row that is there has a number that was given out. -/
theorem le_last_of_get? {row : Int} {a : α} (h : t.get? row = some a) : row ≤ t.last :=
  t.le_last row (List.mem_map_of_mem (mem_toList.2 h))

theorem Changes.follows (h : t.Changes t') : t.Follows t' := by
  cases h with
  | none => exact .refl t
  | add a =>
    refine ⟨Int.le_of_lt (Int.lt_succ _), fun row hrow hnone => ?_⟩
    rw [get?_add t a (Int.ne_of_lt (Int.lt_add_one_of_le hrow)), hnone]
  | modify row f =>
    refine ⟨Int.le_refl _, fun other _ hnone => ?_⟩
    rw [get?_modify, hnone]
    exact ite_self _
  | remove row =>
    refine ⟨Int.le_refl _, fun other _ hnone => ?_⟩
    rw [get?_remove, hnone]
    exact ite_self _

end Table

/-! ## A table that may be lost -/

section

variable {α : Type} {o o' o'' : Option (Table α)}

theorem rel_changes_map (o : Option (Table α)) {f : Table α → Table α} (h : ∀ t : Table α, t.Changes (f t)) :
    Option.Rel Table.Changes o (o.map f) := by
  cases o with
  | none => exact .none
  | some t => exact .some (h t)

theorem rel_changes_refl (o : Option (Table α)) : Option.Rel Table.Changes o o := by
  cases o with
  | none => exact .none
  | some t => exact .some .none

theorem rel_follows (h : Option.Rel Table.Changes o o') : Option.Rel Table.Follows o o' := by
  cases h with
  | none => exact .none
  | some h => exact .some h.follows

theorem rel_follows_trans (h : Option.Rel Table.Follows o o') (h' : Option.Rel Table.Follows o' o'') :
    Option.Rel Table.Follows o o'' := by
  cases h with
  | none => exact h'
  | some h =>
    cases h' with
    | some h' => exact .some (h.trans h')

/-- A row that was there and is gone does not come back. -/
theorem stays_gone (h : Option.Rel Table.Follows o o') (h' : Option.Rel Table.Follows o' o'') {row : Int}
    (hrow : (o.bind fun t => t.get? row) ≠ none) (hgone : (o'.bind fun t => t.get? row) = none) :
    (o''.bind fun t => t.get? row) = none := by
  cases h with
  | none => exact absurd rfl hrow
  | @some t t' h =>
    cases h' with
    | some h' =>
      obtain ⟨a, ha⟩ := Option.ne_none_iff_exists'.1 hrow
      exact h'.absent row (Int.le_trans (Table.le_last_of_get? ha) h.last) hgone

end

namespace Store

variable {store store' store'' : Store}

/-- One change of each table at most. -/
structure Changes (store store' : Store) : Prop where
  markets : Option.Rel Table.Changes store.markets store'.markets
  pending : Option.Rel Table.Changes store.pending store'.pending

/-- The store at a later moment. -/
structure Follows (store store' : Store) : Prop where
  markets : Option.Rel Table.Follows store.markets store'.markets
  pending : Option.Rel Table.Follows store.pending store'.pending

theorem Changes.refl (store : Store) : store.Changes store :=
  ⟨rel_changes_refl _, rel_changes_refl _⟩

theorem Changes.follows (h : store.Changes store') : store.Follows store' :=
  ⟨rel_follows h.markets, rel_follows h.pending⟩

theorem Follows.trans (h : store.Follows store') (h' : store'.Follows store'') : store.Follows store'' :=
  ⟨rel_follows_trans h.markets h'.markets, rel_follows_trans h.pending h'.pending⟩

/-- Work that changes one table. -/
theorem changes_markets (store : Store) {f : Table MarketRow → Table MarketRow} (h : ∀ t, Table.Changes t (f t)) :
    store.Changes { store with markets := store.markets.map f } :=
  ⟨rel_changes_map _ h, rel_changes_refl _⟩

theorem changes_pending (store : Store) {f : Table PendingRow → Table PendingRow} (h : ∀ t, Table.Changes t (f t)) :
    store.Changes { store with pending := store.pending.map f } :=
  ⟨rel_changes_refl _, rel_changes_map _ h⟩

end Store

end Arbiter
