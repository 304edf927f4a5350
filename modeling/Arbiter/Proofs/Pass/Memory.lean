import Arbiter.Pass.Basic

/-!
# What a pass remembers

A memory is kept by another one if all that it remembers is remembered there, with the same value. Reads only add to the
memory, and what was read is read again without asking.

* `Memory.le_refl`, `Memory.le_trans`: to be kept is an order.
* `Memory.Agree`: memories that differ in the seeds of some nodes at most.
* `IsTable`: how a table of the memory is looked up and replaced.
* `remember_known`, `remember_again`: a read of what is known already.
-/

namespace Arbiter

/-! ## Kept memories -/

namespace Cache

variable {κ α : Type} [DecidableEq κ]

/-- All that the one remembers the other remembers too. -/
instance : LE (Cache κ α) := ⟨fun c later => ∀ k v, c.get? k = some v → later.get? k = some v⟩

theorem le_refl (c : Cache κ α) : c ≤ c := fun _ _ h => h

theorem le_trans {c later last : Cache κ α} (h : c ≤ later) (h' : later ≤ last) : c ≤ last := fun k v hk =>
  h' k v (h k v hk)

/-- An insertion keeps all values if there was none for its key. -/
theorem le_insert (c : Cache κ α) {k : κ} (v : α) (hk : c.get? k = none) : c ≤ c.insert k v := by
  intro j u hj
  have hne : j ≠ k := by
    rintro rfl
    rw [hk] at hj
    cases hj
  rw [get?_insert_ne c v hne, hj]

end Cache

namespace Memory

/-- Each table is kept. -/
protected structure Le (memory later : Memory) : Prop where
  current : memory.current ≤ later.current
  others : memory.others ≤ later.others
  pulls : memory.pulls ≤ later.pulls
  users : memory.users ≤ later.users
  seeds : memory.seeds ≤ later.seeds

instance : LE Memory := ⟨Memory.Le⟩

theorem le_refl (memory : Memory) : memory ≤ memory :=
  ⟨Cache.le_refl _, Cache.le_refl _, Cache.le_refl _, Cache.le_refl _, Cache.le_refl _⟩

theorem le_trans {memory later last : Memory} (h : memory ≤ later) (h' : later ≤ last) : memory ≤ last :=
  ⟨Cache.le_trans h.current h'.current, Cache.le_trans h.others h'.others, Cache.le_trans h.pulls h'.pulls,
    Cache.le_trans h.users h'.users, Cache.le_trans h.seeds h'.seeds⟩

/-- All that was read is the same, and so are the seeds of the nodes that `S` holds of. -/
structure Agree (S : List Nat → Prop) (memory other : Memory) : Prop where
  current : memory.current = other.current
  others : memory.others = other.others
  pulls : memory.pulls = other.pulls
  users : memory.users = other.users
  seeds : ∀ node, S node → memory.seeds.get? node = other.seeds.get? node

end Memory

/-! ## Tables -/

section Tables

variable {κ α : Type} [DecidableEq κ]

/-- A table of the memory that holds what was read, with the way to put another one in its place. -/
structure IsTable (table : Memory → Cache κ α) (store : Memory → Cache κ α → Memory) : Prop where
  stored : ∀ memory t, table (store memory t) = t
  grows : ∀ memory t, table memory ≤ t → memory ≤ store memory t
  kept : ∀ memory later, memory ≤ later → table memory ≤ table later
  seeds : ∀ memory t, (store memory t).seeds = memory.seeds
  same : ∀ {S memory other}, Memory.Agree S memory other → table memory = table other
  agree : ∀ {S memory other} (t : Cache κ α), Memory.Agree S memory other → (store memory t).Agree S (store other t)

theorem isTable_current : IsTable Memory.current fun memory t => { memory with current := t } where
  stored _ _ := rfl
  grows memory _ h := { Memory.le_refl memory with current := h }
  kept _ _ h := h.current
  seeds _ _ := rfl
  same h := h.current
  agree _ h := { h with current := rfl }

theorem isTable_others : IsTable Memory.others fun memory t => { memory with others := t } where
  stored _ _ := rfl
  grows memory _ h := { Memory.le_refl memory with others := h }
  kept _ _ h := h.others
  seeds _ _ := rfl
  same h := h.others
  agree _ h := { h with others := rfl }

theorem isTable_pulls : IsTable Memory.pulls fun memory t => { memory with pulls := t } where
  stored _ _ := rfl
  grows memory _ h := { Memory.le_refl memory with pulls := h }
  kept _ _ h := h.pulls
  seeds _ _ := rfl
  same h := h.pulls
  agree _ h := { h with pulls := rfl }

theorem isTable_users : IsTable Memory.users fun memory t => { memory with users := t } where
  stored _ _ := rfl
  grows memory _ h := { Memory.le_refl memory with users := h }
  kept _ _ h := h.users
  seeds _ _ := rfl
  same h := h.users
  agree _ h := { h with users := rfl }

/-! ## Reads of what is known -/

variable {m : Type → Type} [Monad m] {β : Type} {table : Memory → Cache κ α} {store : Memory → Cache κ α → Memory}
  {key : κ} {read : m (Except ReadFault α)}

/-- What is known is not asked for. -/
theorem remember_known {memory : Memory} {value : α} (h : (table memory).get? key = some value) :
    (remember table store key read).runFrom memory = pure (.ok value, memory) := by
  rw [PassM.runFrom_remember, h]

/-- A value that was just read is the same when it is read again. -/
theorem remember_again [LawfulMonad m] (ht : IsTable table store) (next : α → α → PassM m β) :
    (do next (← remember table store key read) (← remember table store key read)) =
      remember table store key read >>= fun value => next value value := by
  refine PassM.ext fun memory => ?_
  simp only [PassM.runFrom_bind, PassM.runFrom_remember]
  cases hk : (table memory).get? key with
  | some value => simp [hk]
  | none =>
    simp only [bind_assoc]
    refine congrArg (read >>= ·) (funext fun result => ?_)
    cases result with
    | error fault => simp
    | ok value => simp [ht.stored]

end Tables

/-- Another market is read once, however often it is looked at. -/
theorem Pass.otherMarket_again {m : Type → Type} [Monad m] [LawfulMonad m] {β : Type} (p : Pass m) (url : String)
    (next : Reference → Reference → PassM m β) :
    (do next (← p.otherMarket url) (← p.otherMarket url)) =
      p.otherMarket url >>= fun reference => next reference reference :=
  remember_again isTable_others next

end Arbiter
