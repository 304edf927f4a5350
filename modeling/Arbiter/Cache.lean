/-!
# Remembered values

A `Cache` remembers one value for each of finitely many keys, and forgets none.

* `get?_insert_self`, `get?_insert_ne`: a look-up after an insertion.
* `size_insert`: an insertion adds a key exactly if it was absent.
-/

namespace Arbiter

/-- Keys with values, no key twice; the newest key comes first. -/
structure Cache (κ α : Type) where
  entries : List (κ × α)
  nodup : (entries.map (·.1)).Nodup

namespace Cache

variable {κ α : Type}

/-- The cache that remembers nothing. -/
def empty : Cache κ α := ⟨[], .nil⟩

instance : EmptyCollection (Cache κ α) := ⟨empty⟩
instance : Inhabited (Cache κ α) := ⟨empty⟩

variable [DecidableEq κ]

/-- The value that is remembered for a key. -/
def get? (c : Cache κ α) (k : κ) : Option α :=
  (c.entries.find? fun e => e.1 = k).map (·.2)

/-- The entries with the value of `k` replaced. -/
def replace (k : κ) (v : α) (entries : List (κ × α)) : List (κ × α) :=
  entries.map fun e => if e.1 = k then (e.1, v) else e

omit [DecidableEq κ] in
theorem keys_map_snd {f : κ × α → κ × α} (hf : ∀ e, (f e).1 = e.1) (entries : List (κ × α)) :
    (entries.map f).map (·.1) = entries.map (·.1) := by
  simp [Function.comp_def, hf]

theorem keys_replace (k : κ) (v : α) (entries : List (κ × α)) :
    (replace k v entries).map (·.1) = entries.map (·.1) :=
  keys_map_snd (fun e => by split <;> rfl) entries

/-- The cache with `v` remembered for `k`. -/
def insert (c : Cache κ α) (k : κ) (v : α) : Cache κ α :=
  if h : k ∈ c.entries.map (·.1) then ⟨replace k v c.entries, (keys_replace k v c.entries).symm ▸ c.nodup⟩
  else ⟨(k, v) :: c.entries, List.nodup_cons.2 ⟨h, c.nodup⟩⟩

/-- How many keys are remembered. -/
def size (c : Cache κ α) : Nat := c.entries.length

/-- The value for a key with the cache that remembers it: `v` is taken if there was none. -/
def getOrInsert (c : Cache κ α) (k : κ) (v : Unit → α) : α × Cache κ α :=
  match c.get? k with
  | some old => (old, c)
  | none =>
    let made := v ()
    (made, c.insert k made)

theorem get?_eq_none_iff {c : Cache κ α} {k : κ} : c.get? k = none ↔ k ∉ c.entries.map (·.1) := by
  simp only [get?, Option.map_eq_none_iff, List.find?_eq_none, List.mem_map, not_exists, not_and, decide_eq_true_eq]

theorem find?_replace_self (k : κ) (v : α) :
    ∀ {l : List (κ × α)}, k ∈ l.map (·.1) → (replace k v l).find? (fun e => e.1 = k) = some (k, v)
  | [], h => absurd h List.not_mem_nil
  | e :: rest, h => by
    by_cases he : e.1 = k
    · subst he; simp [replace]
    · have hr : k ∈ rest.map (·.1) := by simpa [Ne.symm he] using h
      have ih := find?_replace_self k v hr
      simp only [replace] at ih
      simp [replace, he, ih]

theorem find?_replace_ne {k j : κ} (v : α) (hne : j ≠ k) :
    ∀ l : List (κ × α), (replace k v l).find? (fun e => e.1 = j) = l.find? (fun e => e.1 = j)
  | [] => rfl
  | e :: rest => by
    have ih := find?_replace_ne v hne rest
    simp only [replace] at ih
    by_cases he : e.1 = k
    · have hj : e.1 ≠ j := fun h => hne (h.symm.trans he)
      simp [replace, he, Ne.symm hne, ih]
    · by_cases hj : e.1 = j
      · simp [replace, hj, hne]
      · simp [replace, he, hj, ih]

@[simp] theorem get?_insert_self (c : Cache κ α) (k : κ) (v : α) : (c.insert k v).get? k = some v := by
  by_cases h : k ∈ c.entries.map (·.1)
  · simp only [insert, h, dite_true, get?, find?_replace_self k v h, Option.map_some]
  · simp [insert, h, get?]

theorem get?_insert_ne (c : Cache κ α) {k j : κ} (v : α) (hne : j ≠ k) : (c.insert k v).get? j = c.get? j := by
  by_cases h : k ∈ c.entries.map (·.1)
  · simp only [insert, h, dite_true, get?, find?_replace_ne v hne]
  · simp [insert, h, get?, Ne.symm hne]

theorem size_insert (c : Cache κ α) (k : κ) (v : α) :
    (c.insert k v).size = if (c.get? k).isSome then c.size else c.size + 1 := by
  by_cases h : k ∈ c.entries.map (·.1)
  · have hs : (c.get? k).isSome = true := by
      cases hg : c.get? k with
      | none => exact absurd h (get?_eq_none_iff.1 hg)
      | some _ => rfl
    simp only [insert, h, dite_true, hs, if_true, size, replace, List.length_map]
  · have hs : c.get? k = none := get?_eq_none_iff.2 h
    simp [insert, h, hs, size]

end Cache

end Arbiter
