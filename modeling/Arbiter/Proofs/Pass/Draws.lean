import Arbiter.Proofs.Pass.Durable

/-!
# Draws of a pass

Chance is asked only for nodes that have no seed yet, and its word is kept as the seed of the node. So in a pass a node is
drawn for once at most, and different nodes have draws of their own.

* `Drawn`: what was drawn between two memories. `Drawn.nodup`, `Drawn.fresh`: no node twice, and none that had a seed.
* `PassM.DrawsAt`: work that draws at certain nodes only. `drawsAt_evaluate`: the evaluation of a tree draws at the nodes
  of the tree.
* `PassM.Heeds`: work that heeds the seeds of certain nodes only. `heeds_evaluate`: so does the evaluation of a tree.
* `consultEach_draws`: no node is drawn for twice in a whole pass.
-/

namespace Arbiter

/-- The word that chance answered. -/
def Call.word? : Call → Option UInt64
  | ⟨.entropy, word⟩ => some word
  | _ => none

/-- Between two memories chance was asked for the nodes of `drawn` alone, the last one first, and all its words were kept
as their seeds; `S` holds of these nodes. -/
structure Drawn (S : List Nat → Prop) (before after : Memory) (calls : List Call) (drawn : List (List Nat × UInt64)) :
    Prop where
  entries : after.seeds.entries = drawn ++ before.seeds.entries
  words : calls.filterMap Call.word? = (drawn.map (·.2)).reverse
  within : ∀ e ∈ drawn, S e.1

namespace Drawn

variable {S : List Nat → Prop} {before middle after : Memory} {calls more : List Call}
  {drawn later : List (List Nat × UInt64)}

theorem nothing (hs : after.seeds = before.seeds) (hc : calls.filterMap Call.word? = []) : Drawn S before after calls [] :=
  ⟨by rw [hs, List.nil_append], by simpa using hc, nofun⟩

theorem append (h : Drawn S before middle calls drawn) (h' : Drawn S middle after more later) :
    Drawn S before after (calls ++ more) (later ++ drawn) where
  entries := by rw [h'.entries, h.entries, List.append_assoc]
  words := by rw [List.filterMap_append, h.words, h'.words, List.map_append, List.reverse_append]
  within := List.forall_mem_append.2 ⟨h'.within, h.within⟩

/-- No node is drawn for twice. -/
theorem nodup (h : Drawn S before after calls drawn) : (drawn.map (·.1)).Nodup := by
  have hall := after.seeds.nodup
  rw [h.entries, List.map_append] at hall
  exact (List.nodup_append.1 hall).1

/-- No node is drawn for that had a seed. -/
theorem fresh (h : Drawn S before after calls drawn) : ∀ e ∈ drawn, before.seeds.get? e.1 = none := by
  intro e he
  have hall := after.seeds.nodup
  rw [h.entries, List.map_append] at hall
  refine Cache.get?_eq_none_iff.2 fun hold => ?_
  exact (List.nodup_append.1 hall).2.2 e.1 (List.mem_map_of_mem he) e.1 hold rfl

end Drawn

/-! ## Work that draws at some nodes -/

/-- Wherever it begins, the work draws at nodes that `S` holds of and at no others. -/
def PassM.DrawsAt (S : List Nat → Prop) {α : Type} (x : PassM Course α) : Prop :=
  ∀ (w : World) (past : List Call) (memory : Memory) (store : Store),
    (x.runFrom memory).Leads w past store fun ends calls _ => ∃ drawn, Drawn S memory ends.2 calls drawn

namespace PassM.DrawsAt

variable {S : List Nat → Prop} {α β κ : Type} [DecidableEq κ]

protected theorem pure (a : α) : DrawsAt S (Pure.pure a : PassM Course α) := fun _ _ _ _ => ⟨[], .nothing rfl rfl⟩

protected theorem halt (h : Halt) : DrawsAt S (throw h : PassM Course α) := fun _ _ _ _ => ⟨[], .nothing rfl rfl⟩

protected theorem bind {x : PassM Course α} {f : α → PassM Course β} (hx : DrawsAt S x) (hf : ∀ a, DrawsAt S (f a)) :
    DrawsAt S (x >>= f) := by
  intro w past memory store
  rw [PassM.runFrom_bind]
  refine (hx w past memory store).bind fun (result, middle) calls store' ⟨drawn, hd⟩ => ?_
  cases result with
  | error halt => exact ⟨[] ++ drawn, hd.append (.nothing rfl rfl)⟩
  | ok a =>
    exact (hf a w (past ++ calls) middle store').mono fun _ _ _ ⟨later, hl⟩ => ⟨later ++ drawn, hd.append hl⟩

/-- A read never draws. -/
protected theorem remember {table : Memory → Cache κ α} {store : Memory → Cache κ α → Memory} (ht : IsTable table store)
    (key : κ) {read : Course (Except ReadFault α)}
    (hread : ∀ w past s, read.Leads w past s fun _ calls _ => calls.filterMap Call.word? = []) :
    DrawsAt S (remember table store key read) := by
  intro w past memory s
  rw [PassM.runFrom_remember]
  cases (table memory).get? key with
  | some value => exact ⟨[], .nothing rfl rfl⟩
  | none =>
    refine (hread w past s).bind fun result calls _ hc => ?_
    have hnone : (calls ++ []).filterMap Call.word? = [] := by rw [List.append_nil, hc]
    cases result with
    | error fault => exact ⟨[], .nothing rfl hnone⟩
    | ok value => exact ⟨[], .nothing (ht.seeds memory _) hnone⟩

/-- A draw at a node draws there, if it has to draw at all. -/
protected theorem entropy (market : Snapshot) (now : Instant) {node : List Nat} (hnode : S node) :
    DrawsAt S ((worldPass market now).entropy node) := by
  intro w past memory store
  unfold PassM.runFrom Pass.entropy
  cases hs : memory.seeds.get? node with
  | some seed => exact ⟨[], .nothing rfl rfl⟩
  | none =>
    have hnew : node ∉ memory.seeds.entries.map (·.1) := Cache.get?_eq_none_iff.1 hs
    refine ⟨[(node, w.answer past .entropy)], ?_, rfl, List.forall_mem_singleton.2 hnode⟩
    change (memory.seeds.insert node _).entries = _
    rw [Cache.insert, dif_neg hnew]
    rfl

end PassM.DrawsAt

/-- All reads draw nowhere. -/
theorem drawsAt (S : List Nat → Prop) (market : Snapshot) (now : Instant) :
    ReadLaw (worldPass market now) (PassM.DrawsAt S) where
  pure := PassM.DrawsAt.pure
  bind := PassM.DrawsAt.bind
  halt := PassM.DrawsAt.halt
  currentValue := PassM.DrawsAt.remember isTable_current _ fun _ _ _ => rfl
  otherMarket _ := PassM.DrawsAt.remember isTable_others _ fun _ _ _ => rfl
  user _ := PassM.DrawsAt.remember isTable_users _ fun _ _ _ => rfl
  pullRequest _ := PassM.DrawsAt.remember isTable_pulls _ fun _ _ _ => rfl

/-- The evaluation of a tree draws at its own nodes only. -/
theorem drawsAt_evaluate (market : Snapshot) (now : Instant) (r : ValueRule) (node : List Nat) :
    PassM.DrawsAt (· ∈ r.drawing node) (r.evaluate (worldPass market now) node) :=
  (drawsAt _ market now).value node r fun _ hpath => .entropy market now hpath

/-! ## Seeds of other nodes -/

/-- From memories that agree, work comes to the same result with the same calls, and to memories that agree. -/
def PassM.Heeds (S : List Nat → Prop) {α : Type} (x : PassM Course α) : Prop :=
  ∀ (w : World) (past : List Call) (memory other : Memory) (store : Store), memory.Agree S other →
    ∃ result calls store' memory' other', memory'.Agree S other' ∧
      (x.runFrom memory).upshot w past store = ⟨(result, memory'), calls, store'⟩ ∧
      (x.runFrom other).upshot w past store = ⟨(result, other'), calls, store'⟩

namespace PassM.Heeds

variable {S : List Nat → Prop} {α β κ : Type} [DecidableEq κ]

protected theorem pure (a : α) : Heeds S (Pure.pure a : PassM Course α) := fun _ _ memory other store h =>
  ⟨.ok a, [], store, memory, other, h, rfl, rfl⟩

protected theorem halt (halt : Halt) : Heeds S (throw halt : PassM Course α) := fun _ _ memory other store h =>
  ⟨.error halt, [], store, memory, other, h, rfl, rfl⟩

protected theorem bind {x : PassM Course α} {f : α → PassM Course β} (hx : Heeds S x) (hf : ∀ a, Heeds S (f a)) :
    Heeds S (x >>= f) := by
  intro w past memory other store h
  obtain ⟨result, calls, store', memory', other', h', hrun, hrun'⟩ := hx w past memory other store h
  simp only [PassM.runFrom_bind, Course.upshot_bind_of hrun, Course.upshot_bind_of hrun']
  cases result with
  | error halt => exact ⟨.error halt, calls ++ [], store', memory', other', h', rfl, rfl⟩
  | ok a =>
    obtain ⟨result, more, store'', memory'', other'', h'', hrun, hrun'⟩ :=
      hf a w (past ++ calls) memory' other' store' h'
    exact ⟨result, calls ++ more, store'', memory'', other'', h'', by rw [hrun], by rw [hrun']⟩

/-- A read heeds no seed. -/
protected theorem remember {table : Memory → Cache κ α} {store : Memory → Cache κ α → Memory} (ht : IsTable table store)
    (key : κ) (read : Course (Except ReadFault α)) : Heeds S (remember table store key read) := by
  intro w past memory other s h
  simp only [PassM.runFrom_remember, ht.same h]
  cases (table other).get? key with
  | some value => exact ⟨.ok value, [], s, memory, other, h, rfl, rfl⟩
  | none =>
    rcases hread : read.upshot w past s with ⟨result, calls, s'⟩
    simp only [Course.upshot_bind_of hread]
    cases result with
    | error fault => exact ⟨.error (.fault (.read fault)), calls ++ [], s', memory, other, h, rfl, rfl⟩
    | ok value =>
      exact ⟨.ok value, calls ++ [], s', _, _, ht.agree ((table other).insert key value) h, rfl, rfl⟩

/-- A draw heeds the seed of its own node. -/
protected theorem entropy (p : Pass Course) {node : List Nat} (hnode : S node) : Heeds S (p.entropy node) := by
  intro w past memory other store h
  unfold PassM.runFrom Pass.entropy
  rw [h.seeds node hnode]
  cases other.seeds.get? node with
  | some seed => exact ⟨.ok seed, [], store, memory, other, h, rfl, rfl⟩
  | none =>
    rcases hdraw : p.sources.entropy.upshot w past store with ⟨seed, calls, store'⟩
    dsimp only
    simp only [Course.upshot_bind_of hdraw]
    refine ⟨.ok seed, calls ++ [], store', { memory with seeds := memory.seeds.insert node seed },
      { other with seeds := other.seeds.insert node seed }, { h with seeds := fun path hpath => ?_ }, rfl, rfl⟩
    by_cases hsame : path = node
    · subst hsame
      simp
    · simp only [Cache.get?_insert_ne _ _ hsame, h.seeds path hpath]

end PassM.Heeds

/-- All reads heed no seed. -/
theorem heeds (S : List Nat → Prop) (market : Snapshot) (now : Instant) :
    ReadLaw (worldPass market now) (PassM.Heeds S) where
  pure := PassM.Heeds.pure
  bind := PassM.Heeds.bind
  halt := PassM.Heeds.halt
  currentValue := PassM.Heeds.remember isTable_current _ _
  otherMarket _ := PassM.Heeds.remember isTable_others _ _
  user _ := PassM.Heeds.remember isTable_users _ _
  pullRequest _ := PassM.Heeds.remember isTable_pulls _ _

/-- The evaluation of a tree heeds the seeds of its own nodes only. -/
theorem heeds_evaluate (market : Snapshot) (now : Instant) (r : ValueRule) (node : List Nat) :
    PassM.Heeds (· ∈ r.drawing node) (r.evaluate (worldPass market now) node) :=
  (heeds _ market now).value node r fun _ hpath => .entropy _ hpath

/-! ## Whole passes -/

/-- Whatever a pass is consulted about, no node is drawn for twice. -/
theorem consultEach_draws (market : Snapshot) (now : Instant) (w : World) (past : List Call) (memory : Memory)
    (store : Store) (cs : List Consultation) :
    (consultEach (worldPass market now) memory cs).Leads w past store fun later calls _ =>
      ∃ drawn, Drawn (fun _ => True) memory later calls drawn := by
  have law : PassLaw (worldPass market now) (PassM.DrawsAt fun _ => True) :=
    { drawsAt _ market now with entropy := fun _ => .entropy market now trivial }
  exact consultEach_leads (R := fun before calls after => ∃ drawn, Drawn (fun _ => True) before after calls drawn)
    (fun _ => ⟨[], .nothing rfl rfl⟩) (fun ⟨drawn, hd⟩ ⟨later, hl⟩ => ⟨later ++ drawn, hd.append hl⟩)
    (fun c past memory store => law.consultation c w past memory store) cs past memory store

end Arbiter
