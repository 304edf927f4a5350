import Arbiter.Proofs.Pass.Durable

/-!
# How work of a pass ends

Against a world, work of a pass leads from one moment of a run to another one.

* `PassM.endsAt`: how work ends that begins at a moment, and when. `PassM.ext_endsAt`: work is known by its ends.
* `PassM.Succeeds`: the work comes to something. `succeeds_bind`, `succeeds_map`: one rule for each way of putting work
  together.
* `PassM.halt_of_remember`, `PassM.endsAt_generator`: a read ends with a fault of the world or succeeds, a draw always
  succeeds.
* `PassM.Durable.settled`: what succeeded once comes to the same at once from then on.
-/

namespace Arbiter

/-- A moment of a run: the calls up to it, what the pass remembers and the store. -/
structure Moment where
  past : List Call
  memory : Memory
  store : Store

namespace PassM

variable {α β : Type} {w : World} {s t : Moment}

/-- Work of a pass that keeps a state of its own besides. -/
theorem runFrom_bind_state {σ : Type} {m : Type → Type} [Monad m] (memory : Memory) (state : σ)
    (work : PassM (StateT σ m) α) (f : α → PassM (StateT σ m) β) :
    (work >>= f).runFrom memory state = work.runFrom memory state >>= fun
      | ((.ok a, memory), state) => (f a).runFrom memory state
      | ((.error halt, memory), state) => pure ((.error halt, memory), state) := by
  rw [runFrom_bind]
  refine congrArg (work.runFrom memory state >>= ·) (funext fun ((result, memory), state) => ?_)
  cases result <;> rfl

/-- How work ends that begins at a moment, and when. -/
def endsAt (w : World) (x : PassM Course α) (s : Moment) : Except Halt α × Moment :=
  let u := (x.runFrom s.memory).upshot w s.past s.store
  (u.result.1, ⟨s.past ++ u.calls, u.result.2, u.store⟩)

/-- Begun at `s`, the work comes to `a` at `t`. -/
def Succeeds (w : World) (x : PassM Course α) (s : Moment) (a : α) (t : Moment) : Prop :=
  x.endsAt w s = (.ok a, t)

/-- Work has one end. -/
theorem succeeds_unique {x : PassM Course α} {s t u : Moment} {a b : α} (h : Succeeds w x s a t)
    (h' : Succeeds w x s b u) : a = b ∧ t = u := by
  obtain ⟨ha, ht⟩ := Prod.mk.inj (h.symm.trans h')
  exact ⟨Except.ok.inj ha, ht⟩

theorem upshot_eq_endsAt (x : PassM Course α) (memory : Memory) (past : List Call) (store : Store) :
    ∃ calls, (x.runFrom memory).upshot w past store =
        ⟨((x.endsAt w ⟨past, memory, store⟩).1, (x.endsAt w ⟨past, memory, store⟩).2.memory), calls,
          (x.endsAt w ⟨past, memory, store⟩).2.store⟩ ∧
      (x.endsAt w ⟨past, memory, store⟩).2.past = past ++ calls :=
  ⟨_, rfl, rfl⟩

/-- Work is the same if it ends alike against every world, whenever it begins. -/
theorem ext_endsAt {x y : PassM Course α} (h : ∀ w s, x.endsAt w s = y.endsAt w s) : x = y := by
  refine PassM.ext fun memory => Course.ext fun w past store => ?_
  obtain ⟨calls, hx, hcalls⟩ := upshot_eq_endsAt (w := w) x memory past store
  obtain ⟨calls', hy, hcalls'⟩ := upshot_eq_endsAt (w := w) y memory past store
  rw [h] at hx hcalls
  have hsame : calls = calls' := List.append_cancel_left (hcalls.symm.trans hcalls')
  rw [hx, hy, hsame]

@[simp] theorem endsAt_pure (a : α) : (pure a : PassM Course α).endsAt w s = (.ok a, s) := by
  simp [endsAt]

theorem endsAt_throw (halt : Halt) : (throw halt : PassM Course α).endsAt w s = (.error halt, s) :=
  Prod.ext rfl (congrArg (Moment.mk · s.memory s.store) (List.append_nil s.past))

theorem endsAt_fail (f : RuleFault) : (PassM.fail f : PassM Course α).endsAt w s = (.error (.fault f), s) :=
  endsAt_throw _

theorem endsAt_bind (x : PassM Course α) (f : α → PassM Course β) :
    (x >>= f).endsAt w s = match x.endsAt w s with
      | (.ok a, t) => (f a).endsAt w t
      | (.error halt, t) => (.error halt, t) := by
  simp only [endsAt, runFrom_bind, Course.upshot_bind]
  generalize (x.runFrom s.memory).upshot w s.past s.store = u
  obtain ⟨⟨result, memory⟩, calls, store⟩ := u
  cases result with
  | ok a => simp
  | error halt => simp

/-- A computation without reads ends on the spot. -/
theorem endsAt_ofExcept (r : Except RuleFault α) : (PassM.ofExcept r).endsAt w s = (r.mapError Halt.fault, s) := by
  cases r with
  | ok a => exact endsAt_pure a
  | error f => exact endsAt_fail f

/-- A read that does not succeed ends with a fault of the world. -/
theorem halt_of_remember {κ : Type} [DecidableEq κ] {table : Memory → Cache κ α} {put : Memory → Cache κ α → Memory}
    {key : κ} {read : Course (Except ReadFault α)} {halt : Halt}
    (h : ((remember table put key read).endsAt w s).1 = .error halt) : ∃ fault, halt = .fault (.read fault) := by
  unfold endsAt at h
  rw [runFrom_remember] at h
  cases hk : (table s.memory).get? key with
  | some a =>
    rw [hk] at h
    cases h
  | none =>
    rw [hk] at h
    dsimp only at h
    rw [Course.upshot_bind] at h
    generalize (read.upshot w s.past s.store).result = answer at h
    cases answer with
    | ok a => cases h
    | error fault =>
      cases h
      exact ⟨fault, rfl⟩

/-- A node always gets a seed. -/
theorem endsAt_entropy (market : Snapshot) (now : Instant) (node : List Nat) (w : World) (s : Moment) :
    ∃ seed t, ((worldPass market now).entropy node).endsAt w s = (.ok seed, t) := by
  unfold endsAt runFrom Pass.entropy
  cases s.memory.seeds.get? node with
  | some seed => exact ⟨seed, _, rfl⟩
  | none => exact ⟨_, _, rfl⟩

/-- So it always gets a generator. -/
theorem endsAt_generator (market : Snapshot) (now : Instant) (node : List Nat) (seed : Option Seed) (w : World)
    (s : Moment) : ∃ g t, ((worldPass market now).generator node seed).endsAt w s = (.ok g, t) := by
  cases seed with
  | some seed => exact ⟨_, _, endsAt_pure _⟩
  | none =>
    obtain ⟨seed, t, hseed⟩ := endsAt_entropy market now node w s
    refine ⟨Generator.ofNumber seed, t, ?_⟩
    unfold Pass.generator
    rw [endsAt_bind, hseed]
    exact endsAt_pure _

/-- Work that comes to something at once. -/
theorem endsAt_of_settled {x : PassM Course α} {a : α} (h : x.runFrom s.memory = pure (.ok a, s.memory)) :
    x.endsAt w s = (.ok a, s) := by
  simp [endsAt, h]

@[simp] theorem succeeds_pure {a b : α} : Succeeds w (pure a : PassM Course α) s b t ↔ a = b ∧ s = t := by
  simp [Succeeds]

theorem succeeds_bind {x : PassM Course α} {f : α → PassM Course β} {b : β} :
    Succeeds w (x >>= f) s b t ↔ ∃ a u, Succeeds w x s a u ∧ Succeeds w (f a) u b t := by
  simp only [Succeeds, endsAt_bind]
  generalize x.endsAt w s = ends
  obtain ⟨result, u⟩ := ends
  cases result with
  | ok a =>
    refine ⟨fun h => ⟨a, u, rfl, h⟩, fun ⟨_, _, hx, h⟩ => ?_⟩
    cases hx
    exact h
  | error halt => simp

/-- Work followed by other work crashes where the first does, or where it succeeds and the other crashes. -/
theorem crashes_bind {x : PassM Course α} {f : α → PassM Course β} :
    ((x >>= f).endsAt w s).1 = .error .crash ↔
      (x.endsAt w s).1 = .error .crash ∨ ∃ a u, Succeeds w x s a u ∧ ((f a).endsAt w u).1 = .error .crash := by
  simp only [Succeeds, endsAt_bind]
  generalize x.endsAt w s = ends
  obtain ⟨result, u⟩ := ends
  cases result with
  | ok a =>
    refine ⟨fun h => .inr ⟨a, u, rfl, h⟩, ?_⟩
    rintro (h | ⟨_, _, hx, h⟩)
    · cases h
    · cases hx
      exact h
  | error halt => simp

theorem succeeds_map {x : PassM Course α} {f : α → β} {b : β} :
    Succeeds w (f <$> x) s b t ↔ ∃ a, f a = b ∧ Succeeds w x s a t := by
  rw [map_eq_pure_bind, succeeds_bind]
  constructor
  · rintro ⟨a, u, hx, hb⟩
    obtain ⟨rfl, rfl⟩ := succeeds_pure.1 hb
    exact ⟨a, rfl, hx⟩
  · rintro ⟨a, rfl, hx⟩
    exact ⟨a, t, hx, succeeds_pure.2 ⟨rfl, rfl⟩⟩

theorem not_succeeds_fail {f : RuleFault} {a : α} : ¬ Succeeds w (PassM.fail f : PassM Course α) s a t := by
  simp [Succeeds, endsAt]

/-- Work without reads succeeds on the spot. -/
theorem succeeds_ofExcept {r : Except RuleFault α} {a : α} :
    Succeeds w (PassM.ofExcept r) s a t ↔ r = .ok a ∧ s = t := by
  cases r with
  | ok b => simp [PassM.ofExcept]
  | error f => simp [PassM.ofExcept, not_succeeds_fail]

/-- Durable work that succeeded only added to the memory, and comes to the same at once from every later one. -/
theorem Durable.settled {x : PassM Course α} (hx : Durable x) {a : α} (h : Succeeds w x s a t) :
    s.memory ≤ t.memory ∧ ∀ later, t.memory ≤ later → x.runFrom later = pure (.ok a, later) := by
  obtain ⟨hgrows, hlasts⟩ := hx w s.past s.memory s.store
  have hends := Prod.mk.inj h
  rw [← hends.2]
  exact ⟨hgrows, hlasts a hends.1⟩

end PassM

end Arbiter
