import Arbiter.Proofs.Pass.Law
import Arbiter.Proofs.World

/-!
# Rules only read

Whatever the rules of a market are, their evaluation and their explanation ask the world nothing but what rules may ask,
leave the store alone, and come to the same wherever the world answers alike.

* `Alike`: two worlds that give the same answers from here on, as far as these bear on a market.
* `Course.OnlyReads`: work of this kind. `passReads`: all work on rules is of this kind.
-/

namespace Arbiter

/-- Nothing is asked but what rules may ask. -/
def Readings (calls : List Call) : Prop := ∀ c ∈ calls, c.question.isReading = true

theorem readings_nil : Readings [] := by simp [Readings]

theorem Readings.append {calls more : List Call} (h : Readings calls) (h' : Readings more) : Readings (calls ++ more) :=
  List.forall_mem_append.2 ⟨h, h'⟩

/-! ## Worlds that answer alike -/

/-- Whether what becomes of a market may depend on the answer: not so for the clock, which is read before the checks, nor
for the journal. -/
def Question.bears : Question → Bool
  | .snapshot _ | .confirm _ _ | .resolve _ _ | .cancel _ => true
  | q => q.isReading

theorem Question.bears_of_isReading {q : Question} (h : q.isReading = true) : q.bears = true := by
  cases q <;> first | rfl | cases h

/-- From some calls on two worlds give the same answers, as far as these bear on a market. -/
def Alike (w w' : World) (past past' : List Call) : Prop :=
  ∀ (more : List Call) (q : Question), q.bears = true → w.answer (past ++ more) q = w'.answer (past' ++ more) q

theorem alike_refl (w : World) (past : List Call) : Alike w w past past := fun _ _ _ => rfl

section

variable {w w' : World} {past past' : List Call}

theorem Alike.append (h : Alike w w' past past') (calls : List Call) : Alike w w' (past ++ calls) (past' ++ calls) :=
  fun more q hq => by
    rw [List.append_assoc, List.append_assoc]
    exact h (calls ++ more) q hq

theorem Alike.answer (h : Alike w w' past past') {q : Question} (hq : q.bears = true) :
    w.answer past q = w'.answer past' q := by
  have := h [] q hq
  rwa [List.append_nil, List.append_nil] at this

end

/-! ## Work that only reads -/

namespace Course

variable {α β : Type}

/-- Wherever it begins, the work asks only what rules may ask, leaves the store alone, and comes to the same where the
world answers alike. -/
def OnlyReads (x : Course α) : Prop :=
  ∀ w w' past past', Alike w w' past past' →
    ∃ a calls, x.Gives w past a calls ∧ x.Gives w' past' a calls ∧ Readings calls

theorem onlyReads_pure (a : α) : (pure a : Course α).OnlyReads := fun _ _ _ _ _ =>
  ⟨a, [], gives_pure a, gives_pure a, readings_nil⟩

theorem onlyReads_ask {q : Question} (hq : q.isReading = true) : (ask q).OnlyReads := fun w w' past past' h => by
  refine ⟨w.answer past q, [⟨q, w.answer past q⟩], gives_ask q, ?_, List.forall_mem_singleton.2 hq⟩
  rw [h.answer (Question.bears_of_isReading hq)]
  exact gives_ask q

theorem OnlyReads.bind {x : Course α} {f : α → Course β} (hx : x.OnlyReads) (hf : ∀ a, (f a).OnlyReads) :
    (x >>= f).OnlyReads := fun w w' past past' h => by
  obtain ⟨a, calls, ha, ha', hc⟩ := hx w w' past past' h
  obtain ⟨b, more, hb, hb', hm⟩ := hf a w w' (past ++ calls) (past' ++ calls) (h.append calls)
  exact ⟨b, calls ++ more, ha.bind hb, ha'.bind hb', hc.append hm⟩

/-- In one world such work comes to one result. -/
theorem OnlyReads.gives {x : Course α} (hx : x.OnlyReads) (w : World) (past : List Call) :
    ∃ a calls, x.Gives w past a calls ∧ Readings calls := by
  obtain ⟨a, calls, ha, -, hc⟩ := hx w w past past (alike_refl w past)
  exact ⟨a, calls, ha, hc⟩

end Course

theorem onlyReads_remember {α κ : Type} [DecidableEq κ] (table : Memory → Cache κ α)
    (store : Memory → Cache κ α → Memory) (key : κ) {read : Course (Except ReadFault α)} (hr : read.OnlyReads)
    (memory : Memory) : ((remember table store key read).runFrom memory).OnlyReads := by
  rw [PassM.runFrom_remember]
  cases (table memory).get? key with
  | some value => exact Course.onlyReads_pure _
  | none => exact hr.bind fun
      | .ok _ => Course.onlyReads_pure _
      | .error _ => Course.onlyReads_pure _

/-- All work on rules only reads. -/
theorem passReads (market : Snapshot) (now : Instant) :
    PassLaw (worldPass market now) fun x => ∀ memory, (x.runFrom memory).OnlyReads where
  pure a memory := Course.onlyReads_pure (Except.ok a, memory)
  bind hx hf memory := by
    rw [PassM.runFrom_bind]
    exact (hx memory).bind fun
      | (.ok a, memory) => hf a memory
      | (.error halt, memory) => Course.onlyReads_pure (Except.error halt, memory)
  halt h memory := Course.onlyReads_pure (Except.error h, memory)
  currentValue := onlyReads_remember _ _ _ (Course.onlyReads_ask rfl)
  otherMarket _ := onlyReads_remember _ _ _ (Course.onlyReads_ask rfl)
  user _ := onlyReads_remember _ _ _ (Course.onlyReads_ask rfl)
  pullRequest _ := onlyReads_remember _ _ _ (Course.onlyReads_ask rfl)
  entropy node memory := by
    unfold PassM.runFrom Pass.entropy
    cases memory.seeds.get? node with
    | some seed => exact Course.onlyReads_pure (Except.ok seed, memory)
    | none =>
      exact (Course.onlyReads_ask (q := .entropy) rfl).bind fun (seed : UInt64) =>
        Course.onlyReads_pure (Except.ok seed, { memory with seeds := memory.seeds.insert node seed })

end Arbiter
