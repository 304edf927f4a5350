import Arbiter.Proofs.Pass.Law
import Arbiter.Proofs.Pass.Memory
import Arbiter.Proofs.World

/-!
# What a pass came to lasts

Work on rules only adds to the memory of a pass. Once it succeeded, all that it has to know is remembered; so from then on
it comes to the same and asks nothing, whoever would answer.

* `PassM.Durable`: work of this kind. `durableReads`: all work on rules is of this kind.
* `Consultation`: what a pass can be consulted about. `consultEach`: consultations one after another.
* `consultation_lasts`: a successful consultation lasts, whatever else is consulted in between.
-/

namespace Arbiter

/-! ## Durable work -/

/-- Wherever it begins, the work only adds to the memory; if it succeeds, then from every memory that keeps what it leaves
it comes to the same at once. -/
def PassM.Durable {α : Type} (x : PassM Course α) : Prop :=
  ∀ (w : World) (past : List Call) (memory : Memory) (store : Store),
    (x.runFrom memory).Leads w past store fun ends _ _ =>
      memory ≤ ends.2 ∧ ∀ a, ends.1 = .ok a → ∀ later, ends.2 ≤ later → x.runFrom later = pure (.ok a, later)

namespace PassM.Durable

variable {α β κ : Type} [DecidableEq κ]

protected theorem pure (a : α) : Durable (Pure.pure a : PassM Course α) := fun _ _ memory _ =>
  ⟨memory.le_refl, fun b hb later _ => by
    cases hb
    rfl⟩

protected theorem halt (h : Halt) : Durable (throw h : PassM Course α) := fun _ _ memory _ => ⟨memory.le_refl, nofun⟩

protected theorem bind {x : PassM Course α} {f : α → PassM Course β} (hx : Durable x) (hf : ∀ a, Durable (f a)) :
    Durable (x >>= f) := by
  intro w past memory store
  rw [PassM.runFrom_bind]
  refine (hx w past memory store).bind fun (result, middle) calls store' ⟨hgrows, hlasts⟩ => ?_
  cases result with
  | error halt => exact ⟨hgrows, nofun⟩
  | ok a =>
    refine (hf a w (past ++ calls) middle store').mono fun ends more _ ⟨hmore, hends⟩ => ?_
    refine ⟨Memory.le_trans hgrows hmore, fun b hb later hlater => ?_⟩
    have hfirst : x.runFrom later = Pure.pure (.ok a, later) := hlasts a rfl later (Memory.le_trans hmore hlater)
    rw [PassM.runFrom_bind_of hfirst]
    exact hends b hb later hlater

/-- A read is durable, since its answer is remembered. -/
protected theorem remember {table : Memory → Cache κ α} {store : Memory → Cache κ α → Memory}
    (ht : IsTable table store) (key : κ) (read : Course (Except ReadFault α)) :
    Durable (remember table store key read) := by
  intro w past memory s
  rw [PassM.runFrom_remember]
  cases hk : (table memory).get? key with
  | some value =>
    refine ⟨memory.le_refl, fun a ha later hlater => ?_⟩
    cases ha
    exact remember_known (ht.kept memory later hlater key value hk)
  | none =>
    refine Course.leads_bind.2 (Course.leads_of_upshot fun result calls s' _ => ?_)
    cases result with
    | error fault => exact ⟨memory.le_refl, nofun⟩
    | ok value =>
      refine ⟨ht.grows memory _ ((table memory).le_insert value hk), fun a ha later hlater => ?_⟩
      cases ha
      have hstored : (table (store memory ((table memory).insert key value))).get? key = some value := by
        rw [ht.stored, Cache.get?_insert_self]
      exact remember_known (ht.kept _ later hlater key value hstored)

/-- So is a draw, since its word is remembered. -/
protected theorem entropy (p : Pass Course) (node : List Nat) : Durable (p.entropy node) := by
  have hknown : ∀ {memory : Memory} {seed : UInt64}, memory.seeds.get? node = some seed →
      (p.entropy node).runFrom memory = Pure.pure (.ok seed, memory) := by
    intro memory seed hs
    unfold PassM.runFrom Pass.entropy
    rw [hs]
  intro w past memory store
  cases hs : memory.seeds.get? node with
  | some seed =>
    rw [hknown hs]
    refine ⟨memory.le_refl, fun a ha later hlater => ?_⟩
    cases ha
    exact hknown (hlater.seeds node seed hs)
  | none =>
    unfold PassM.runFrom Pass.entropy
    rw [hs]
    refine Course.leads_bind.2 (Course.leads_of_upshot fun seed calls store' _ => ?_)
    refine ⟨{ memory.le_refl with seeds := memory.seeds.le_insert seed hs }, fun a ha later hlater => ?_⟩
    cases ha
    exact hknown (hlater.seeds node seed (Cache.get?_insert_self _ _ _))

end PassM.Durable

/-- All work on rules is durable. -/
theorem durableReads (market : Snapshot) (now : Instant) : PassLaw (worldPass market now) PassM.Durable where
  pure := PassM.Durable.pure
  bind := PassM.Durable.bind
  halt := PassM.Durable.halt
  currentValue := PassM.Durable.remember isTable_current _ _
  otherMarket _ := PassM.Durable.remember isTable_others _ _
  user _ := PassM.Durable.remember isTable_users _ _
  pullRequest _ := PassM.Durable.remember isTable_pulls _ _
  entropy := PassM.Durable.entropy _

/-! ## Consultations -/

/-- What a pass can be consulted about: rules of both families, alone and as those of a market. -/
inductive Consultation where
  | trigger (r : Trigger)
  | value (node : List Nat) (r : ValueRule)
  | explainTrigger (depth : Nat) (r : Trigger)
  | explainValue (node : List Nat) (depth : Nat) (r : ValueRule)
  | shouldResolve (market : Market)
  | resolveTo (market : Market)
  | explainMarket (market : Market)

namespace Consultation

/-- What a successful consultation gives. -/
def Answer : Consultation → Type
  | trigger _ | shouldResolve _ => Bool
  | value _ _ | resolveTo _ => Outcome
  | explainTrigger _ _ => List Line × Bool
  | explainValue _ _ _ => List Line × Outcome
  | explainMarket _ => MarketExplanation

/-- The work of a consultation in a pass. -/
def work {m : Type → Type} [Monad m] (p : Pass m) : (c : Consultation) → PassM m c.Answer
  | trigger r => r.evaluate p
  | value node r => r.evaluate p node
  | explainTrigger depth r => r.explainIn p depth
  | explainValue node depth r => r.explainIn p node depth
  | shouldResolve market => market.shouldResolve p
  | resolveTo market => market.resolveTo p
  | explainMarket market => market.explainIn p

end Consultation

/-- What is remembered after some consultations in a pass, be they successful or not. -/
def consultEach {m : Type → Type} [Monad m] (p : Pass m) (memory : Memory) : List Consultation → m Memory
  | [] => pure memory
  | c :: rest => do
    let (_, memory) ← (c.work p).runFrom memory
    consultEach p memory rest

/-- What holds of all work on rules holds of every consultation. -/
theorem PassLaw.consultation {m : Type → Type} [Monad m] {p : Pass m} {P : {α : Type} → PassM m α → Prop}
    (law : PassLaw p P) : ∀ c : Consultation, P (c.work p)
  | .trigger r => law.trigger r
  | .value node r => law.value node r
  | .explainTrigger depth r => law.explainedTrigger depth r
  | .explainValue node depth r => law.explainedValue node depth r
  | .shouldResolve market => law.shouldResolve market
  | .resolveTo market => law.resolveTo market
  | .explainMarket market => law.explainIn market

/-- What holds between the memories before and after each consultation, and is put together one after another, holds of
several consultations. -/
theorem consultEach_leads {p : Pass Course} {w : World} {R : Memory → List Call → Memory → Prop}
    (hnone : ∀ memory, R memory [] memory)
    (happend : ∀ {before middle after calls more},
      R before calls middle → R middle more after → R before (calls ++ more) after)
    (heach : ∀ (c : Consultation) (past : List Call) (memory : Memory) (store : Store),
      ((c.work p).runFrom memory).Leads w past store fun ends calls _ => R memory calls ends.2)
    (cs : List Consultation) : ∀ (past : List Call) (memory : Memory) (store : Store),
      (consultEach p memory cs).Leads w past store fun later calls _ => R memory calls later := by
  induction cs with
  | nil => exact fun _ memory _ => hnone memory
  | cons c rest ih =>
    intro past memory store
    refine (heach c past memory store).bind fun (_, middle) calls store' h => ?_
    exact (ih (past ++ calls) middle store').mono fun _ _ _ h' => happend h h'

/-- Consultations only add to the memory. -/
theorem consultEach_grows (market : Snapshot) (now : Instant) (w : World) (past : List Call) (memory : Memory)
    (store : Store) (cs : List Consultation) :
    (consultEach (worldPass market now) memory cs).Leads w past store fun later _ _ => memory ≤ later := by
  have law := durableReads market now
  exact consultEach_leads (R := fun before _ after => before ≤ after) Memory.le_refl Memory.le_trans
    (fun c past memory store => (law.consultation c w past memory store).mono fun _ _ _ h => h.1) cs past memory store

/-- A successful consultation lasts for the rest of the pass. The memory never loses anything; and if the evaluation of a
rule of either family, or any other consultation, succeeds in one world, then after any further consultations in another
world it gives the same in a third one, and asks nothing. -/
theorem consultation_lasts (market : Snapshot) (now : Instant) (c : Consultation) (between : List Consultation)
    (memory : Memory) (store : Store) (w w' w'' : World) (past past' past'' : List Call) :
    let p := worldPass market now
    let first := ((c.work p).runFrom memory).upshot w past store
    let meanwhile := (consultEach p first.result.2 between).upshot w' past' store
    memory ≤ first.result.2 ∧ first.result.2 ≤ meanwhile.result ∧
    ∀ a, first.result.1 = .ok a →
      ((c.work p).runFrom meanwhile.result).upshot w'' past'' store = ⟨(.ok a, meanwhile.result), [], store⟩ := by
  intro p first meanwhile
  obtain ⟨hgrows, hlasts⟩ := (durableReads market now).consultation c w past memory store
  have hmeanwhile : first.result.2 ≤ meanwhile.result :=
    consultEach_grows market now w' past' first.result.2 store between
  refine ⟨hgrows, hmeanwhile, fun a ha => ?_⟩
  rw [hlasts a ha meanwhile.result hmeanwhile]
  rfl

/-- A market that was seen closed stays closed for the pass, though from then on every read fails. -/
theorem seenClosed_lasts :
    let now : Instant := ⟨1709298000, 0⟩
    let w : World := ⟨fun
      | _, .otherMarket _ => .ok ⟨"Q?", true, false, .bool true⟩
      | past, q => (World.still now).answer past q⟩
    let p := worldPass ⟨"m", "u", "M?", .binary, none, none, false, [], none, false⟩ now
    let closed := Consultation.trigger (.otherMarketClosed "a")
    let first := ((closed.work p).runFrom .empty).upshot w [] .empty
    let meanwhile := (consultEach p first.result.2 [.value [0] .currentValue, closed]).upshot (World.still now) [] .empty
    first.result.1 = .ok true ∧
    ((closed.work p).runFrom meanwhile.result).upshot (World.still now) [] .empty =
      ⟨(.ok true, meanwhile.result), [], .empty⟩ := by
  intro now w p closed first meanwhile
  have hclosed : first.result.1 = .ok true := rfl
  exact ⟨hclosed, (consultation_lasts p.market now closed [.value [0] .currentValue, closed] .empty .empty w
    (World.still now) (World.still now) [] [] []).2.2 true hclosed⟩

end Arbiter
