import Arbiter.Proofs.Cycle.Justified
import Arbiter.Proofs.Outcome.Shape

/-!
# What is proposed can be sent

A check evaluates, proposes and resolves by one snapshot of its market, so the writer only ever gets values of the
market's own shape, and no run comes to the client's refusal.

* `GivesOnly`: work whose results all have a property, so that it does not matter what would follow other results.
* `checkMarket_sends`, `runEach_sends`: checks and runs are the same with another writer that treats such values alike.
* `PlatformClient.resolveOr`: a client that does something else where it refuses.
* `proposals_sendable`: what rules propose can be sent, in every run, and the client's refusal is never met.
-/

namespace Arbiter

/-! ## Work with results of one kind -/

/-- Work gives only results that `P` holds of: what would follow any other result does not matter. -/
structure GivesOnly {m : Type → Type} [Monad m] {α : Type} (P : α → Prop) (x : m α) : Prop where
  bind_congr : ∀ {γ : Type} (k k' : α → m γ), (∀ a, P a → k a = k' a) → x >>= k = x >>= k'

section

variable {m : Type → Type} [Monad m] [LawfulMonad m] {α β : Type} {P : α → Prop} {Q : β → Prop}

theorem givesOnly_pure {a : α} (h : P a) : GivesOnly P (pure a : m α) where
  bind_congr k k' hk := by rw [pure_bind, pure_bind, hk a h]

theorem GivesOnly.bind {x : m α} {f : α → m β} (hx : GivesOnly P x) (hf : ∀ a, P a → GivesOnly Q (f a)) :
    GivesOnly Q (x >>= f) where
  bind_congr k k' hk := by
    rw [bind_assoc, bind_assoc]
    exact hx.bind_congr _ _ fun a ha => (hf a ha).bind_congr k k' hk

/-- Work of which nothing is known, followed by work that gives only such results. -/
theorem givesOnly_bind {x : m α} {f : α → m β} (hf : ∀ a, GivesOnly Q (f a)) : GivesOnly Q (x >>= f) where
  bind_congr k k' hk := by
    rw [bind_assoc, bind_assoc]
    exact bind_congr fun a => (hf a).bind_congr k k' hk

/-- A crash is no result. -/
theorem givesOnly_throw (e : Crash) : GivesOnly P (throw e : CycleM m α) where
  bind_congr k k' _ := by rw [CycleM.throw_bind, CycleM.throw_bind]

theorem GivesOnly.call {x : m α} (hx : GivesOnly P x) : GivesOnly P (CycleM.call x) where
  bind_congr k k' hk := ExceptT.ext (by
    unfold CycleM.call
    rw [ExceptT.run_bind_lift, ExceptT.run_bind_lift]
    exact hx.bind_congr _ _ fun a ha => congrArg ExceptT.run (hk a ha))

end

/-- Work against a world that gives only such results ends with one of them. -/
theorem GivesOnly.leads {α : Type} {P : α → Prop} {x : Course α} (hx : GivesOnly P x) (w : World)
    (past : List Call) (store : Store) : x.Leads w past store fun a _ _ => P a := by
  have h := congrArg (fun y : Course Prop => (y.upshot w past store).result)
    (hx.bind_congr (fun a => pure (P a)) (fun _ => pure True) fun a ha => by rw [eq_true ha])
  exact of_eq_true h

section

variable {m : Type → Type} [Monad m] [LawfulMonad m]

/-! ## Proposals -/

/-- What a market should resolve to is of its shape. -/
theorem resolveTo_givesOnly (market : Market) (p : Pass m) (memory : Memory) :
    GivesOnly (fun r => ∀ v, r.1 = .ok v → Sendable p.market v) ((market.resolveTo p).runFrom memory) := by
  unfold Market.resolveTo
  split
  · rw [PassM.runFrom_bind]
    refine givesOnly_bind fun
      | (.error halt, memory) => givesOnly_pure nofun
      | (.ok raw, memory) => ?_
    dsimp only
    cases hc : Outcome.conform p.market raw with
    | error fault => exact givesOnly_pure nofun
    | ok v =>
      exact givesOnly_pure fun v' h => by
        cases h
        exact (conform_eq_ok_iff.1 hc).sendable
  · exact givesOnly_pure nofun

/-- The same of the work of a pass inside a cycle. -/
theorem inPass_givesOnly {α : Type} {P : α → Prop} {memory : Memory} {work : PassM m α}
    (hw : GivesOnly (fun r => ∀ a, r.1 = .ok a → P a) (work.runFrom memory)) :
    GivesOnly (fun r => ∀ a, r.1 = .ok a → P a) (CycleM.inPass memory work) :=
  hw.call.bind fun
    | (.ok a, memory), h => givesOnly_pure fun a' ha => by cases ha; exact h a rfl
    | (.error (.fault fault), memory), _ => givesOnly_pure nofun
    | (.error .crash, _), _ => givesOnly_throw _

/-- What is proposed for a market is of its shape. -/
theorem propose_givesOnly (s : Services m) (market : Market) (now : Instant) :
    GivesOnly (fun r => ∀ proposal, r = .ok (some proposal) → Sendable market.snapshot proposal.value)
      (propose s market now) := by
  refine givesOnly_bind fun
    | (.error fault, _) => givesOnly_pure nofun
    | (.ok false, _) => givesOnly_pure nofun
    | (.ok true, memory) => ?_
  refine (inPass_givesOnly (resolveTo_givesOnly market _ memory)).bind fun
    | (.error fault, _), _ => givesOnly_pure nofun
    | (.ok value, memory), h => ?_
  have hdone : ∀ text,
      GivesOnly (fun r => ∀ proposal, r = .ok (some proposal) → Sendable market.snapshot proposal.value)
        (pure (.ok (some ⟨market.snapshot.id, market.snapshot.question, market.snapshot.url, value, text⟩)) :
          CycleM m (Except RuleFault (Option Proposal))) := fun text =>
    givesOnly_pure fun proposal hp => by
      cases hp
      exact h value rfl
  exact givesOnly_bind fun
    | (.ok e, _) => givesOnly_bind hdone
    | (.error fault, _) => givesOnly_bind fun () => givesOnly_bind hdone

end

/-! ## Checks and runs -/

/-- Another writer in place of the one that resolves markets. -/
def Services.writingWith {m : Type → Type} (s : Services m) (resolve : Snapshot → Outcome → m (Except Failure Unit)) :
    Services m := { s with resolve }

theorem Services.writingWith_writingWith {m : Type → Type} (s : Services m)
    (resolve resolve' : Snapshot → Outcome → m (Except Failure Unit)) :
    (s.writingWith resolve).writingWith resolve' = s.writingWith resolve' := rfl

section

variable {m : Type → Type} [Monad m] {s : Services m} {resolve : Snapshot → Outcome → m (Except Failure Unit)}

theorem processRequests_sends (dryRun : Bool) : ∀ (requests : List PendingRequest) (created : Nat),
    processRequests (s.writingWith resolve) dryRun created requests = processRequests s dryRun created requests
  | [], _ => rfl
  | _ :: rest, _ => by
    unfold processRequests
    simp only [processRequests_sends dryRun rest]
    rfl

/-- The queue has nothing to do with resolutions. -/
theorem processPending_sends (dryRun : Bool) :
    processPending (s.writingWith resolve) dryRun = processPending s dryRun := by
  unfold processPending
  simp only [processRequests_sends]
  rfl

variable (h : ∀ market v, Sendable market v → resolve market v = s.resolve market v)

include h

/-- The decision about a value of the market's shape is applied alike. -/
theorem settle_sends (dryRun : Bool) {market : Market} (now : Instant) {proposal : Proposal}
    (hp : Sendable market.snapshot proposal.value) :
    settle (s.writingWith resolve) dryRun market now proposal = settle s dryRun market now proposal := by
  have happly : ∀ decision, applyDecision (s.writingWith resolve) dryRun market proposal decision =
      applyDecision s dryRun market proposal decision := fun
    | .resolve => by
      unfold applyDecision Services.writingWith
      dsimp only
      rw [h _ _ hp]
    | .cancel | .skip => rfl
  unfold settle
  simp only [happly]
  rfl

variable [LawfulMonad m]

theorem checkFresh_sends (dryRun : Bool) (market : Market) (now : Instant) :
    checkFresh (s.writingWith resolve) dryRun market now = checkFresh s dryRun market now := by
  unfold checkFresh
  split
  · rfl
  · refine (propose_givesOnly s market now).bind_congr _ _ fun
      | .error _, _ | .ok none, _ => rfl
      | .ok (some proposal), hp => ?_
    dsimp only
    rw [settle_sends h dryRun now (hp proposal rfl)]

/-- A check is the same. -/
theorem checkMarket_sends (dryRun : Bool) (market : Market) (refresh : Bool) (now : Instant) :
    checkMarket (s.writingWith resolve) dryRun market refresh now = checkMarket s dryRun market refresh now := by
  unfold checkMarket
  simp only [checkFresh_sends h]
  rfl

theorem processMarkets_sends (dryRun refresh : Bool) (now : Instant) :
    ∀ (rows : List (Int × Market)) (summary : CycleSummary),
      processMarkets (s.writingWith resolve) dryRun refresh now summary rows =
        processMarkets s dryRun refresh now summary rows
  | [], _ => rfl
  | (row, market) :: rest, summary => by
    have hrow : processMarket (s.writingWith resolve) dryRun refresh now summary row market =
        processMarket s dryRun refresh now summary row market := by
      unfold processMarket
      simp only [checkMarket_sends h]
      rfl
    unfold processMarkets
    rw [hrow]
    exact bind_congr fun summary => processMarkets_sends dryRun refresh now rest summary

/-- A run of cycles is the same. -/
theorem runEach_sends (dryRun : Bool) : ∀ cycles : List Bool,
    runEach (s.writingWith resolve) dryRun cycles = runEach s dryRun cycles
  | [] => rfl
  | refresh :: rest => by
    have hcycle : runCycle (s.writingWith resolve) dryRun refresh = runCycle s dryRun refresh := by
      unfold runCycle checkAll
      simp only [processMarkets_sends h, processPending_sends]
      rfl
    unfold runEach
    rw [hcycle, runEach_sends dryRun rest]

end

/-! ## The calls of a run -/

/-- An orderly check resolves its market only to values of its shape. -/
theorem CheckOrderly.sendable {w : World} {dryRun : Bool} {market : Market} {now : Instant} {past calls : List Call}
    (h : CheckOrderly w dryRun market now past calls) :
    ∀ c ∈ calls, ∀ seen v, c.question = .resolve seen v → Sendable seen v := by
  intro c hc seen v hq
  obtain ⟨before, after, rfl⟩ := List.append_of_mem hc
  obtain ⟨question, answer⟩ := c
  subst hq
  obtain ⟨-, -, -, reading, proposal, -, hp, -⟩ := h.resolves before seen v answer after rfl
  obtain ⟨-, -, -, -, -, -, raw, -, -, -, -, hconform, -⟩ := hp
  exact (conform_eq_ok_iff.1 hconform).sendable

theorem ChecksOrderly.sendable {w : World} {dryRun refresh : Bool} {now : Instant} {past calls : List Call}
    {rows : List (Int × Market)} (h : ChecksOrderly w dryRun refresh now past rows calls) :
    ∀ c ∈ calls, ∀ seen v, c.question = .resolve seen v → Sendable seen v := by
  induction h with
  | stop => simp
  | leave _ _ _ ih => exact ih
  | check _ hc _ ih => exact List.forall_mem_append.2 ⟨hc.sendable, ih⟩

/-- Nothing is resolved on account of the queue. -/
theorem QueueOrderly.sendable {dryRun : Bool} {calls : List Call} (h : QueueOrderly dryRun calls) :
    ∀ c ∈ calls, ∀ seen v, c.question = .resolve seen v → Sendable seen v := by
  intro c hc seen v hq
  obtain ⟨-, request, hcreate⟩ := (h c hc).2 (by rw [hq]; rfl)
  rw [hq] at hcreate
  cases hcreate

/-- An orderly run resolves markets only to values of their shape. -/
theorem RunOrderly.sendable {w : World} {journal dryRun : Bool} {past calls : List Call} {store : Store}
    {cycles : List Bool} (h : RunOrderly w journal dryRun past store cycles calls) :
    ∀ c ∈ calls, ∀ seen v, c.question = .resolve seen v → Sendable seen v := by
  induction h with
  | stop => simp
  | cycle hc _ ih =>
    refine List.forall_mem_append.2 ⟨?_, ih⟩
    cases hc with
    | unchecked hq => exact hq.sendable
    | @checked queue checks _ _ now _ ho hc =>
      have hquiet : QueueOrderly dryRun [⟨.clock, now⟩, ⟨.access, none⟩] :=
        ((quiet_access none).cons ⟨rfl, rfl⟩).queueOrderly
      exact List.forall_mem_append.2 ⟨ho.sendable, List.forall_mem_append.2 ⟨hquiet.sendable, hc.sendable⟩⟩

/-! ## The client -/

namespace PlatformClient

variable {m : Type → Type} [Monad m] (c : PlatformClient m)
  (other : Snapshot → Outcome → m (Except Failure Unit))

/-- Resolves a market, but does something else where the client refuses because there is no message for the value. -/
def resolveOr (market : Snapshot) (value : Outcome) : m (Except Failure Unit) :=
  match resolutionMessage market value with
  | .error _ => other market value
  | .ok _ => c.resolve market value

/-- The client does not refuse a value of the market's shape. -/
theorem resolveOr_of_sendable {market : Snapshot} {value : Outcome} (h : Sendable market value) :
    c.resolveOr other market value = c.resolve market value := by
  obtain ⟨message, hm, -⟩ := h.message
  unfold resolveOr
  rw [hm]

end PlatformClient

/-- What is proposed can be sent. Whatever the rules come to in a pass over a market, if it passes the last check then
it is of the market's shape, and the message to the platform exists and names only answers of the market. In every run
markets are resolved only to values of the shape that they have in the same snapshot. And the client's refusal is never
met: checks and runs are the same whatever it does there. -/
theorem proposals_sendable {m : Type → Type} [Monad m] [LawfulMonad m] :
    (∀ (w : World) (market : Market) (seen : Snapshot) (now : Instant) (memory : Memory) (past : List Call)
      (store : Store), ((market.resolveTo (worldPass seen now)).runFrom memory).Leads w past store fun result _ _ =>
        ∀ v, result.1 = .ok v → Sendable seen v ∧ ∃ message, resolutionMessage seen v = .ok message ∧
          ∀ answer ∈ namedAnswers message, ∃ i < seen.answers.length, answer = .nat i) ∧
    (∀ (w : World) (journal dryRun : Bool) (cycles : List Bool) (past : List Call) (store : Store),
      (runEach (services journal) dryRun cycles).Leads w past store fun _ calls _ =>
        ∀ c ∈ calls, ∀ seen v, c.question = .resolve seen v → Sendable seen v) ∧
    (∀ (s : Services m) (c : PlatformClient m) (other : Snapshot → Outcome → m (Except Failure Unit)) (dryRun : Bool),
      (∀ (market : Market) (refresh : Bool) (now : Instant),
        checkMarket (s.writingWith (c.resolveOr other)) dryRun market refresh now =
          checkMarket (s.writingWith c.resolve) dryRun market refresh now) ∧
      ∀ cycles : List Bool,
        runEach (s.writingWith (c.resolveOr other)) dryRun cycles =
          runEach (s.writingWith c.resolve) dryRun cycles) := by
  refine ⟨fun w market seen now memory past store => ?_, fun w journal dryRun cycles past store => ?_,
    fun s c other dryRun => ?_⟩
  · have honly := resolveTo_givesOnly market (worldPass seen now) memory
    exact (honly.leads w past store).mono fun result _ _ h v hv => ⟨h v hv, (h v hv).message⟩
  · exact (runEach_leads journal dryRun cycles past store).mono fun _ _ _ h => h.sendable
  · have h : ∀ market v, Sendable market v →
        c.resolveOr other market v = (s.writingWith c.resolve).resolve market v := fun market v =>
      c.resolveOr_of_sendable other
    rw [← Services.writingWith_writingWith s c.resolve (c.resolveOr other)]
    exact ⟨fun market refresh now => checkMarket_sends h dryRun market refresh now,
      fun cycles => runEach_sends h dryRun cycles⟩

/-- A market that resolves to YES. -/
def yesMarket : Market where
  snapshot := ⟨"a", "", "A?", .binary, none, none, false, [], none, false⟩
  triggers := [.thisMarketClosed none]
  values := [.constant (.bool true)]
  checkRate := 1
  lastChecked := none
  notes := ""
  initialValues := none

/-- Its certainty can be sent, also after the market was fetched with another question. -/
theorem yesMarket_sendable :
    let seen := { yesMarket.snapshot with question := "B?" }
    Sendable seen (.probability 100) ∧ ∃ message, resolutionMessage seen (.probability 100) = .ok message := by
  intro seen
  have h := (proposals_sendable (m := Course)).1 (World.still ⟨0, 0⟩) yesMarket seen ⟨0, 0⟩ Memory.empty [] ⟨none, none⟩
  obtain ⟨hs, message, hm, -⟩ := h (.probability 100) rfl
  exact ⟨hs, message, hm⟩

end Arbiter
