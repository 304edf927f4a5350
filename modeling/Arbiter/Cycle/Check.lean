import Arbiter.Cycle.Services

/-!
# Checking one market

A check fetches the market anew, asks its rules, has the outcome confirmed and applies the decision.

* `checkMarket`: the state that the check ended in, and the market after it. A check that fails leaves the time of the
  last check as it was.
* `propose`: what the rules propose now, if a trigger holds.
-/

namespace Arbiter

variable {m : Type → Type} [Monad m]

/-- What is proposed for a market in a pass: nothing if no trigger holds. -/
def propose (s : Services m) (market : Market) (now : Instant) : CycleM m (Except RuleFault (Option Proposal)) := do
  let p : Pass m := ⟨market.snapshot, now, s.sources⟩
  let (fires, memory) ← CycleM.inPass Memory.empty (market.shouldResolve p)
  match fires with
  | .error fault => pure (.error fault)
  | .ok false => pure (.ok none)
  | .ok true =>
    let (value, memory) ← CycleM.inPass memory (market.resolveTo p)
    match value with
    | .error fault => pure (.error fault)
    | .ok value =>
      let (explanation, _) ← CycleM.inPass memory (market.explainIn p)
      let text ← match explanation with
        | .ok e => pure e.text
        | .error fault => do
          CycleM.call (s.notify (.notExplained market.snapshot.id fault))
          pure market.explain
      pure (.ok (some
        { marketId := market.snapshot.id
          question := market.snapshot.question
          url := market.snapshot.url
          value
          explanation := text }))

/-- The decision that counts: to resolve to nothing is to cancel. -/
def effectiveDecision (decision : Decision) (value : Outcome) : Decision :=
  if decision = .resolve ∧ value.variant = .cancel then .cancel else decision

/-- Does on the platform what was decided; in a rehearsal it only says so. -/
def applyDecision (s : Services m) (dryRun : Bool) (market : Market) (proposal : Proposal) (decision : Decision) :
    m (Except Failure Unit) := do
  match decision with
  | .resolve =>
    if dryRun then do
      s.notify (.wouldApply decision market.snapshot.id proposal.value)
      pure (.ok ())
    else s.resolve market.snapshot proposal.value
  | .cancel =>
    if dryRun then do
      s.notify (.wouldApply decision market.snapshot.id proposal.value)
      pure (.ok ())
    else s.cancel market.snapshot
  | .skip =>
    s.notify (.skipped market.snapshot.id)
    pure (.ok ())

/-- Writes a decision into the journal, if one is kept. -/
def recordDecision (s : Services m) (market : Market) (now : Instant) (proposal : Proposal) (decision : Decision)
    (applied : Bool) : m Unit := do
  match s.record with
  | none => pure ()
  | some record =>
    match ← record (.decision now proposal decision applied) with
    | .ok () => pure ()
    | .error failure => s.notify (.decisionNotLogged market.snapshot.id failure)

/-- The state that a decision leads to. -/
def CheckState.ofDecision : Decision → CheckState
  | .resolve => .resolved
  | .cancel => .cancelled
  | .skip => .skipped

/-- Has a proposal confirmed, applied and recorded. -/
def settle (s : Services m) (dryRun : Bool) (market : Market) (now : Instant) (proposal : Proposal) :
    m (Except Failure CheckState × Market) := do
  s.notify (.proposing market.snapshot.id proposal.value)
  match ← s.confirm market.snapshot proposal with
  | .error failure => pure (.error failure, market)
  | .ok answer =>
    let decision := effectiveDecision answer proposal.value
    match ← applyDecision s dryRun market proposal decision with
    | .error failure => pure (.error failure, market)
    | .ok () =>
      recordDecision s market now proposal decision (!dryRun && decision != .skip)
      pure (.ok (CheckState.ofDecision decision), market.markChecked now)

/-- Checks a market whose snapshot is fresh. -/
def checkFresh (s : Services m) (dryRun : Bool) (market : Market) (now : Instant) :
    CycleM m (Except Failure CheckState × Market) := do
  if market.snapshot.isResolved then
    CycleM.call (s.notify (.alreadyResolved market.snapshot.id))
    pure (.ok .resolved, market)
  else
    match ← propose s market now with
    | .error fault => pure (.error (.ofCause (.rule fault)), market)
    | .ok none => pure (.ok .idle, market.markChecked now)
    | .ok (some proposal) => CycleM.call (settle s dryRun market now proposal)

/-- Whether a market is to be checked now. -/
def isWanted (market : Market) (refresh : Bool) (now : Instant) : CycleM m Bool :=
  if refresh then pure true else CycleM.orCrash (market.isDue now)

/-- Checks a market. It is left alone if it is not due, unless all markets are to be checked. -/
def checkMarket (s : Services m) (dryRun : Bool) (market : Market) (refresh : Bool) (now : Instant) :
    CycleM m (Except Failure CheckState × Market) := do
  if ← isWanted market refresh now then
    match ← CycleM.call (s.snapshot market.snapshot.id) with
    | .error fault => pure (.error ⟨["Failed to refresh market " ++ market.snapshot.id], .read fault⟩, market)
    | .ok snapshot => checkFresh s dryRun (market.refresh snapshot) now
  else pure (.ok .idle, market)

end Arbiter
