import Arbiter.Cycle.Check

/-!
# Cycles

A cycle creates the markets that wait for it and then checks every stored market.

* `processPending`: creates queued markets, the greatest priority first.
* `checkAll`: checks the stored markets, one after another.
* `runCycle`: one pass over the store.
-/

namespace Arbiter

variable {m : Type → Type} [Monad m]

/-- Takes an invalid request off the queue. -/
def dropInvalid (s : Services m) (pending : PendingRequest) (fault : MarketFault) : m Unit := do
  s.notify (.droppingInvalid pending.row pending.request.question (.market fault))
  match ← s.store (Store.removePending pending.row) with
  | .ok _ => pure ()
  | .error failure => s.notify (.notDropped pending.row failure)

/-- Puts a market that the platform has created into the store; its row number. -/
def insertCreated (s : Services m) (request : CreationRequest) (snapshot : Snapshot) : m (Except Failure Int) :=
  match request.intoMarket snapshot with
  | .error fault => pure (.error (.ofCause (.rule (.market fault))))
  | .ok market => s.store (Store.insertMarket market)

/-- Stores a market that the platform has created; whether that worked. -/
def storeCreated (s : Services m) (request : CreationRequest) (snapshot : Snapshot) : m Bool := do
  match ← insertCreated s request snapshot with
  | .ok row =>
    s.notify (.created snapshot.id snapshot.url row)
    pure true
  | .error failure =>
    s.notify (.notStored snapshot.url failure)
    pure false

/-- Creates the market of a valid request; whether it is stored afterwards. The request leaves the queue as soon as the
market is there, so that it is never created twice. -/
def createPending (s : Services m) (pending : PendingRequest) : m Bool := do
  match ← s.create pending.request with
  | .error failure =>
    s.notify (.notCreated pending.request.question failure)
    pure false
  | .ok snapshot =>
    match ← s.store (Store.removePending pending.row) with
    | .ok _ => pure ()
    | .error failure => s.notify (.notDequeued snapshot.url pending.row failure)
    storeCreated s pending.request snapshot

/-- Deals with one queued request; whether its market is created and stored. -/
def processRequest (s : Services m) (dryRun : Bool) (pending : PendingRequest) : m Bool := do
  match pending.request.validate with
  | .error fault =>
    dropInvalid s pending fault
    pure false
  | .ok () =>
    if dryRun then
      s.notify (.wouldCreate pending.request.question pending.priority pending.cost)
      pure false
    else createPending s pending

/-- Deals with queued requests one by one; how many were created. -/
def processRequests (s : Services m) (dryRun : Bool) : (created : Nat) → List PendingRequest → m Nat
  | created, [] => pure created
  | created, pending :: rest => do
    let stored ← processRequest s dryRun pending
    processRequests s dryRun (if stored then created + 1 else created) rest

/-- Deals with the queue, the greatest priority first; how many markets were created. -/
def processPending (s : Services m) (dryRun : Bool) : m (Except Failure Nat) := do
  match ← s.load .pending Store.loadPending with
  | .error failure => pure (.error failure)
  | .ok requests => .ok <$> processRequests s dryRun 0 requests

/-- Tells about a check that failed, in the journal too. -/
def reportFailure (s : Services m) (market : Market) (failure : Failure) : m Unit := do
  s.notify (.checkFailed market.snapshot.id failure)
  match s.record with
  | none => pure ()
  | some record =>
    match ← record (.event (← s.clock) market.snapshot.id ("check failed: " ++ failure.message)) with
    | .ok () => pure ()
    | .error failure => s.notify (.eventNotLogged failure)

/-- Whether a market needs no further care once its check ended in a state. -/
def isFinished (dryRun : Bool) (market : Market) (state : CheckState) : Bool :=
  (state == .resolved || state == .cancelled) && (!dryRun || market.snapshot.isResolved)

/-- Writes a checked market back, or removes it once it is finished. -/
def writeChecked (s : Services m) (dryRun : Bool) (row : Int) (market : Market) (state : CheckState) :
    m (Except Failure Unit) := do
  if isFinished dryRun market state then
    match ← s.store (Store.removeMarket row) with
    | .ok _ =>
      s.notify (.finished market.snapshot.id state)
      pure (.ok ())
    | .error failure => pure (.error failure)
  else s.store (Store.updateMarket row market)

/-- Writes a checked market back, or removes it once it is finished; whether that worked. -/
def storeChecked (s : Services m) (dryRun : Bool) (row : Int) (market : Market) (state : CheckState) : m Bool := do
  match ← writeChecked s dryRun row market state with
  | .ok () => pure true
  | .error failure =>
    s.notify (.marketNotStored market.snapshot.id row failure)
    pure false

namespace CycleSummary

/-- One more market checked. -/
def countCheck (summary : CycleSummary) : CycleSummary :=
  { summary with checked := summary.checked + 1 }

/-- One more failure. -/
def countFailure (summary : CycleSummary) : CycleSummary :=
  { summary with failed := summary.failed + 1 }

/-- One more check that ended in a state. -/
def countState (summary : CycleSummary) : CheckState → CycleSummary
  | .resolved => { summary with resolved := summary.resolved + 1 }
  | .cancelled => { summary with cancelled := summary.cancelled + 1 }
  | .skipped => { summary with skipped := summary.skipped + 1 }
  | _ => summary

end CycleSummary

/-- Deals with one stored market. -/
def processMarket (s : Services m) (dryRun refresh : Bool) (now : Instant) (summary : CycleSummary) (row : Int)
    (market : Market) : CycleM m CycleSummary := do
  if ← isWanted market refresh now then
    let summary := summary.countCheck
    match ← checkMarket s dryRun market refresh now with
    | (.error failure, market) =>
      CycleM.call (reportFailure s market failure)
      pure summary.countFailure
    | (.ok state, market) =>
      let summary := summary.countState state
      if ← CycleM.call (storeChecked s dryRun row market state) then pure summary else pure summary.countFailure
  else pure summary

/-- Deals with stored markets one by one. -/
def processMarkets (s : Services m) (dryRun refresh : Bool) (now : Instant) :
    CycleSummary → List (Int × Market) → CycleM m CycleSummary
  | summary, [] => pure summary
  | summary, (row, market) :: rest => do
    processMarkets s dryRun refresh now (← processMarket s dryRun refresh now summary row market) rest

/-- Checks every stored market by ascending row number. -/
def checkAll (s : Services m) (dryRun refresh : Bool) (now : Instant) (created : Nat) :
    CycleM m (Except Failure CycleSummary) := do
  match ← CycleM.call (s.load .markets Store.loadMarkets) with
  | .error failure => pure (.error failure)
  | .ok markets =>
    let summary ← processMarkets s dryRun refresh now { created } markets
    pure (.ok summary)

/-- One pass: creates the markets that wait, then checks every stored market. The moment of the checks is taken after the
creations. -/
def runCycle (s : Services m) (dryRun refresh : Bool) : CycleM m (Except Failure CycleSummary) := do
  match ← CycleM.call (processPending s dryRun) with
  | .error failure => pure (.error failure)
  | .ok created =>
    let now ← CycleM.call s.clock
    match ← checkAll s dryRun refresh now created with
    | .error failure => pure (.error failure)
    | .ok summary =>
      CycleM.call (s.notify (.cycleDone summary))
      pure (.ok summary)

end Arbiter
