import Arbiter.Command.Collaborators
import Arbiter.Cycle.Run

/-!
# Carrying out commands

* `Command.perform`: carries out a command under its settings.
* `execute`: carries out the command that the words of a command line ask for.
-/

namespace Arbiter

/-- A text filled up with blanks in front of it. -/
def alignRight (width : Nat) (text : String) : String :=
  String.ofList (List.replicate (width - text.length) ' ') ++ text

/-- A stored market in the list. -/
def marketEntry (row : Int) (market : Market) : String :=
  let opening (values : SortedMap String Float) : String :=
    "      opened with " ++ ", ".intercalate (values.entries.map fun e => e.1 ++ ": " ++ plainText e.2) ++ "\n"
  alignRight 4 (toString row) ++ "  " ++ market.snapshot.question ++ "  every " ++ plainText market.checkRate
    ++ "h, last checked " ++ lastCheckedText market.lastChecked ++ "\n      " ++ market.snapshot.url ++ "\n"
    ++ market.initialValues.elim "" opening

/-- A queued request in the list. -/
def pendingEntry (r : PendingRequest) : String :=
  "pending " ++ alignRight 4 (toString r.row) ++ "  " ++ r.request.question ++ " (priority " ++ plainText r.priority
    ++ ", cost " ++ toString r.cost ++ ")\n"

section

variable {m : Type → Type} [Monad m] (host : Host m)

/-- Runs cycles with a pause between them, up to `cycles` of them; only the first one may check every market. The
failure of a cycle ends the command only if that cycle is the only one. -/
def runCycles (s : Services m) (settings : Settings) (once : Bool) : (cycles : Nat) → (refresh : Bool) → CommandM m Unit
  | 0, _ => pure ()
  | cycles + 1, refresh => do
    let result ← CommandM.cycle (runCycle s settings.dryRun refresh)
    if once then discard (CommandM.ofExcept result)
    else
      match result with
      | .ok _ => pure ()
      | .error failure => CommandM.call (host.notify (.cycleFailed failure))
      CommandM.call (host.pause settings.polling.interval)
      runCycles s settings once cycles false

/-- Runs cycles over the store. -/
def runCommand (cycles : Nat) (settings : Settings) (secrets : Secrets) (refresh once : Bool) : CommandM m Unit := do
  CommandM.attempt (host.openArchive settings)
  let archive := host.archive settings
  CommandM.attempt archive.report
  let confirm ← CommandM.ofExcept (confirmer host settings secrets)
  let record ← CommandM.attempt (host.journal settings.journal)
  let services := host.services settings secrets confirm record
  runCycles host services settings once cycles (refresh || settings.polling.refreshOnStart)

/-- The market that an identifier or an address names. -/
def findMarket (platform : PlatformClient m) (target : String) : m (Except Failure Snapshot) := do
  if target.startsWith "http" then platform.snapshotAt target
  else return (← platform.snapshot target).mapError fun fault => .ofCause (.read fault)

/-- Rules from the text of an option. -/
def rulesOfOption {α : Type} (decode : Json → Decoded α) (option text : String) : Except Failure (List α) :=
  (decodeText .whole (Decoded.list decode) text).mapError fun fault => ⟨["Failed to parse --" ++ option], .decode fault⟩

/-- Takes a market of the platform into the store. -/
def addCommand (settings : Settings) (secrets : Secrets) (target triggers values : String) (checkRate : Float)
    (notes : String) : CommandM m Unit := do
  let triggers ← CommandM.ofExcept (rulesOfOption Decoded.trigger "time-rules" triggers)
  let values ← CommandM.ofExcept (rulesOfOption Decoded.valueRule "value-rules" values)
  let snapshot ← CommandM.attempt (findMarket (host.platform settings secrets) target)
  let market ← CommandM.ofExcept
    ((Market.new snapshot triggers values checkRate).mapError fun fault => .ofCause (.rule (.market fault)))
  let market := { market with notes }
  CommandM.attempt (host.openArchive settings)
  let archive := host.archive settings
  let row ← CommandM.attempt (archive.store (Store.insertMarket market))
  CommandM.call (host.printLine ("Added " ++ snapshot.question ++ " as row " ++ toString row ++ "\n"))
  CommandM.call (host.printLine market.explain)

/-- The request in a file. -/
def requestOfFile (path : String) : (content : Option String) → Except Failure CreationRequest
  | none => .error ⟨["Failed to read " ++ path], .said [missingFile]⟩
  | some text =>
    (decodeText CreationRequest.shape CreationRequest.decode text).mapError fun fault =>
      ⟨["Failed to parse request in " ++ path], .decode fault⟩

/-- Queues the request in a file. -/
def queueCommand (settings : Settings) (path : String) (priority : Float) : CommandM m Unit := do
  let request ← CommandM.ofExcept (requestOfFile path (← CommandM.call (host.contentOf path)))
  CommandM.ofExcept (request.validate.mapError fun fault => .ofCause (.rule (.market fault)))
  CommandM.attempt (host.openArchive settings)
  let archive := host.archive settings
  let row ← CommandM.attempt
    (archive.store (Store.queueRequest request priority settings.platform.creationCost))
  CommandM.call
    (host.printLine ("Queued \"" ++ request.question ++ "\" as pending request " ++ toString row))

/-- Shows what the store holds; rows that cannot be read are left out. -/
def listCommand (settings : Settings) : CommandM m Unit := do
  CommandM.attempt (host.openArchive settings)
  let archive := host.archive settings
  for (row, market) in ← CommandM.attempt (archive.load .markets Store.loadMarkets) do
    CommandM.call (host.print (marketEntry row market))
  for request in ← CommandM.attempt (archive.load .pending Store.loadPending) do
    CommandM.call (host.print (pendingEntry request))

/-- Removes markets by their row numbers. -/
def removeCommand (settings : Settings) (rows : List Int) : CommandM m Unit := do
  CommandM.attempt (host.openArchive settings)
  let archive := host.archive settings
  for row in rows do
    let removed ← CommandM.attempt (archive.store (Store.removeMarket row))
    CommandM.call (host.printLine
      (if removed then "Removed " ++ toString row else "No market with row id " ++ toString row))

/-- Shows what the rules of a market mean and how they come out now. -/
def explainCommand (settings : Settings) (secrets : Secrets) (row : Int) : CommandM m Unit := do
  CommandM.attempt (host.openArchive settings)
  let archive := host.archive settings
  let market ← match ← CommandM.attempt (archive.store (Store.market? row)) with
    | some market => pure market
    | none => throw (.failed (.ofText ("No market with row id " ++ toString row)))
  CommandM.call (host.printLine (market.snapshot.question ++ "\n" ++ market.snapshot.url ++ "\n"))
  CommandM.call (host.printLine market.explain)
  let p : Pass m := ⟨market.snapshot, ← CommandM.call host.clock, host.sources settings secrets⟩
  let (explanation, memory) ← CommandM.cycle (CycleM.inPass Memory.empty (market.explainIn p))
  let explanation ← CommandM.ofExcept (explanation.mapError fun fault => .ofCause (.rule fault))
  CommandM.call (host.printLine explanation.text)
  let (fires, _) ← CommandM.cycle (CycleM.inPass memory (market.shouldResolve p))
  let fires ← CommandM.ofExcept (fires.mapError fun fault => .ofCause (.rule fault))
  CommandM.call (host.printLine ("Would resolve now: " ++ toString fires))

/-- Carries out a command. -/
def Command.perform (cycles : Nat) (settings : Settings) : Command → CommandM m Unit
  | .run refresh once => do
    CommandM.call (host.notify (.dryRunMode settings.dryRun))
    runCommand host cycles settings (← host.secrets) refresh once
  | .add target triggers values checkRate notes => do
    addCommand host settings (← host.secrets) target triggers values checkRate notes
  | .queue path priority => queueCommand host settings path priority
  | .list => listCommand host settings
  | .remove rows => removeCommand host settings rows
  | .explain row => do explainCommand host settings (← host.secrets) row

/-- Carries out the command that words ask for; at most `cycles` cycles are run. -/
def execute (cycles : Nat) (words : List String) : m Exit := do
  match Invocation.ofWords words with
  | .error refusal => pure (.refused refusal)
  | .ok invocation =>
    let work : CommandM m Unit := do
      let settings ← CommandM.attempt (host.settings invocation.settingsPath)
      invocation.command.perform host cycles settings
    match ← work.run with
    | .ok () => pure .done
    | .error exit => pure exit

end

end Arbiter
