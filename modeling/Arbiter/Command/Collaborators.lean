import Arbiter.Command.Confirm
import Arbiter.Command.Exit
import Arbiter.Platform.CodeHost

/-!
# What commands work with

The settings, the secrets, the store, the clients and the journal, made from the machine that the program runs on.
-/

namespace Arbiter

namespace Host

variable {m : Type → Type} [Monad m] (host : Host m)

/-- Writes a line to the standard output. -/
def printLine (text : String) : m Unit := host.print (text ++ "\n")

/-- The settings in a file. -/
def settings (path : String) : m (Except Failure Settings) := return Settings.ofFile path (← host.contentOf path)

/-- The secrets in the environment and in the file `.env`. A value that no variable can hold is a crash. -/
def secrets : CommandM m Secrets := do
  let lines := ((← CommandM.call (host.contentOf ".env")).getD "").splitOn "\n"
  match ← CommandM.call (assignVariables host.environment SortedMap.empty (readAssignments lines)) with
  | some added => CommandM.attempt (Secrets.ofVariables (findVariable host.environment added))
  | none => throw .crashed

/-- The store of the settings, once it is open. -/
def archive (settings : Settings) : Archive m :=
  ⟨host.onStore ((StoreLocation.ofName? settings.storePath).getD .nowhere), host.notify⟩

/-- Opens the store of the settings. -/
def openArchive (settings : Settings) : m (Except Failure Unit) := do
  let opened ← match StoreLocation.ofName? settings.storePath with
    | some location => host.openStore location
    | none => pure (.error .noFile)
  return opened.mapError (OpenFault.failure settings.storePath)

/-- The client of the platform. -/
def platform (settings : Settings) (secrets : Secrets) : PlatformClient m :=
  { transport := host.transport, clock := host.clock, notify := host.notify
    baseUrl := settings.platform.url, apiKey := some secrets.platformKey }

/-- The client of the code host. -/
def codeHost (settings : Settings) (secrets : Secrets) : CodeHost m :=
  { transport := host.transport, baseUrl := settings.codeHost.url, credentials := secrets.codeHostCredentials }

/-- What rules read. -/
def sources (settings : Settings) (secrets : Secrets) : Sources m :=
  let platform := host.platform settings secrets
  { currentValue := platform.currentValue
    otherMarket := platform.otherMarket
    user := platform.user
    pullRequest := (host.codeHost settings secrets).pullRequest
    entropy := host.entropy }

/-- The collaborators of a cycle. -/
def services (settings : Settings) (secrets : Secrets) (confirm : Snapshot → Proposal → m (Except Failure Decision))
    (record : Option (JournalEntry → m (Except Failure Unit))) : Services m :=
  let platform := host.platform settings secrets
  { host.archive settings with
    sources := host.sources settings secrets
    snapshot := platform.snapshot
    resolve := platform.resolve
    cancel := platform.cancel
    create := platform.create
    confirm, record
    clock := host.clock }

/-- Appends an entry to the journal in a file that has to be there. -/
def record (path : String) (entry : JournalEntry) : m (Except Failure Unit) := do
  let appended ← if ← host.hasPath path then host.appendTo path entry.line else pure false
  pure (if appended then .ok () else .error (.ofText missingFile))

/-- The journal of the settings, if one is kept; a new file begins with the names of the fields. -/
def journal (settings : JournalSettings) : m (Except Failure (Option (JournalEntry → m (Except Failure Unit)))) := do
  if settings.enabled then
    let path := settings.path
    let there ← if ← host.hasPath path then pure true else host.appendTo path (Journal.opened none)
    pure (if there then .ok (some (host.record path))
      else .error ⟨["Failed to create resolution log: " ++ path], .said [missingFile]⟩)
  else pure (.ok none)

end Host

end Arbiter
