import Arbiter.Cycle.Decision
import Arbiter.Failure
import Arbiter.Toml.Reader

/-!
# Settings

What a settings file says, with a value for everything that it leaves out but the section `system`.

* `Settings.decode`: the settings in a table.
* `Settings.ofFile`: the settings in a file.
-/

namespace Arbiter

/-- Where decisions come from. -/
inductive Channel where
  | console
  | telegram
  | fixed
deriving DecidableEq, Repr

namespace Channel

/-- All channels. -/
def all : List Channel := [.console, .telegram, .fixed]

/-- The name of a channel. -/
def name : Channel → String
  | .console => "console"
  | .telegram => "telegram"
  | .fixed => "fixed"

end Channel

/-- The record of a section. A section may also be a list of its fields; what follows them does not count. -/
def sectionOf (fields : List FieldCheck) : Json → Decoded Record
  | .array items => Record.ofJson fields (.array (items.take fields.length))
  | v => Record.ofJson fields v

/-- A setting that is one of several: its name, or a table with the name alone and nothing behind it. -/
def decodeChoice {α : Type} (all : List α) (name : α → String) : Json → Decoded α
  | .object [(s, .object [])] | .object [(s, .array [])] => Decoded.choice all name (.string s)
  | .object _ => .error .shape
  | v => Decoded.choice all name v

/-- When cycles run. -/
structure PollingSettings where
  /-- Seconds between two cycles. -/
  interval : Nat := 300
  /-- Whether the first cycle checks every market. -/
  refreshOnStart : Bool := false

/-- How decisions are made. -/
structure ConfirmationSettings where
  channel : Channel := .console
  /-- The answer of the fixed channel. -/
  fixedDecision : Decision := .skip
  /-- Seconds between two questions to the chat. -/
  chatPoll : Nat := 5
  /-- Seconds after which the chat is given up. -/
  chatTimeout : Nat := 3600

/-- How the platform is reached. -/
structure PlatformSettings where
  url : String := "https://api.manifold.markets"
  /-- Seconds after which a request is given up. -/
  timeout : Nat := 30
  /-- What is noted as the cost of each queued request. -/
  creationCost : Int := 50

/-- How the code host is reached. -/
structure CodeHostSettings where
  url : String := "https://api.github.com"
  /-- Seconds after which a request is given up. -/
  timeout : Nat := 30

/-- What is kept about the work. -/
structure JournalSettings where
  enabled : Bool := false
  path : String := "resolutions.csv"

/-- The settings. -/
structure Settings where
  /-- Whether nothing is to be changed on the platform. -/
  dryRun : Bool
  /-- The file of the store. -/
  storePath : String
  polling : PollingSettings := {}
  confirmation : ConfirmationSettings := {}
  platform : PlatformSettings := {}
  codeHost : CodeHostSettings := {}
  journal : JournalSettings := {}

namespace PollingSettings

/-- The fields of the section. -/
def fields : List FieldCheck :=
  [field "interval_secs" Decoded.natural, field "refresh_on_start" Decoded.truth]

/-- The section `polling`. -/
def decode (v : Json) : Decoded PollingSettings := do
  let r ← sectionOf fields v
  let d : PollingSettings := {}
  return {
    interval := ← r.withDefault "interval_secs" Decoded.natural d.interval
    refreshOnStart := ← r.withDefault "refresh_on_start" Decoded.truth d.refreshOnStart }

end PollingSettings

namespace ConfirmationSettings

/-- The channel of a name. -/
def decodeChannel : Json → Decoded Channel := decodeChoice Channel.all Channel.name

/-- The decision of a name. -/
def decodeDecision : Json → Decoded Decision := decodeChoice Decision.all Decision.name

/-- The fields of the section. -/
def fields : List FieldCheck :=
  [field "channel" decodeChannel, field "fixed_decision" decodeDecision,
    field "telegram_poll_secs" Decoded.natural, field "telegram_timeout_secs" Decoded.natural]

/-- The section `confirmation`. -/
def decode (v : Json) : Decoded ConfirmationSettings := do
  let r ← sectionOf fields v
  let d : ConfirmationSettings := {}
  return {
    channel := ← r.withDefault "channel" decodeChannel d.channel
    fixedDecision := ← r.withDefault "fixed_decision" decodeDecision d.fixedDecision
    chatPoll := ← r.withDefault "telegram_poll_secs" Decoded.natural d.chatPoll
    chatTimeout := ← r.withDefault "telegram_timeout_secs" Decoded.natural d.chatTimeout }

end ConfirmationSettings

namespace PlatformSettings

/-- The fields of the section. -/
def fields : List FieldCheck :=
  [field "api_url" Decoded.text, field "timeout_secs" Decoded.natural, field "creation_cost" Decoded.integer]

/-- The section `platform`. -/
def decode (v : Json) : Decoded PlatformSettings := do
  let r ← sectionOf fields v
  let d : PlatformSettings := {}
  return {
    url := ← r.withDefault "api_url" Decoded.text d.url
    timeout := ← r.withDefault "timeout_secs" Decoded.natural d.timeout
    creationCost := ← r.withDefault "creation_cost" Decoded.integer d.creationCost }

end PlatformSettings

namespace CodeHostSettings

/-- The fields of the section. -/
def fields : List FieldCheck :=
  [field "api_url" Decoded.text, field "timeout_secs" Decoded.natural]

/-- The section `source_host`. -/
def decode (v : Json) : Decoded CodeHostSettings := do
  let r ← sectionOf fields v
  let d : CodeHostSettings := {}
  return {
    url := ← r.withDefault "api_url" Decoded.text d.url
    timeout := ← r.withDefault "timeout_secs" Decoded.natural d.timeout }

end CodeHostSettings

namespace JournalSettings

/-- The fields of the section. -/
def fields : List FieldCheck :=
  [field "csv_logging" Decoded.truth, field "csv_log_path" Decoded.text]

/-- The section `monitoring`. -/
def decode (v : Json) : Decoded JournalSettings := do
  let r ← sectionOf fields v
  let d : JournalSettings := {}
  return {
    enabled := ← r.withDefault "csv_logging" Decoded.truth d.enabled
    path := ← r.withDefault "csv_log_path" Decoded.text d.path }

end JournalSettings

namespace Settings

/-- The fields of the section `system`. -/
def systemFields : List FieldCheck :=
  [field "dry_run" Decoded.truth, field "database_path" Decoded.text]

/-- The section `system`: whether to change nothing, and the file of the store. -/
def decodeSystem (v : Json) : Decoded (Bool × String) := do
  let r ← sectionOf systemFields v
  return (← r.required "dry_run" Decoded.truth, ← r.required "database_path" Decoded.text)

/-- The sections. -/
def fields : List FieldCheck :=
  [field "system" decodeSystem, field "polling" PollingSettings.decode,
    field "confirmation" ConfirmationSettings.decode, field "platform" PlatformSettings.decode,
    field "source_host" CodeHostSettings.decode, field "monitoring" JournalSettings.decode]

/-- The settings in a table. -/
def decode (v : Json) : Decoded Settings := do
  let r ← sectionOf fields v
  let (dryRun, storePath) ← r.required "system" decodeSystem
  return {
    dryRun, storePath
    polling := ← r.withDefault "polling" PollingSettings.decode {}
    confirmation := ← r.withDefault "confirmation" ConfirmationSettings.decode {}
    platform := ← r.withDefault "platform" PlatformSettings.decode {}
    codeHost := ← r.withDefault "source_host" CodeHostSettings.decode {}
    journal := ← r.withDefault "monitoring" JournalSettings.decode {} }

/-- The settings in a file, by its path and by its content if it could be read. -/
def ofFile (path : String) : (content : Option String) → Except Failure Settings
  | none => .error ⟨["Failed to read config file: " ++ path], .said [missingFile]⟩
  | some text =>
    let failed : Failure := ⟨["Failed to parse config file: " ++ path], .said ["invalid settings"]⟩
    match Toml.read? text with
    | none => .error failed
    | some v => (decode v).mapError fun _ => failed

end Settings

end Arbiter
