import Arbiter.Outcome.Basic
import Arbiter.Text.Quoted
import Arbiter.Time.Instant

/-!
# What the outside world is asked about

Markets of the platform, its users and their statistics, and pull requests of a code host, as they are at one moment.
-/

namespace Arbiter

/-- A market as the platform reports it. -/
structure Snapshot where
  id : String
  url : String
  question : String
  outcomeType : OutcomeType
  minValue : Option Float
  maxValue : Option Float
  isLogScale : Bool
  answers : List String
  closeTime : Option Instant
  isResolved : Bool
deriving DecidableEq

/-- Another market, looked up by its address. -/
structure Reference where
  question : String
  closed : Bool
  resolved : Bool
  value : Outcome
deriving DecidableEq

/-- The span that a user's statistic covers. -/
inductive Period where
  | allTime
  | daily
  | weekly
  | monthly
deriving DecidableEq, Repr

namespace Period

/-- The name in rules and records. -/
def name : Period → String
  | .allTime => "allTime"
  | .daily => "daily"
  | .weekly => "weekly"
  | .monthly => "monthly"

/-- All periods. -/
def all : List Period := [.allTime, .daily, .weekly, .monthly]

/-- The period of a name. -/
def ofName? (text : String) : Option Period :=
  all.find? fun p => p.name == text

/-- What is said of a text that is no period. -/
def unknownText (text : String) : String :=
  "unknown period " ++ quoted text

end Period

/-- One statistic over each period. -/
structure PeriodStats where
  allTime : Float
  daily : Float
  weekly : Float
  monthly : Float
deriving DecidableEq

namespace PeriodStats

/-- Nothing in any period. -/
def zero : PeriodStats := ⟨0, 0, 0, 0⟩

/-- The statistic over one period. -/
def get (s : PeriodStats) : Period → Float
  | .allTime => s.allTime
  | .daily => s.daily
  | .weekly => s.weekly
  | .monthly => s.monthly

end PeriodStats

/-- What the platform keeps about a user. -/
structure UserStats where
  profit : PeriodStats
  createdVolume : PeriodStats
deriving DecidableEq

/-- How far a pull request has come. -/
inductive PullState where
  | open
  | merged
  | closed
deriving DecidableEq, Repr

namespace PullState

/-- The name in records. -/
def name : PullState → String
  | .open => "open"
  | .merged => "merged"
  | .closed => "closed"

/-- All states. -/
def all : List PullState := [.open, .merged, .closed]

/-- Whether nothing more will happen: merged, or closed without it. -/
def isTerminal : PullState → Bool
  | .open => false
  | .merged | .closed => true

end PullState

/-- A pull request. -/
structure PullRequest where
  state : PullState
  mergedAt : Option Instant
  closedAt : Option Instant
deriving DecidableEq

/-- Where a pull request is found. -/
structure PullRef where
  owner : String
  repo : String
  number : Nat
deriving DecidableEq, Repr

/-- The reference as people write it. -/
def PullRef.text (p : PullRef) : String :=
  p.owner ++ "/" ++ p.repo ++ "#" ++ toString p.number

end Arbiter
