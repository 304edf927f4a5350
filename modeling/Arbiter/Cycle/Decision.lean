import Arbiter.Outcome.Basic
import Arbiter.Record.Decoder
import Arbiter.Text.Blank

/-!
# Proposals and decisions

A `Proposal` is what a person is asked about, a `Decision` is the answer, and a `CheckState` is how far the check of a
market has come.
-/

namespace Arbiter

/-- The answer to a proposal. -/
inductive Decision where
  | resolve
  | cancel
  | skip
deriving DecidableEq, Repr

namespace Decision

/-- The name of a decision. -/
def name : Decision → String
  | .resolve => "resolve"
  | .cancel => "cancel"
  | .skip => "skip"

/-- All decisions. -/
def all : List Decision := [.resolve, .cancel, .skip]

/-- The words for a decision. -/
def words : Decision → List String
  | .resolve => ["resolve", "r", "yes", "y"]
  | .cancel => ["cancel", "c"]
  | .skip => ["skip", "s", "no", "n", ""]

/-- A text without blanks around it and with small letters. -/
def simplified (text : String) : String :=
  String.ofList ((trim text).toList.map Char.toLower)

/-- The decision that a text stands for. -/
def ofText? (text : String) : Option Decision :=
  all.find? fun d => d.words.contains (simplified text)

/-- What is said of a text that is no decision. -/
def unknownText (text : String) : String :=
  "Unknown decision: " ++ simplified text

/-- The decision of a record. -/
def decode : Json → Decoded Decision := Decoded.choice all name

end Decision

/-- What a person is asked about. -/
structure Proposal where
  marketId : String
  question : String
  url : String
  value : Outcome
  explanation : String

/-- The proposal as it is shown. -/
def Proposal.text (p : Proposal) : String :=
  p.question ++ "\n" ++ p.url ++ "\n\n" ++ trimEnd p.explanation ++ "\n\nProposed resolution: " ++ p.value.text

/-- How far the check of a market has come. -/
inductive CheckState where
  | idle
  | due
  | evaluating
  | triggered
  | awaitingConfirmation
  | resolved
  | cancelled
  | skipped
deriving DecidableEq, Repr

namespace CheckState

/-- The name of a state. -/
def name : CheckState → String
  | .idle => "idle"
  | .due => "due"
  | .evaluating => "evaluating"
  | .triggered => "triggered"
  | .awaitingConfirmation => "awaiting confirmation"
  | .resolved => "resolved"
  | .cancelled => "cancelled"
  | .skipped => "skipped"

/-- All states in the order in which a check goes through them. -/
def all : List CheckState :=
  [.idle, .due, .evaluating, .triggered, .awaitingConfirmation, .resolved, .cancelled, .skipped]

end CheckState

/-- What a pass over the store did. -/
structure CycleSummary where
  created : Nat := 0
  checked : Nat := 0
  resolved : Nat := 0
  cancelled : Nat := 0
  skipped : Nat := 0
  failed : Nat := 0
deriving DecidableEq, Repr, Inhabited

end Arbiter
