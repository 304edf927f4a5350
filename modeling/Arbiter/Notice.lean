import Arbiter.Cycle.Decision
import Arbiter.Failure

/-!
# Notices

What the program tells while it works.

* `Notice.text`: the line of a notice, its detail last.
* `Notice.level`: how much a notice matters.
-/

namespace Arbiter

/-- How much a notice matters. -/
inductive Level where
  | info
  | warning
  | error
deriving DecidableEq, Repr

/-- The word for a level. -/
def Level.name : Level → String
  | .info => "INFO"
  | .warning => "WARN"
  | .error => "ERROR"

/-- Something worth telling. -/
inductive Notice where
  | unreadableRow (table : TableName) (row : Int) (fault : DecodeFault)
  | droppingInvalid (row : Int) (question : String) (fault : RuleFault)
  | notDropped (row : Int) (failure : Failure)
  | wouldCreate (question : String) (priority : Float) (cost : Int)
  | notCreated (question : String) (failure : Failure)
  | notDequeued (url : String) (row : Int) (failure : Failure)
  | created (id url : String) (row : Int)
  | notStored (url : String) (failure : Failure)
  | alreadyResolved (id : String)
  | notExplained (id : String) (fault : RuleFault)
  | proposing (id : String) (value : Outcome)
  | wouldApply (decision : Decision) (id : String) (value : Outcome)
  | skipped (id : String)
  | decisionNotLogged (id : String) (failure : Failure)
  | checkFailed (id : String) (failure : Failure)
  | eventNotLogged (failure : Failure)
  | finished (id : String) (state : CheckState)
  | marketNotStored (id : String) (row : Int) (failure : Failure)
  | cycleDone (summary : CycleSummary)
  | managing (count : Nat)
  | managed (row : Int) (question : String) (checkRate : Float) (lastChecked : Option Instant)
  | waiting (count : Nat)
  /-- The platform took a resolution. -/
  | sentResolution (id : String) (value : Outcome)
  /-- The platform took a cancellation. -/
  | sentCancellation (id : String)
  /-- The platform made a market. -/
  | sentMarket (id question : String)
  | sentBets (count : Nat) (id : String)
  /-- A proposal was put to the chat. -/
  | asked (id : String) (message : Int)
  | notAcknowledged (failure : Failure)
  | unanswered (id : String) (seconds : Nat)
  | dryRunMode (dryRun : Bool)
  | cycleFailed (failure : Failure)

/-- When a market was last checked, as it is shown. -/
def lastCheckedText (lastChecked : Option Instant) : String :=
  lastChecked.elim "never" Instant.text

namespace Notice

/-- How much a notice matters. -/
def level : Notice → Level
  | .unreadableRow .. | .droppingInvalid .. | .notDropped .. | .notCreated .. | .notDequeued .. | .notStored ..
  | .notExplained .. | .decisionNotLogged .. | .checkFailed .. | .eventNotLogged .. | .marketNotStored ..
  | .notAcknowledged .. | .unanswered .. => .warning
  | .cycleFailed .. => .error
  | .wouldCreate .. | .created .. | .alreadyResolved .. | .proposing .. | .wouldApply .. | .skipped .. | .finished ..
  | .cycleDone .. | .managing .. | .managed .. | .waiting .. | .sentResolution .. | .sentCancellation ..
  | .sentMarket .. | .sentBets .. | .asked .. | .dryRunMode .. => .info

/-- The numbers of a pass over the store. -/
def summaryText (s : CycleSummary) : String :=
  "Cycle done: " ++ toString s.created ++ " created, " ++ toString s.checked ++ " checked, " ++ toString s.resolved
    ++ " resolved, " ++ toString s.cancelled ++ " cancelled, " ++ toString s.skipped ++ " skipped, "
    ++ toString s.failed ++ " failed"

/-- The line without its detail. -/
def headline : Notice → String
  | .unreadableRow table row _ => "Skipping unreadable " ++ table.rowName ++ " row " ++ toString row
  | .droppingInvalid row question _ => "Dropping invalid creation request " ++ toString row ++ " (" ++ question ++ ")"
  | .notDropped row _ => "Failed to drop pending request " ++ toString row
  | .wouldCreate question priority cost =>
    "[DRY RUN] Would create \"" ++ question ++ "\" (priority " ++ plainText priority ++ ", cost " ++ toString cost
      ++ ")"
  | .notCreated question _ => "Failed to create \"" ++ question ++ "\""
  | .notDequeued url row _ => "Created " ++ url ++ " but could not dequeue request " ++ toString row
  | .created id url row => "Created market " ++ id ++ " (" ++ url ++ ") as row " ++ toString row
  | .notStored url _ => "Created " ++ url ++ " but failed to store it; add it by hand"
  | .alreadyResolved id => "Market " ++ id ++ " was already resolved on the platform"
  | .notExplained id _ => "Failed to explain " ++ id ++ "; sending the rule summary"
  | .proposing id value => "Market " ++ id ++ " " ++ CheckState.triggered.name ++ ": proposing " ++ value.text
  | .wouldApply decision id value =>
    "[DRY RUN] Would " ++ decision.name ++ " " ++ id ++ " (" ++ value.text ++ ")"
  | .skipped id => "Skipped " ++ id
  | .decisionNotLogged id _ => "Failed to log decision for " ++ id
  | .checkFailed id _ => "Check failed for market " ++ id
  | .eventNotLogged _ => "Failed to log event"
  | .finished id state => "Market " ++ id ++ " is " ++ state.name ++ "; no longer managed"
  | .marketNotStored id row _ => "Failed to store market " ++ id ++ " (row " ++ toString row ++ ")"
  | .cycleDone summary => summaryText summary
  | .managing count => "Managing " ++ toString count ++ " markets"
  | .managed row question checkRate lastChecked =>
    "Market " ++ toString row ++ ": " ++ question ++ " (check every " ++ plainText checkRate ++ "h, last checked "
      ++ lastCheckedText lastChecked ++ ")"
  | .waiting count => "Pending creation requests: " ++ toString count
  | .sentResolution id value => "Resolved " ++ id ++ " to " ++ value.text
  | .sentCancellation id => "Cancelled " ++ id
  | .sentMarket id question => "Created market " ++ id ++ ": " ++ question
  | .sentBets count id => "Placed " ++ toString count ++ " opening bets on " ++ id
  | .asked id message => "Asked Telegram about " ++ id ++ " (message " ++ toString message ++ ")"
  | .notAcknowledged _ => "Failed to acknowledge Telegram answer"
  | .unanswered id seconds => "No Telegram answer for " ++ id ++ " within " ++ toString seconds ++ "s; skipping"
  | .dryRunMode dryRun => "Dry run mode: " ++ toString dryRun
  | .cycleFailed _ => "Cycle failed, retrying next interval"

/-- What went wrong, if the notice is about that. -/
def detail : Notice → Option String
  | .unreadableRow _ _ fault => some fault.message
  | .droppingInvalid _ _ fault | .notExplained _ fault => some fault.message
  | .notDropped _ failure | .notCreated _ failure | .notDequeued _ _ failure | .notStored _ failure
  | .decisionNotLogged _ failure | .checkFailed _ failure | .eventNotLogged failure
  | .marketNotStored _ _ failure | .notAcknowledged failure
  | .cycleFailed failure => some failure.message
  | _ => none

/-- The whole line. -/
def text (notice : Notice) : String :=
  notice.headline ++ notice.detail.elim "" fun d => ": " ++ d

end Notice

end Arbiter
