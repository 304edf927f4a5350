import Arbiter.Cycle.Decision
import Arbiter.Time.Writer

/-!
# The decision journal

A file with one record for each decision on a market and for each other event worth keeping. Fields are separated by
commas; a field that holds a comma, a quote or the end of a line stands in quotes, and a quote inside it is written
twice.

* `Journal.fieldText`: a text of a market or of an event as it is written.
* `JournalEntry.line`: the record as it is appended.
* `Journal.opened`: what the file holds once it is opened.
-/

namespace Arbiter

/-- An entry of the journal. -/
inductive JournalEntry where
  | decision (time : Instant) (proposal : Proposal) (answer : Decision) (applied : Bool)
  | event (time : Instant) (marketId text : String)

namespace Journal

/-- The names of the fields. -/
def header : List String := ["timestamp", "market_id", "question", "value", "decision", "applied"]

/-- A text between quotes, each quote in it written twice. -/
def enclosed (text : String) : String :=
  "\"" ++ String.ofList (text.toList.flatMap fun c => if c = '"' then ['"', '"'] else [c]) ++ "\""

/-- A text that can hold anything, as it is written. -/
def fieldText (text : String) : String :=
  if text.toList.any fun c => c == ',' || c == '"' || c == '\n' then enclosed text else text

/-- The record of some written fields, with the end of its line. -/
def recordText (written : List String) : String :=
  ",".intercalate written ++ "\n"

/-- What the file holds once it is opened: a new one begins with the names of the fields. -/
def opened (existing : Option String) : String :=
  existing.getD (recordText header)

end Journal

namespace JournalEntry

/-- The record as it is appended. The moment, the name of the decision and the word for its application are written as they
are. An event leaves the last three fields empty. -/
def line : JournalEntry → String
  | .decision time proposal answer applied =>
    Journal.recordText [time.text, Journal.fieldText proposal.marketId, Journal.fieldText proposal.question,
      Journal.fieldText proposal.value.text, answer.name, toString applied]
  | .event time marketId text =>
    Journal.recordText [time.text, Journal.fieldText marketId, Journal.fieldText ("EVENT: " ++ text), "", "", ""]

end JournalEntry

end Arbiter
